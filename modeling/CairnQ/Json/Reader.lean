import CairnQ.Json.Document
import Mathlib.Data.List.Basic
import Mathlib.Data.Nat.Basic

/-!
# Reading JSON

A recursive descent reader, up to two choices that differ between languages: how an integer
is kept, and which object the fields of a text make.  The fuel bounds the recursion; a text
is given enough for its length.

Main results:

- Theorem `readContents_escape`: what an encoder writes between quotes reads back.
- Theorem `runNumber_decimal`: a decimal text is a number.
- Theorem `parse_render`: a document that the reader keeps as it is reads back, in whichever
  style it was written.
-/

namespace JsonText

/-! ## Strings -/

/-- What the letter of a two-character escape stands for. -/
def letterValue (e : CodeUnit) : Option CodeUnit :=
  if e = quote ∨ e = backslash ∨ e = 47 then some e
  else if e = 98 then some 8
  else if e = 102 then some 12
  else if e = 110 then some 10
  else if e = 114 then some 13
  else if e = 116 then some 9
  else none

/-- One more unit in front of what was read. -/
def push (u : CodeUnit) (read : Text × Text) : Text × Text :=
  (u :: read.1, read.2)

/-- Where a reader of a string stands. -/
inductive StringMode
  | plain
  | escaped
  | hex (value left : Nat)
deriving DecidableEq, Repr

/-- Read the rest of a string, and go past the closing quote. -/
def readString : StringMode → Text → Option (Text × Text)
  | _, [] => none
  | .plain, u :: t =>
      if u = quote then some ([], t)
      else if u = backslash then readString .escaped t
      else if u.val < 32 then none
      else (readString .plain t).map (push u)
  | .escaped, u :: t =>
      if u = 117 then readString (.hex 0 3) t
      else (letterValue u).bind fun v => (readString .plain t).map (push v)
  | .hex value left, u :: t =>
      (hexValue u).bind fun digit =>
        match left with
        | 0 => (readString .plain t).map (push (Fin.ofNat 65536 (16 * value + digit)))
        | left + 1 => readString (.hex (16 * value + digit) left) t

/-- Read a string after its opening quote. -/
abbrev readContents (t : Text) : Option (Text × Text) :=
  readString .plain t

theorem readContents_quote (t : Text) : readContents (quote :: t) = some ([], t) :=
  rfl

theorem readString_hex_zero (value : Nat) {u : CodeUnit} {digit : Nat}
    (h : hexValue u = some digit) (t : Text) :
    readString (.hex value 0) (u :: t) =
      (readContents t).map (push (Fin.ofNat 65536 (16 * value + digit))) := by
  rw [readString, h, Option.bind_some]

theorem readString_hex_succ (value left : Nat) {u : CodeUnit} {digit : Nat}
    (h : hexValue u = some digit) (t : Text) :
    readString (.hex value (left + 1)) (u :: t) =
      readString (.hex (16 * value + digit) left) t := by
  rw [readString, h, Option.bind_some]

theorem readContents_hexEscape (u : CodeUnit) (t : Text) :
    readContents (hexEscape u ++ t) = (readContents t).map (push u) := by
  have hu : u.val < 65536 := u.isLt
  have hvalue : 16 * (16 * (16 * (16 * 0 + u.val / 4096) + u.val / 256 % 16) +
      u.val / 16 % 16) + u.val % 16 = u.val := by omega
  have hunit : Fin.ofNat 65536 u.val = u := Fin.ext (Nat.mod_eq_of_lt hu)
  calc readContents (hexEscape u ++ t)
      = readString (.hex 0 3) (hexDigit (u.val / 4096) :: hexDigit (u.val / 256 % 16) ::
          hexDigit (u.val / 16 % 16) :: hexDigit (u.val % 16) :: t) := rfl
    _ = (readContents t).map (push u) := by
        rw [readString_hex_succ 0 2 (hexValue_hexDigit (by omega)),
          readString_hex_succ _ 1 (hexValue_hexDigit (by omega)),
          readString_hex_succ _ 0 (hexValue_hexDigit (by omega)),
          readString_hex_zero _ (hexValue_hexDigit (by omega)), hvalue, hunit]

theorem readContents_shortEscape {u e : CodeUnit} (h : shortEscape u = some e) (t : Text) :
    readContents (backslash :: e :: t) = (readContents t).map (push u) := by
  have hletter : e ≠ 117 ∧ letterValue e = some u := by
    unfold shortEscape at h
    split_ifs at h with h1 h2 h3 h4 h5 h6 h7 <;> cases h <;> subst_vars <;> decide
  calc readContents (backslash :: e :: t)
      = readString .escaped (e :: t) := rfl
    _ = (readContents t).map (push u) := by
        rw [readString, if_neg hletter.1, hletter.2, Option.bind_some]

/-- A unit that JSON gives no meaning stands for itself. -/
theorem readContents_self {u : CodeUnit} (hquote : u ≠ quote) (hbackslash : u ≠ backslash)
    (hprintable : 32 ≤ u.val) (t : Text) :
    readContents (u :: t) = (readContents t).map (push u) := by
  rw [readContents, readString, if_neg hquote, if_neg hbackslash,
    if_neg (Nat.not_lt.mpr hprintable)]

theorem readContents_unit (style : EscapeStyle) (u : CodeUnit) (t : Text) :
    readContents (style.unit u ++ t) = (readContents t).map (push u) := by
  unfold EscapeStyle.unit
  cases hshort : shortEscape u with
  | some e => exact readContents_shortEscape hshort t
  | none =>
      by_cases hplain : style.plain u = true
      · simp only [if_pos hplain]
        have hquote : u ≠ quote := fun h => by simp [shortEscape, h] at hshort
        have hbackslash : u ≠ backslash := fun h => by
          simp [shortEscape, h, backslash, quote] at hshort
        have hprintable : 32 ≤ u.val := by
          cases style <;>
            simp only [EscapeStyle.plain, Bool.and_eq_true, decide_eq_true_eq] at hplain
          · exact hplain.1
          · exact hplain.1.1
        exact readContents_self hquote hbackslash hprintable t
      · simp only [if_neg hplain]
        exact readContents_hexEscape u t

/-- A surrogate stands for itself. -/
theorem readContents_surrogate {u : CodeUnit} (h : 0xD800 ≤ u.val) (t : Text) :
    readContents (u :: t) = (readContents t).map (push u) := by
  refine readContents_self (fun hq => ?_) (fun hb => ?_) (by omega) t
  · rw [hq] at h
    exact absurd h (by decide)
  · rw [hb] at h
    exact absurd h (by decide)

/-- What an encoder writes between quotes reads back. -/
theorem readContents_escape (style : EscapeStyle) (s t : Text) :
    readContents (escape style s ++ quote :: t) = some (s, t) := by
  fun_induction escape style s with
  | case1 => exact readContents_quote t
  | case2 u =>
      rw [readContents_unit, readContents_quote]
      rfl
  | case3 u v rest hpair ih =>
      have hu : 0xD800 ≤ u.val := by
        have := hpair.2.1
        simp only [isHigh, Bool.and_eq_true, decide_eq_true_eq] at this
        exact this.1
      have hv : 0xD800 ≤ v.val := by
        have := hpair.2.2
        simp only [isLow, Bool.and_eq_true, decide_eq_true_eq] at this
        omega
      rw [List.cons_append, List.cons_append, readContents_surrogate hu, readContents_surrogate hv,
        ih]
      rfl
  | case4 u v rest hnot ih =>
      rw [List.append_assoc, readContents_unit, ih]
      rfl

/-- Different strings are written differently. -/
theorem escape_injective (style : EscapeStyle) : Function.Injective (escape style) := by
  intro s s' h
  have hread := readContents_escape style s []
  rw [h, readContents_escape] at hread
  exact (Prod.mk.inj (Option.some.inj hread)).1.symm

/-! ## Numbers -/

/-- Run the grammar of a number over a text. -/
def runNumber (s : NumberState) (t : Text) : Option NumberState :=
  t.foldlM NumberState.step s

/-- The digits of a number, with 0 written as one digit. -/
def digits (n : Nat) : Text :=
  (Nat.toDigits 10 n).map fun c => Fin.ofNat 65536 c.toNat

/-- A digit as a unit. -/
def digitUnit (d : Nat) : CodeUnit :=
  Fin.ofNat 65536 (48 + d)

theorem digits_of_lt {n : Nat} (h : n < 10) : digits n = [digitUnit n] := by
  rw [digits, Nat.toDigits_of_lt_base h]
  interval_cases n <;> rfl

theorem digits_of_le {n : Nat} (h : 10 ≤ n) :
    digits n = digits (n / 10) ++ [digitUnit (n % 10)] := by
  have hlast : digits (n % 10) = [digitUnit (n % 10)] := digits_of_lt (Nat.mod_lt n (by decide))
  rw [digits, Nat.toDigits_of_base_le (by decide) h, List.map_append, ← hlast, digits, digits,
    Nat.toDigits_of_lt_base (Nat.mod_lt n (by decide))]

theorem digitUnit_val {d : Nat} (h : d < 10) : (digitUnit d).val = 48 + d :=
  Nat.mod_eq_of_lt (by omega)

theorem isDigit_digitUnit {d : Nat} (h : d < 10) : isDigit (digitUnit d) = true := by
  simp only [isDigit, digitUnit_val h, Bool.and_eq_true, decide_eq_true_eq]
  omega

/-- Digits are written from the left: a property of the number with one digit more follows from
that of the number before it. -/
theorem digits_induction {P : Nat → Text → Prop} (one : ∀ d < 10, P d [digitUnit d])
    (more : ∀ n t d, 0 < n → d < 10 → P n t → P (10 * n + d) (t ++ [digitUnit d])) (n : Nat) :
    P n (digits n) := by
  induction n using Nat.strong_induction_on with
  | _ n ih =>
      by_cases hn : n < 10
      · rw [digits_of_lt hn]
        exact one n hn
      · have hmore := more (n / 10) (digits (n / 10)) (n % 10) (by omega) (by omega)
          (ih (n / 10) (by omega))
        rwa [Nat.div_add_mod, ← digits_of_le (by omega)] at hmore

/-- A digit that may come first. -/
theorem step_digit {s : NumberState} (hs : s = .start ∨ s = .minus) {d : Nat} (hd : d < 10) :
    s.step (digitUnit d) = some (if d = 0 then .zero else .int) := by
  rcases hs with rfl | rfl <;> interval_cases d <;> decide

theorem step_int {d : Nat} (hd : d < 10) : NumberState.int.step (digitUnit d) = some .int := by
  simp [NumberState.step, isDigit_digitUnit hd]

theorem runNumber_digits {s : NumberState} (hs : s = .start ∨ s = .minus) (n : Nat) :
    runNumber s (digits n) = some (if n = 0 then .zero else .int) := by
  refine digits_induction (P := fun n t => runNumber s t = some (if n = 0 then .zero else .int))
    (fun d hd => ?_) (fun n t d hn hd ih => ?_) n
  · simp [runNumber, step_digit hs hd]
  · have hsum : 10 * n + d ≠ 0 := by omega
    simp only [runNumber, List.foldlM_append] at ih ⊢
    simp [ih, step_int hd, Nat.pos_iff_ne_zero.mp hn]

/-- The digits of an integer, after a minus if it is negative. -/
def decimalText (i : Int) : Text :=
  if i < 0 then 45 :: digits i.natAbs else digits i.natAbs

/-- A decimal text is a number. -/
theorem runNumber_decimal (i : Int) :
    (runNumber .start (decimalText i)).any NumberState.final = true := by
  have hfinal : ∀ n : Nat, (some (if n = 0 then NumberState.zero else .int)).any
      NumberState.final = true := fun n => by
    by_cases hn : n = 0 <;> simp [hn, NumberState.final]
  unfold decimalText
  split
  · have hminus : runNumber .start (45 :: digits i.natAbs) = runNumber .minus (digits i.natAbs) :=
      rfl
    rw [hminus, runNumber_digits (Or.inr rfl)]
    exact hfinal _
  · rw [runNumber_digits (Or.inl rfl)]
    exact hfinal _

/-- An integer as a number. -/
def decimal (i : Int) : NumberText where
  text := decimalText i
  valid := runNumber_decimal i

/-- The value of some digits. -/
def digitsValue (t : Text) : Nat :=
  t.foldl (fun n u => 10 * n + (u.val - 48)) 0

theorem digitsValue_digits (n : Nat) : digitsValue (digits n) = n := by
  refine digits_induction (P := fun n t => digitsValue t = n) (fun d hd => ?_)
    (fun n t d _ hd ih => ?_) n
  · simp [digitsValue, digitUnit_val hd]
  · simp only [digitsValue, List.foldl_append] at ih ⊢
    simp [ih, digitUnit_val hd]

theorem all_isDigit_digits (n : Nat) : (digits n).all isDigit = true := by
  refine digits_induction (P := fun _ t => t.all isDigit = true) (fun d hd => ?_)
    (fun n t d _ hd ih => ?_) n
  · simp [isDigit_digitUnit hd]
  · simp [ih, isDigit_digitUnit hd]

/-- The integer that a text without fraction and exponent spells. -/
def integerOf (t : Text) : Option Int :=
  match t with
  | [] => none
  | u :: ds =>
      if u = 45 then if ds.all isDigit then some (-(digitsValue ds : Int)) else none
      else if (u :: ds).all isDigit then some (digitsValue (u :: ds)) else none

theorem digits_ne_nil (n : Nat) : digits n ≠ [] := by
  simp [digits, Nat.toDigits_ne_nil]

/-- A decimal text spells its integer. -/
theorem integerOf_decimal (i : Int) : integerOf (decimalText i) = some i := by
  unfold decimalText
  split
  · next hneg =>
    simp only [integerOf, if_true, all_isDigit_digits, digitsValue_digits]
    congr 1
    omega
  · next hneg =>
    have hall := all_isDigit_digits i.natAbs
    have hvalue := digitsValue_digits i.natAbs
    cases hdigits : digits i.natAbs with
    | nil => exact absurd hdigits (digits_ne_nil _)
    | cons u ds =>
        rw [hdigits] at hall hvalue
        have hdigit : isDigit u = true := by
          rw [List.all_cons, Bool.and_eq_true] at hall
          exact hall.1
        have hu : u ≠ 45 := by
          rintro rfl
          exact absurd hdigit (by decide)
        simp only [integerOf, if_neg hu, hall, if_true, hvalue]
        congr 1
        omega

/-- Read a number as far as it goes. -/
def readNumber : NumberState → Text → Option (Text × Text)
  | s, [] => if s.final then some ([], []) else none
  | s, u :: t =>
      match s.step u with
      | some s' => (readNumber s' t).map (push u)
      | none => if s.final then some ([], u :: t) else none

/-- What follows a value does not go on with a number. -/
def Stops (t : Text) : Prop :=
  ∀ u ∈ t.head?, u = 44 ∨ u = 93 ∨ u = 125

theorem step_of_stops {u : CodeUnit} (h : u = 44 ∨ u = 93 ∨ u = 125) (s : NumberState) :
    s.step u = none := by
  rcases h with rfl | rfl | rfl <;> cases s <;> decide

theorem readNumber_append {s : NumberState} {n t : Text}
    (hvalid : (runNumber s n).any NumberState.final = true) (ht : Stops t) :
    readNumber s (n ++ t) = some (n, t) := by
  induction n generalizing s with
  | nil =>
      have hfinal : s.final = true := by simpa [runNumber] using hvalid
      cases t with
      | nil => simp [readNumber, hfinal]
      | cons u t =>
          have hstep : s.step u = none := step_of_stops (ht u rfl) s
          simp [readNumber, hstep, hfinal]
  | cons u n ih =>
      rw [runNumber, List.foldlM_cons] at hvalid
      cases hstep : s.step u with
      | none =>
          rw [hstep] at hvalid
          cases hvalid
      | some s' =>
          rw [hstep] at hvalid
          rw [List.cons_append, readNumber, hstep]
          simp only [ih hvalid, Option.map_some]
          rfl

/-! ## Documents -/

/-- The fields of an object as a list. -/
def Json.fieldList : {k : Kind} → Json k → List (Text × Json .value)
  | _, .field key value rest => (key, value) :: rest.fieldList
  | _, _ => []

/-- The object with these fields. -/
def Json.ofFieldList : List (Text × Json .value) → Json .fields
  | [] => .noFields
  | (key, value) :: rest => .field key value (Json.ofFieldList rest)

theorem Json.ofFieldList_fieldList (fields : Json .fields) :
    Json.ofFieldList fields.fieldList = fields := by
  cases fields with
  | noFields => rfl
  | field key value rest =>
      rw [Json.fieldList, Json.ofFieldList, Json.ofFieldList_fieldList rest]

/-- What differs between readers: the integer a language keeps, and the object that fields read
one after the other make. -/
structure Reader where
  integer : Int → Int
  object : Json .fields → Json .fields

/-- The number a text stands for; a fraction or an exponent is kept as it is written. -/
def Reader.number (r : Reader) (n : NumberText) : NumberText :=
  match integerOf n.text with
  | some i => decimal (r.integer i)
  | none => n

/-- Skip white space. -/
def skipSpace (t : Text) : Text :=
  t.dropWhile isSpace

/-- Go past a word. -/
def readWord : Text → Text → Option Text
  | [], t => some t
  | w :: ws, u :: t => if w = u then readWord ws t else none
  | _ :: _, [] => none

/-- Read a value that is not an array or an object. -/
def readScalar (r : Reader) (u : CodeUnit) (t : Text) : Option (Json .value × Text) :=
  if u = quote then (readContents t).map fun s => (.text s.1, s.2)
  else if u = 110 then (readWord (latin "ull") t).map fun rest => (.null, rest)
  else if u = 116 then (readWord (latin "rue") t).map fun rest => (.bool true, rest)
  else if u = 102 then (readWord (latin "alse") t).map fun rest => (.bool false, rest)
  else (readNumber .start (u :: t)).bind fun n =>
    if h : (runNumber .start n.1).any NumberState.final = true then
      some (.number (r.number ⟨n.1, h⟩), n.2)
    else none

/-- Read a value, or the items of an array or the fields of an object up to the bracket that
closes it; there is at least one of them. -/
def read (r : Reader) : Nat → (k : Kind) → Text → Option (Json k × Text)
  | 0, _, _ => none
  | fuel + 1, .value, t =>
      match skipSpace t with
      | [] => none
      | u :: t =>
          if u = 91 then
            if (skipSpace t).head? = some 93 then some (.array .noItems, (skipSpace t).tail)
            else (read r fuel .items t).map fun items => (.array items.1, items.2)
          else if u = 123 then
            if (skipSpace t).head? = some 125 then
              some (.object (r.object .noFields), (skipSpace t).tail)
            else (read r fuel .fields t).map fun fields =>
              (.object (r.object fields.1), fields.2)
          else readScalar r u t
  | fuel + 1, .items, t =>
      (read r fuel .value t).bind fun v =>
        match skipSpace v.2 with
        | [] => none
        | u :: t =>
            if u = 44 then (read r fuel .items t).map fun rest => (.item v.1 rest.1, rest.2)
            else if u = 93 then some (.item v.1 .noItems, t)
            else none
  | fuel + 1, .fields, t =>
      match skipSpace t with
      | [] => none
      | q :: t =>
          if q = quote then
            (readContents t).bind fun key =>
              match skipSpace key.2 with
              | [] => none
              | c :: t =>
                  if c = 58 then
                    (read r fuel .value t).bind fun v =>
                      match skipSpace v.2 with
                      | [] => none
                      | u :: t =>
                          if u = 44 then
                            (read r fuel .fields t).map fun rest =>
                              (.field key.1 v.1 rest.1, rest.2)
                          else if u = 125 then some (.field key.1 v.1 .noFields, t)
                          else none
                  else none
          else none

/-- Read a whole text. -/
def parse (r : Reader) (t : Text) : Option (Json .value) :=
  (read r (2 * t.length + 1) .value t).bind fun v =>
    if skipSpace v.2 = [] then some v.1 else none

/-! ## Reading back what was written -/

/-- A document that the reader keeps as it is. -/
def Json.Kept (r : Reader) : {k : Kind} → Json k → Prop
  | _, .null | _, .bool _ | _, .text _ | _, .noItems | _, .noFields => True
  | _, .number n => r.number n = n
  | _, .array items => items.Kept r
  | _, .object fields => r.object fields = fields ∧ fields.Kept r
  | _, .item value rest => value.Kept r ∧ rest.Kept r
  | _, .field _ value rest => value.Kept r ∧ rest.Kept r
  | _, .notFinite | _, .hidden | _, .failing | _, .absent => False

theorem Json.Kept.isAbsent {r : Reader} {v : Json .value} (h : v.Kept r) : v.isAbsent = false := by
  cases v with
  | absent => exact absurd h (fun h => h)
  | _ => rfl

theorem skipSpace_cons {u : CodeUnit} (h : isSpace u = false) (t : Text) :
    skipSpace (u :: t) = u :: t := by
  simp [skipSpace, h]

theorem readWord_append (w t : Text) : readWord w (w ++ t) = some t := by
  induction w with
  | nil => rfl
  | cons u w ih => simpa [readWord] using ih

/-- A number starts with a minus or a digit. -/
theorem NumberText.head (n : NumberText) :
    ∃ u t, n.text = u :: t ∧ (u = 45 ∨ isDigit u = true) := by
  have hvalid := n.valid
  cases htext : n.text with
  | nil =>
      rw [htext] at hvalid
      cases hvalid
  | cons u t =>
      refine ⟨u, t, rfl, ?_⟩
      rw [htext, List.foldlM_cons] at hvalid
      by_cases hminus : u = 45
      · exact Or.inl hminus
      · by_cases hdigit : isDigit u = true
        · exact Or.inr hdigit
        · have hzero : u ≠ 48 := fun h => hdigit (h ▸ by decide)
          simp [NumberState.step, hminus, hdigit, hzero] at hvalid

theorem isSpace_of_numeric {u : CodeUnit} (h : u = 45 ∨ isDigit u = true) : isSpace u = false := by
  simp only [isSpace, decide_eq_false_iff_not]
  rintro (rfl | rfl | rfl | rfl) <;> exact absurd h (by decide)

/-- What is to be shown of a document: its text reads back, whatever follows it. -/
def ReadsBack (r : Reader) (style : EscapeStyle) : {k : Kind} → Json k → Prop
  | .value, v => ∀ fuel t, 2 * (v.render style).length + 1 ≤ fuel → Stops t →
      read r fuel .value (v.render style ++ t) = some (v, t)
  | .items, items => items ≠ .noItems → ∀ fuel t,
      2 * (join (items.render style)).length + 2 ≤ fuel →
      read r fuel .items (join (items.render style) ++ 93 :: t) = some (items, t)
  | .fields, fields => fields ≠ .noFields → ∀ fuel t,
      2 * (join (fields.render style)).length + 2 ≤ fuel →
      read r fuel .fields (join (fields.render style) ++ 125 :: t) = some (fields, t)

/-- A kept value starts with a unit that is neither space nor a closing bracket. -/
theorem Json.Kept.head {r : Reader} (style : EscapeStyle) {v : Json .value} (h : v.Kept r) :
    ∃ u t, v.render style = u :: t ∧ isSpace u = false ∧ u ≠ 93 := by
  cases v with
  | null => exact ⟨110, latin "ull", rfl, by decide, by decide⟩
  | bool b =>
      cases b with
      | true => exact ⟨116, latin "rue", rfl, by decide, by decide⟩
      | false => exact ⟨102, latin "alse", rfl, by decide, by decide⟩
  | number n =>
      rcases n.head with ⟨u, t, htext, hu⟩
      refine ⟨u, t, htext, isSpace_of_numeric hu, ?_⟩
      rintro rfl
      exact absurd hu (by decide)
  | text t => exact ⟨quote, _, rfl, by decide, by decide⟩
  | array items => exact ⟨91, _, rfl, by decide, by decide⟩
  | object fields => exact ⟨123, _, rfl, by decide, by decide⟩
  | notFinite | hidden | failing | absent => exact absurd h fun h => h

/-! ### One step of the reader -/

section Steps

variable {r : Reader} {fuel : Nat}

theorem read_scalar {u : CodeUnit} (hspace : isSpace u = false) (harray : u ≠ 91)
    (hobject : u ≠ 123) (t : Text) :
    read r (fuel + 1) .value (u :: t) = readScalar r u t := by
  simp only [read, skipSpace_cons hspace, if_neg harray, if_neg hobject]

theorem read_noItems (t : Text) :
    read r (fuel + 1) .value (91 :: 93 :: t) = some (.array .noItems, t) :=
  rfl

theorem read_array {t : Text} (ht : (skipSpace t).head? ≠ some 93) :
    read r (fuel + 1) .value (91 :: t) =
      (read r fuel .items t).map fun items => (.array items.1, items.2) := by
  have hspace : skipSpace (91 :: t) = 91 :: t := skipSpace_cons (by decide) t
  simp only [read, hspace, if_true, if_neg ht]

theorem read_noFields (t : Text) :
    read r (fuel + 1) .value (123 :: 125 :: t) = some (.object (r.object .noFields), t) :=
  rfl

theorem read_object {t : Text} (ht : (skipSpace t).head? ≠ some 125) :
    read r (fuel + 1) .value (123 :: t) =
      (read r fuel .fields t).map fun fields => (.object (r.object fields.1), fields.2) := by
  have hspace : skipSpace (123 :: t) = 123 :: t := skipSpace_cons (by decide) t
  have harray : (123 : CodeUnit) ≠ 91 := by decide
  simp only [read, hspace, if_neg harray, if_true, if_neg ht]

theorem read_lastItem {v : Json .value} {s t : Text}
    (hv : read r fuel .value s = some (v, 93 :: t)) :
    read r (fuel + 1) .items s = some (.item v .noItems, t) := by
  have hspace : skipSpace (93 :: t) = 93 :: t := skipSpace_cons (by decide) t
  have hcomma : (93 : CodeUnit) ≠ 44 := by decide
  simp only [read, hv, Option.bind_some, hspace, if_neg hcomma, if_true]

theorem read_item {v : Json .value} {s t t' : Text} {rest : Json .items}
    (hv : read r fuel .value s = some (v, 44 :: t))
    (hrest : read r fuel .items t = some (rest, t')) :
    read r (fuel + 1) .items s = some (.item v rest, t') := by
  have hspace : skipSpace (44 :: t) = 44 :: t := skipSpace_cons (by decide) t
  simp only [read, hv, Option.bind_some, hspace, if_true, hrest, Option.map_some]

/-- A field up to what follows its value. -/
theorem read_key (style : EscapeStyle) (key t : Text) :
    read r (fuel + 1) .fields (quoted style key ++ 58 :: t) =
      (read r fuel .value t).bind fun v =>
        match skipSpace v.2 with
        | [] => none
        | u :: t =>
            if u = 44 then
              (read r fuel .fields t).map fun rest => (.field key v.1 rest.1, rest.2)
            else if u = 125 then some (.field key v.1 .noFields, t)
            else none := by
  have hquoted : quoted style key ++ 58 :: t = quote :: (escape style key ++ quote :: 58 :: t) := by
    simp [quoted]
  have hquote : skipSpace (quote :: (escape style key ++ quote :: 58 :: t)) =
      quote :: (escape style key ++ quote :: 58 :: t) := skipSpace_cons (by decide) _
  have hcolon : skipSpace (58 :: t) = 58 :: t := skipSpace_cons (by decide) t
  simp only [hquoted, read, hquote, if_true, readContents_escape, Option.bind_some, hcolon]

theorem read_lastField (style : EscapeStyle) {key s t : Text} {v : Json .value}
    (hv : read r fuel .value s = some (v, 125 :: t)) :
    read r (fuel + 1) .fields (quoted style key ++ 58 :: s) = some (.field key v .noFields, t) := by
  have hspace : skipSpace (125 :: t) = 125 :: t := skipSpace_cons (by decide) t
  have hcomma : (125 : CodeUnit) ≠ 44 := by decide
  simp only [read_key, hv, Option.bind_some, hspace, if_neg hcomma, if_true]

theorem read_field (style : EscapeStyle) {key s t t' : Text} {v : Json .value}
    {rest : Json .fields} (hv : read r fuel .value s = some (v, 44 :: t))
    (hrest : read r fuel .fields t = some (rest, t')) :
    read r (fuel + 1) .fields (quoted style key ++ 58 :: s) = some (.field key v rest, t') := by
  have hspace : skipSpace (44 :: t) = 44 :: t := skipSpace_cons (by decide) t
  simp only [read_key, hv, Option.bind_some, hspace, if_true, hrest, Option.map_some]

theorem readScalar_number (n : NumberText) {u : CodeUnit} {s t : Text} (htext : n.text = u :: s)
    (hhead : u = 45 ∨ isDigit u = true) (ht : Stops t) :
    readScalar r u (s ++ t) = some (.number (r.number n), t) := by
  have hne : u ≠ quote ∧ u ≠ 110 ∧ u ≠ 116 ∧ u ≠ 102 := by
    refine ⟨?_, ?_, ?_, ?_⟩ <;> rintro rfl <;> exact absurd hhead (by decide)
  have hread : readNumber .start (u :: (s ++ t)) = some (n.text, t) := by
    rw [← List.cons_append, ← htext]
    exact readNumber_append n.valid ht
  simp only [readScalar, if_neg hne.1, if_neg hne.2.1, if_neg hne.2.2.1, if_neg hne.2.2.2, hread,
    Option.bind_some]
  exact dif_pos n.valid

end Steps

/-! ### Whole documents -/

theorem stops_cons {u : CodeUnit} (h : u = 44 ∨ u = 93 ∨ u = 125) (t : Text) : Stops (u :: t) := by
  intro v hv
  cases hv
  exact h

section Documents

variable {r : Reader} {style : EscapeStyle}

/-- A value that is read without recursion. -/
theorem readsBack_scalar {v : Json .value} {u : CodeUnit} {w : Text}
    (hrender : v.render style = u :: w) (hspace : isSpace u = false) (harray : u ≠ 91)
    (hobject : u ≠ 123) (hread : ∀ t, Stops t → readScalar r u (w ++ t) = some (v, t)) :
    ReadsBack r style v := by
  intro fuel t hfuel ht
  cases fuel with
  | zero => omega
  | succ fuel => rw [hrender, List.cons_append, read_scalar hspace harray hobject, hread t ht]

theorem readsBack_null : ReadsBack r style .null := by
  refine readsBack_scalar (u := 110) (w := latin "ull") rfl (by decide) (by decide) (by decide)
    fun t _ => ?_
  rw [readScalar, if_neg (by decide), if_pos rfl, readWord_append]
  rfl

theorem readsBack_true : ReadsBack r style (.bool true) := by
  refine readsBack_scalar (u := 116) (w := latin "rue") rfl (by decide) (by decide) (by decide)
    fun t _ => ?_
  rw [readScalar, if_neg (by decide), if_neg (by decide), if_pos rfl, readWord_append]
  rfl

theorem readsBack_false : ReadsBack r style (.bool false) := by
  refine readsBack_scalar (u := 102) (w := latin "alse") rfl (by decide) (by decide) (by decide)
    fun t _ => ?_
  rw [readScalar, if_neg (by decide), if_neg (by decide), if_neg (by decide), if_pos rfl,
    readWord_append]
  rfl

theorem readsBack_number {n : NumberText} (hn : r.number n = n) :
    ReadsBack r style (.number n) := by
  rcases n.head with ⟨u, s, htext, hu⟩
  refine readsBack_scalar htext (isSpace_of_numeric hu) ?_ ?_ fun t ht => ?_
  · rintro rfl
    exact absurd hu (by decide)
  · rintro rfl
    exact absurd hu (by decide)
  · rw [readScalar_number n htext hu ht, hn]

theorem readsBack_text (s : Text) : ReadsBack r style (.text s) := by
  refine readsBack_scalar (u := quote) (w := escape style s ++ [quote]) rfl (by decide)
    (by decide) (by decide) fun t _ => ?_
  rw [List.append_assoc, List.singleton_append, readScalar, if_pos rfl, readContents_escape]
  rfl

/-- The text of some items goes on with neither space nor a closing bracket. -/
theorem head_items {value : Json .value} (h : value.Kept r) (rest : Json .items) (t : Text) :
    (skipSpace (join ((Json.item value rest).render style) ++ t)).head? ≠ some 93 := by
  rcases h.head style with ⟨u, s, hrender, hspace, hbracket⟩
  have hjoin : ∃ s', join ((Json.item value rest).render style) ++ t = u :: s' := by
    show ∃ s', join (value.render style :: rest.render style) ++ t = u :: s'
    rw [hrender]
    cases rest.render style with
    | nil => exact ⟨_, rfl⟩
    | cons v ts => exact ⟨_, rfl⟩
  rcases hjoin with ⟨s', hs'⟩
  rw [hs', skipSpace_cons hspace]
  simpa using hbracket

theorem readsBack_array {items : Json .items} (hkept : items.Kept r)
    (ih : ReadsBack r style items) : ReadsBack r style (Json.array items) := by
  intro fuel t hfuel _
  have hrender : (Json.array items).render style ++ t =
      91 :: (join (items.render style) ++ 93 :: t) := by simp [Json.render]
  have hlength : ((Json.array items).render style).length =
      (join (items.render style)).length + 2 := by simp [Json.render]
  cases fuel with
  | zero => omega
  | succ fuel =>
      rw [hrender]
      cases items with
      | noItems => exact read_noItems t
      | item value rest =>
          rw [read_array (head_items hkept.1 rest _),
            ih (fun h => by cases h) fuel t (by omega)]
          rfl

/-- The text of some fields goes on with a quote. -/
theorem head_fields {key : Text} {value : Json .value} (h : value.isAbsent = false)
    (rest : Json .fields) (t : Text) :
    (skipSpace (join ((Json.field key value rest).render style) ++ t)).head? ≠ some 125 := by
  have hjoin : ∃ s', join ((Json.field key value rest).render style) ++ t = quote :: s' := by
    simp only [Json.render, h, if_neg Bool.false_ne_true]
    cases rest.render style with
    | nil => exact ⟨_, rfl⟩
    | cons v ts => exact ⟨_, rfl⟩
  rcases hjoin with ⟨s', hs'⟩
  rw [hs', skipSpace_cons (by decide), List.head?_cons]
  decide

theorem readsBack_object {fields : Json .fields} (hobject : r.object fields = fields)
    (hkept : fields.Kept r) (ih : ReadsBack r style fields) :
    ReadsBack r style (Json.object fields) := by
  intro fuel t hfuel _
  have hrender : (Json.object fields).render style ++ t =
      123 :: (join (fields.render style) ++ 125 :: t) := by simp [Json.render]
  have hlength : ((Json.object fields).render style).length =
      (join (fields.render style)).length + 2 := by simp [Json.render]
  cases fuel with
  | zero => omega
  | succ fuel =>
      rw [hrender]
      cases fields with
      | noFields =>
          rw [show join (Json.noFields.render style) ++ 125 :: t = 125 :: t from rfl,
            read_noFields, hobject]
      | field key value rest =>
          rw [read_object (head_fields hkept.1.isAbsent rest _),
            ih (fun h => by cases h) fuel t (by omega), Option.map_some, hobject]

theorem readsBack_item {value : Json .value} {rest : Json .items}
    (ihvalue : ReadsBack r style value) (ihrest : ReadsBack r style rest) :
    ReadsBack r style (Json.item value rest) := by
  intro _ fuel t hfuel
  cases fuel with
  | zero => omega
  | succ fuel =>
      cases rest with
      | noItems =>
          have hrender : join ((Json.item value .noItems).render style) = value.render style := rfl
          rw [hrender] at hfuel ⊢
          exact read_lastItem (ihvalue fuel _ (by omega) (stops_cons (by decide) t))
      | item value' rest' =>
          have hrender : join ((Json.item value (.item value' rest')).render style) =
              value.render style ++ 44 :: join ((Json.item value' rest').render style) := rfl
          rw [hrender] at hfuel ⊢
          rw [List.length_append, List.length_cons] at hfuel
          rw [List.append_assoc, List.cons_append]
          exact read_item (ihvalue fuel _ (by omega) (stops_cons (by decide) _))
            (ihrest (fun h => by cases h) fuel t (by omega))

theorem readsBack_field {key : Text} {value : Json .value} {rest : Json .fields}
    (hvalue : value.isAbsent = false) (hrest : rest.Kept r) (ihvalue : ReadsBack r style value)
    (ihrest : ReadsBack r style rest) : ReadsBack r style (Json.field key value rest) := by
  intro _ fuel t hfuel
  have hpiece : (Json.field key value rest).render style =
      (quoted style key ++ 58 :: value.render style) :: rest.render style := by
    simp only [Json.render, hvalue, if_neg Bool.false_ne_true]
  cases fuel with
  | zero => omega
  | succ fuel =>
      cases rest with
      | noFields =>
          have hrender : join ((Json.field key value .noFields).render style) =
              quoted style key ++ 58 :: value.render style := by
            rw [hpiece]
            rfl
          rw [hrender] at hfuel ⊢
          rw [List.length_append, List.length_cons] at hfuel
          rw [List.append_assoc, List.cons_append]
          exact read_lastField style (ihvalue fuel _ (by omega) (stops_cons (by decide) t))
      | field key' value' rest' =>
          have hpiece' : ∃ p ps, (Json.field key' value' rest').render style = p :: ps := by
            simp only [Json.render, hrest.1.isAbsent, if_neg Bool.false_ne_true]
            exact ⟨_, _, rfl⟩
          rcases hpiece' with ⟨p, ps, hps⟩
          have hrender : join ((Json.field key value (.field key' value' rest')).render style) =
              quoted style key ++ 58 :: (value.render style ++
                44 :: join ((Json.field key' value' rest').render style)) := by
            rw [hpiece, hps, join]
            simp
          rw [hrender] at hfuel ⊢
          simp only [List.length_append, List.length_cons] at hfuel
          rw [List.append_assoc, List.cons_append, List.append_assoc, List.cons_append]
          exact read_field style (ihvalue fuel _ (by omega) (stops_cons (by decide) _))
            (ihrest (fun h => by cases h) fuel t (by omega))

theorem readsBack {k : Kind} (v : Json k) (h : v.Kept r) : ReadsBack r style v := by
  induction v with
  | null => exact readsBack_null
  | bool b =>
      cases b with
      | true => exact readsBack_true
      | false => exact readsBack_false
  | number n => exact readsBack_number h
  | text t => exact readsBack_text t
  | array items ih => exact readsBack_array h (ih h)
  | object fields ih => exact readsBack_object h.1 h.2 (ih h.2)
  | notFinite | hidden | failing | absent => exact absurd h fun h => h
  | noItems | noFields => exact fun h => absurd rfl h
  | item value rest ihvalue ihrest => exact readsBack_item (ihvalue h.1) (ihrest h.2)
  | field key value rest ihvalue ihrest =>
      exact readsBack_field h.1.isAbsent h.2 (ihvalue h.1) (ihrest h.2)

/-- A document that the reader keeps as it is reads back. -/
theorem parse_render {v : Json .value} (h : v.Kept r) : parse r (v.render style) = some v := by
  have hread : read r (2 * (v.render style).length + 1) .value (v.render style ++ []) =
      some (v, []) := readsBack v h _ [] (Nat.le_refl _) (fun u hu => by cases hu)
  rw [List.append_nil] at hread
  rw [parse, hread]
  rfl

end Documents

end JsonText
