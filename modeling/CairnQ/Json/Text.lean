import Mathlib.Data.Fin.Basic
import Mathlib.Data.List.Basic
import Mathlib.Tactic.IntervalCases

/-!
# Text in JSON

Strings as lists of UTF-16 code units, the two ways encoders write them between quotes,
and the automaton by which a strict reader checks the escapes of a JSON text: a unit
escaped as {lit}`\u0000` is refused, and so is an escaped surrogate without its partner
right after it.

Main results:

- Theorem `scan_escape`: reading an escaped string back is stepping through its units.
- Theorem `scan_quoted`: a quoted string passes exactly when it is {lit}`Storable`.
-/

namespace JsonText

/-- A UTF-16 code unit. -/
abbrev CodeUnit := Fin 65536

instance neZero_codeUnit : NeZero 65536 := ⟨by decide⟩

/-- A string, or a JSON text, as its code units. -/
abbrev Text := List CodeUnit

/-- The units of a string of Latin characters. -/
def latin (s : String) : Text :=
  s.toList.map fun c => Fin.ofNat 65536 c.toNat

/-! ## Units -/

/-- The double quote. -/
def quote : CodeUnit := 34

/-- The reverse solidus. -/
def backslash : CodeUnit := 92

/-- A leading surrogate. -/
def isHigh (u : CodeUnit) : Bool :=
  decide (0xD800 ≤ u.val) && decide (u.val ≤ 0xDBFF)

/-- A trailing surrogate. -/
def isLow (u : CodeUnit) : Bool :=
  decide (0xDC00 ≤ u.val) && decide (u.val ≤ 0xDFFF)

/-- Whether a leading surrogate waits for its partner, after one more unit: none when the unit
is null, or not the partner that is waited for, or a partner nobody waits for. -/
def nextPending (pending : Bool) (u : CodeUnit) : Option Bool :=
  if u = 0 then none
  else if isLow u then if pending then some false else none
  else if pending then none
  else some (isHigh u)

/-- A string without null units whose surrogates come in pairs. -/
def Storable (t : Text) : Bool :=
  decide (t.foldlM nextPending false = some false)

/-! ## Escapes -/

/-- A hexadecimal digit. -/
def hexDigit (n : Nat) : CodeUnit :=
  if n < 10 then Fin.ofNat 65536 (48 + n) else Fin.ofNat 65536 (87 + n)

/-- The value of a hexadecimal digit in either case. -/
def hexValue (u : CodeUnit) : Option Nat :=
  if 48 ≤ u.val ∧ u.val ≤ 57 then some (u.val - 48)
  else if 97 ≤ u.val ∧ u.val ≤ 102 then some (u.val - 87)
  else if 65 ≤ u.val ∧ u.val ≤ 70 then some (u.val - 55)
  else none

/-- The letter of a two-character escape. -/
def shortEscape (u : CodeUnit) : Option CodeUnit :=
  if u = quote then some quote
  else if u = backslash then some backslash
  else if u = 8 then some 98
  else if u = 12 then some 102
  else if u = 10 then some 110
  else if u = 13 then some 114
  else if u = 9 then some 116
  else none

/-- The six-character escape of a unit. -/
def hexEscape (u : CodeUnit) : Text :=
  [backslash, 117, hexDigit (u.val / 4096), hexDigit (u.val / 256 % 16),
    hexDigit (u.val / 16 % 16), hexDigit (u.val % 16)]

/-- Which units an encoder leaves as they are. -/
inductive EscapeStyle
  /-- printable ASCII only -/
  | ascii
  /-- all but control characters and lone surrogates -/
  | minimal
deriving DecidableEq, Repr

/-- A unit that needs no escape of six characters. -/
def EscapeStyle.plain (style : EscapeStyle) (u : CodeUnit) : Bool :=
  match style with
  | .ascii => decide (32 ≤ u.val) && decide (u.val ≤ 126)
  | .minimal => decide (32 ≤ u.val) && !isHigh u && !isLow u

/-- One unit that is not half of a pair left as it is. -/
def EscapeStyle.unit (style : EscapeStyle) (u : CodeUnit) : Text :=
  match shortEscape u with
  | some e => [backslash, e]
  | none => if style.plain u then [u] else hexEscape u

/-- The contents of a string between its quotes. -/
def escape (style : EscapeStyle) : Text → Text
  | [] => []
  | [u] => style.unit u
  | u :: v :: rest =>
      if style = .minimal ∧ isHigh u = true ∧ isLow v = true then u :: v :: escape style rest
      else style.unit u ++ escape style (v :: rest)

/-- A string with its quotes. -/
def quoted (style : EscapeStyle) (t : Text) : Text :=
  quote :: escape style t ++ [quote]

/-! ## The reader -/

/-- Where a reader stands; {lit}`pending` as in {name}`nextPending`. -/
inductive ScanState
  | outside
  | inside (pending : Bool)
  | escaping (pending : Bool)
  | hex (pending : Bool) (value left : Nat)
deriving DecidableEq, Repr

/-- Read one unit. -/
def ScanState.step : ScanState → CodeUnit → Option ScanState
  | .outside, u => some (if u = quote then .inside false else .outside)
  | .inside pending, u =>
      if u = backslash then some (.escaping pending)
      else if pending then none
      else some (if u = quote then .outside else .inside false)
  | .escaping pending, u =>
      if u = 117 then some (.hex pending 0 3)
      else if pending then none
      else some (.inside false)
  | .hex pending value left, u =>
      (hexValue u).bind fun digit =>
        match left with
        | 0 => (nextPending pending (Fin.ofNat 65536 (16 * value + digit))).map .inside
        | left + 1 => some (.hex pending (16 * value + digit) left)

/-- Read a text. -/
def scan (s : ScanState) (t : Text) : Option ScanState :=
  t.foldlM ScanState.step s

@[simp]
theorem scan_nil (s : ScanState) : scan s [] = some s :=
  rfl

@[simp]
theorem scan_cons (s : ScanState) (u : CodeUnit) (t : Text) :
    scan s (u :: t) = (s.step u).bind fun s' => scan s' t :=
  rfl

theorem scan_append (s : ScanState) (t t' : Text) :
    scan s (t ++ t') = (scan s t).bind fun s' => scan s' t' :=
  List.foldlM_append

/-! ## Reading back what was written -/

theorem hexValue_hexDigit {n : Nat} (h : n < 16) : hexValue (hexDigit n) = some n := by
  interval_cases n <;> rfl

/-- Surrogates are neither null nor a character that JSON gives a meaning. -/
theorem not_surrogate_of_lt {u : CodeUnit} (h : u.val < 0xD800) :
    isHigh u = false ∧ isLow u = false := by
  simp only [isHigh, isLow, Bool.and_eq_false_iff, decide_eq_false_iff_not]
  omega

theorem nextPending_of_plain {u : CodeUnit} (hzero : u ≠ 0) (hhigh : isHigh u = false)
    (hlow : isLow u = false) (pending : Bool) :
    nextPending pending u = if pending then none else some false := by
  simp [nextPending, hzero, hhigh, hlow]

/-- The six-character escape reads back as its unit. -/
theorem scan_hexEscape (pending : Bool) (u : CodeUnit) :
    scan (.inside pending) (hexEscape u) = (nextPending pending u).map .inside := by
  have hu : u.val < 65536 := u.isLt
  have hvalue : 16 * (16 * (16 * (16 * 0 + u.val / 4096) + u.val / 256 % 16) +
      u.val / 16 % 16) + u.val % 16 = u.val := by omega
  have hunit : Fin.ofNat 65536 u.val = u := Fin.ext (Nat.mod_eq_of_lt hu)
  have h0 := hexValue_hexDigit (n := u.val / 4096) (by omega)
  have h1 := hexValue_hexDigit (n := u.val / 256 % 16) (by omega)
  have h2 := hexValue_hexDigit (n := u.val / 16 % 16) (by omega)
  have h3 := hexValue_hexDigit (n := u.val % 16) (by omega)
  have hletter : (117 : CodeUnit) ≠ backslash := by decide
  simp only [hexEscape, scan_cons, scan_nil, ScanState.step, h0, h1, h2, h3, hvalue, hunit,
    if_true, Option.bind_some, Option.bind_fun_some]

/-- A two-character escape reads back as its unit. -/
theorem scan_shortEscape (pending : Bool) {u e : CodeUnit} (h : shortEscape u = some e) :
    scan (.inside pending) [backslash, e] = (nextPending pending u).map .inside := by
  have hunit : u.val < 0xD800 ∧ u ≠ 0 ∧ e ≠ 117 := by
    unfold shortEscape at h
    split_ifs at h with h1 h2 h3 h4 h5 h6 h7 <;> cases h <;> subst_vars <;> decide
  rcases not_surrogate_of_lt hunit.1 with ⟨hhigh, hlow⟩
  rw [nextPending_of_plain hunit.2.1 hhigh hlow]
  cases pending <;> simp [scan, ScanState.step, hunit.2.2]

/-- A unit left as it is reads back as itself. -/
theorem scan_plain (pending : Bool) {style : EscapeStyle} {u : CodeUnit}
    (hshort : shortEscape u = none) (hplain : style.plain u = true) :
    scan (.inside pending) [u] = (nextPending pending u).map .inside := by
  have hunit : isHigh u = false ∧ isLow u = false ∧ u ≠ 0 := by
    cases style with
    | ascii =>
        simp only [EscapeStyle.plain, Bool.and_eq_true, decide_eq_true_eq] at hplain
        have hnot := not_surrogate_of_lt (u := u) (by omega)
        exact ⟨hnot.1, hnot.2, fun h => by simp [h] at hplain⟩
    | minimal =>
        simp only [EscapeStyle.plain, Bool.and_eq_true, decide_eq_true_eq, Bool.not_eq_true']
          at hplain
        exact ⟨hplain.1.2, hplain.2, fun h => by simp [h] at hplain⟩
  have hquote : u ≠ quote := fun h => by simp [shortEscape, h] at hshort
  have hbackslash : u ≠ backslash := fun h => by simp [shortEscape, h, backslash, quote] at hshort
  rw [nextPending_of_plain hunit.2.2 hunit.1 hunit.2.1]
  cases pending <;> simp [scan, ScanState.step, hquote, hbackslash]

theorem scan_unit (style : EscapeStyle) (pending : Bool) (u : CodeUnit) :
    scan (.inside pending) (style.unit u) = (nextPending pending u).map .inside := by
  unfold EscapeStyle.unit
  cases hshort : shortEscape u with
  | some e => exact scan_shortEscape pending hshort
  | none =>
      by_cases hplain : style.plain u = true
      · simp only [if_pos hplain]
        exact scan_plain pending hshort hplain
      · simp only [if_neg hplain]
        exact scan_hexEscape pending u

/-- A pair of surrogates left as it is passes, unless a leading one waits already. -/
theorem scan_pair (pending : Bool) {u v : CodeUnit} (hu : isHigh u = true) (hv : isLow v = true) :
    scan (.inside pending) [u, v] = ([u, v].foldlM nextPending pending).map .inside := by
  simp only [isHigh, isLow, Bool.and_eq_true, decide_eq_true_eq] at hu hv
  have huquote : u ≠ quote := fun h => by simp [h, quote] at hu
  have hubackslash : u ≠ backslash := fun h => by simp [h, backslash] at hu
  have huzero : u ≠ 0 := fun h => by simp [h] at hu
  have hvquote : v ≠ quote := fun h => by simp [h, quote] at hv
  have hvbackslash : v ≠ backslash := fun h => by simp [h, backslash] at hv
  have hvzero : v ≠ 0 := fun h => by simp [h] at hv
  have hulow : isLow u = false := by
    simp only [isLow, Bool.and_eq_false_iff, decide_eq_false_iff_not]
    omega
  have huhigh : isHigh u = true := by simp [isHigh, hu]
  have hvlow : isLow v = true := by simp [isLow, hv]
  cases pending <;>
    simp [scan, ScanState.step, nextPending, huquote, hubackslash, huzero, hvquote, hvbackslash,
      hvzero, hulow, huhigh, hvlow]

/-- Reading an escaped string back is stepping through its units. -/
theorem scan_escape (style : EscapeStyle) (pending : Bool) (t : Text) :
    scan (.inside pending) (escape style t) = (t.foldlM nextPending pending).map .inside := by
  fun_induction escape style t generalizing pending with
  | case1 => rfl
  | case2 u => simp [scan_unit]
  | case3 u v rest hpair ih =>
      show scan (.inside pending) ([u, v] ++ escape style rest) =
        ((([u, v] ++ rest).foldlM nextPending pending).map .inside)
      rw [scan_append, scan_pair pending hpair.2.1 hpair.2.2, List.foldlM_append]
      cases [u, v].foldlM nextPending pending with
      | none => rfl
      | some p => exact ih p
  | case4 u v rest hnot ih =>
      rw [scan_append, scan_unit, List.foldlM_cons]
      cases nextPending pending u with
      | none => rfl
      | some p => exact ih p

/-- A quoted string passes exactly when it is storable. -/
theorem scan_quoted (style : EscapeStyle) (t : Text) :
    scan .outside (quoted style t) = if Storable t then some .outside else none := by
  have hopen : ScanState.step .outside quote = some (.inside false) := rfl
  have hne : quote ≠ backslash := by decide
  rw [quoted, List.cons_append, scan_cons, hopen, Option.bind_some, scan_append, scan_escape]
  cases hread : t.foldlM nextPending false with
  | none => simp [Storable, hread]
  | some p => cases p <;> simp [Storable, hread, ScanState.step, hne]

end JsonText
