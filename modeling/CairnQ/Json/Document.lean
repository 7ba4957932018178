import CairnQ.Json.Text

/-!
# JSON documents

The values an encoder may be handed, those JSON has no form for included, the text a plain
encoder writes for them, and the texts a strict binary column accepts: JSON whose strings
have neither an escaped null nor an escaped surrogate alone.

Main results:

- Theorem `derives_render`: whatever an encoder writes is JSON.
- Theorem `isJsonb_render_iff`: it is accepted exactly when every string in it is storable.
-/

namespace JsonText

/-! ## Values -/

inductive NumberState
  | start
  | minus
  | zero
  | int
  | point
  | frac
  | exp
  | sign
  | power
deriving DecidableEq, Repr

/-- A decimal digit. -/
def isDigit (u : CodeUnit) : Bool :=
  decide (48 ≤ u.val) && decide (u.val ≤ 57)

/-- The grammar of a number, one unit at a time. -/
def NumberState.step : NumberState → CodeUnit → Option NumberState
  | .start, u =>
      if u = 45 then some .minus
      else if u = 48 then some .zero
      else if isDigit u then some .int
      else none
  | .minus, u => if u = 48 then some .zero else if isDigit u then some .int else none
  | .zero, u => if u = 46 then some .point else if u = 69 ∨ u = 101 then some .exp else none
  | .int, u =>
      if isDigit u then some .int
      else if u = 46 then some .point
      else if u = 69 ∨ u = 101 then some .exp
      else none
  | .point, u => if isDigit u then some .frac else none
  | .frac, u => if isDigit u then some .frac else if u = 69 ∨ u = 101 then some .exp else none
  | .exp, u => if u = 43 ∨ u = 45 then some .sign else if isDigit u then some .power else none
  | .sign, u | .power, u => if isDigit u then some .power else none

/-- A number may end here. -/
def NumberState.final : NumberState → Bool
  | .zero | .int | .frac | .power => true
  | .start | .minus | .point | .exp | .sign => false

/-- The text of a finite number. -/
structure NumberText where
  text : Text
  valid : (text.foldlM NumberState.step .start).any NumberState.final = true

/-- What a piece of a document is. -/
inductive Kind
  | value
  | items
  | fields

/-- A value, the items of an array, or the fields of an object.  Four kinds of values have no
form in JSON: a number that is not finite, an object whose content an encoder cannot see, a
value that makes it fail, and an absent one. -/
inductive Json : Kind → Type
  | null : Json .value
  | bool (b : Bool) : Json .value
  | number (n : NumberText) : Json .value
  | text (t : Text) : Json .value
  | array (items : Json .items) : Json .value
  | object (fields : Json .fields) : Json .value
  | notFinite : Json .value
  | hidden : Json .value
  | failing : Json .value
  | absent : Json .value
  | noItems : Json .items
  | item (value : Json .value) (rest : Json .items) : Json .items
  | noFields : Json .fields
  | field (key : Text) (value : Json .value) (rest : Json .fields) : Json .fields

/-- A field without a value is left out. -/
def Json.isAbsent : Json .value → Bool
  | .absent => true
  | _ => false

/-- The strings of a document, keys included. -/
def Json.strings : {k : Kind} → Json k → List Text
  | _, .text t => [t]
  | _, .array items => items.strings
  | _, .object fields => fields.strings
  | _, .item value rest => value.strings ++ rest.strings
  | _, .field key value rest =>
      if value.isAbsent then rest.strings else key :: value.strings ++ rest.strings
  | _, .null | _, .bool _ | _, .number _ | _, .notFinite | _, .hidden | _, .failing | _, .absent
  | _, .noItems | _, .noFields => []

/-! ## Rendering -/

/-- Pieces with commas between them. -/
def join : List Text → Text
  | [] => []
  | [t] => t
  | t :: u :: ts => t ++ 44 :: join (u :: ts)

/-- One text for a value, one for each piece of a list. -/
abbrev Rendered : Kind → Type
  | .value => Text
  | .items | .fields => List Text

/-- What an encoder writes.  Where JSON has no form it writes null, or nothing for a field. -/
def Json.render (style : EscapeStyle) : {k : Kind} → Json k → Rendered k
  | _, .null => latin "null"
  | _, .bool b => latin (if b then "true" else "false")
  | _, .number n => n.text
  | _, .text t => quoted style t
  | _, .array items => 91 :: join (items.render style) ++ [93]
  | _, .object fields => 123 :: join (fields.render style) ++ [125]
  | _, .hidden => [123, 125]
  | _, .notFinite | _, .failing | _, .absent => latin "null"
  | _, .noItems => []
  | _, .item value rest => value.render style :: rest.render style
  | _, .noFields => []
  | _, .field key value rest =>
      if value.isAbsent then rest.render style
      else (quoted style key ++ 58 :: value.render style) :: rest.render style

/-! ## JSON texts -/

/-- White space. -/
def isSpace (u : CodeUnit) : Bool :=
  decide (u = 32 ∨ u = 9 ∨ u = 10 ∨ u = 13)

/-- The contents of a string. -/
inductive Contents : Text → Prop
  | nil : Contents []
  | plain {u : CodeUnit} {t : Text} (hprintable : 32 ≤ u.val) (hquote : u ≠ quote)
      (hbackslash : u ≠ backslash) (hhigh : isHigh u = false) (hlow : isLow u = false)
      (hrest : Contents t) : Contents (u :: t)
  | pair {u v : CodeUnit} {t : Text} (hhigh : isHigh u = true) (hlow : isLow v = true)
      (hrest : Contents t) : Contents (u :: v :: t)
  | short {e : CodeUnit} {t : Text}
      (hletter : e ∈ ([34, 92, 47, 98, 102, 110, 114, 116] : Text)) (hrest : Contents t) :
      Contents (backslash :: e :: t)
  | hex {a b c d : CodeUnit} {t : Text} (ha : (hexValue a).isSome) (hb : (hexValue b).isSome)
      (hc : (hexValue c).isSome) (hd : (hexValue d).isSome) (hrest : Contents t) :
      Contents (backslash :: 117 :: a :: b :: c :: d :: t)

/-- The grammar of JSON. -/
inductive Derives : Kind → Text → Prop
  | null : Derives .value (latin "null")
  | true : Derives .value (latin "true")
  | false : Derives .value (latin "false")
  | number (n : NumberText) : Derives .value n.text
  | string {t : Text} (h : Contents t) : Derives .value (quote :: t ++ [quote])
  | noItems {t : Text} (h : ∀ u ∈ t, isSpace u = true) : Derives .value (91 :: t ++ [93])
  | array {t : Text} (h : Derives .items t) : Derives .value (91 :: t ++ [93])
  | noFields {t : Text} (h : ∀ u ∈ t, isSpace u = true) : Derives .value (123 :: t ++ [125])
  | object {t : Text} (h : Derives .fields t) : Derives .value (123 :: t ++ [125])
  | before {u : CodeUnit} {t : Text} (hu : isSpace u = true) (h : Derives .value t) :
      Derives .value (u :: t)
  | after {u : CodeUnit} {t : Text} (hu : isSpace u = true) (h : Derives .value t) :
      Derives .value (t ++ [u])
  | item {t : Text} (h : Derives .value t) : Derives .items t
  | items {t ts : Text} (h : Derives .value t) (hs : Derives .items ts) :
      Derives .items (t ++ 44 :: ts)
  | field {pre key post t : Text} (hpre : ∀ u ∈ pre, isSpace u = true) (hkey : Contents key)
      (hpost : ∀ u ∈ post, isSpace u = true) (h : Derives .value t) :
      Derives .fields (pre ++ (quote :: key ++ [quote]) ++ post ++ 58 :: t)
  | fields {t ts : Text} (h : Derives .fields t) (hs : Derives .fields ts) :
      Derives .fields (t ++ 44 :: ts)

/-- A text that a strict binary column accepts: JSON with no escape it refuses. -/
def IsJsonb (t : Text) : Prop :=
  Derives .value t ∧ scan .outside t = some .outside

/-! ## What is written is JSON -/

theorem contents_unit (style : EscapeStyle) (u : CodeUnit) {t : Text} (hrest : Contents t) :
    Contents (style.unit u ++ t) := by
  unfold EscapeStyle.unit
  cases hshort : shortEscape u with
  | some e =>
      refine Contents.short ?_ hrest
      unfold shortEscape at hshort
      split_ifs at hshort <;> cases hshort <;> decide
  | none =>
      have hquote : u ≠ quote := fun h => by simp [shortEscape, h] at hshort
      have hbackslash : u ≠ backslash := fun h => by
        simp [shortEscape, h, backslash, quote] at hshort
      by_cases hplain : style.plain u = true
      · simp only [if_pos hplain]
        cases style with
        | ascii =>
            simp only [EscapeStyle.plain, Bool.and_eq_true, decide_eq_true_eq] at hplain
            rcases not_surrogate_of_lt (u := u) (by omega) with ⟨hhigh, hlow⟩
            exact Contents.plain hplain.1 hquote hbackslash hhigh hlow hrest
        | minimal =>
            simp only [EscapeStyle.plain, Bool.and_eq_true, decide_eq_true_eq,
              Bool.not_eq_true'] at hplain
            exact Contents.plain hplain.1.1 hquote hbackslash hplain.1.2 hplain.2 hrest
      · simp only [if_neg hplain]
        have hu : u.val < 65536 := u.isLt
        refine Contents.hex ?_ ?_ ?_ ?_ hrest <;> rw [hexValue_hexDigit (by omega)] <;> rfl

theorem contents_escape (style : EscapeStyle) (t : Text) : Contents (escape style t) := by
  fun_induction escape style t with
  | case1 => exact Contents.nil
  | case2 u =>
      rw [← List.append_nil (style.unit u)]
      exact contents_unit style u Contents.nil
  | case3 u v rest hpair ih => exact Contents.pair hpair.2.1 hpair.2.2 ih
  | case4 u v rest hnot ih => exact contents_unit style u ih

theorem derives_quoted (style : EscapeStyle) (t : Text) : Derives .value (quoted style t) :=
  Derives.string (contents_escape style t)

/-- Items with commas between them. -/
theorem derives_join_items {ts : List Text} (hne : ts ≠ []) (h : ∀ t ∈ ts, Derives .value t) :
    Derives .items (join ts) := by
  fun_induction join ts with
  | case1 => exact absurd rfl hne
  | case2 t => exact Derives.item (h t List.mem_cons_self)
  | case3 t u ts ih =>
      exact Derives.items (h t List.mem_cons_self)
        (ih (List.cons_ne_nil u ts) fun v hv => h v (List.mem_cons_of_mem t hv))

/-- Fields with commas between them. -/
theorem derives_join_fields {ts : List Text} (hne : ts ≠ []) (h : ∀ t ∈ ts, Derives .fields t) :
    Derives .fields (join ts) := by
  fun_induction join ts with
  | case1 => exact absurd rfl hne
  | case2 t => exact h t List.mem_cons_self
  | case3 t u ts ih =>
      exact Derives.fields (h t List.mem_cons_self)
        (ih (List.cons_ne_nil u ts) fun v hv => h v (List.mem_cons_of_mem t hv))

/-- What a rendering is to be. -/
def IsJson : {k : Kind} → Rendered k → Prop
  | .value, t => Derives .value t
  | .items, ts => ∀ t ∈ ts, Derives .value t
  | .fields, ts => ∀ t ∈ ts, Derives .fields t

/-- Whatever an encoder writes is JSON. -/
theorem derives_render (style : EscapeStyle) {k : Kind} (v : Json k) :
    IsJson (v.render style) := by
  induction v with
  | null | notFinite | failing | absent => exact Derives.null
  | bool b =>
      cases b with
      | true => exact Derives.true
      | false => exact Derives.false
  | number n => exact Derives.number n
  | text t => exact derives_quoted style t
  | array items ih =>
      have hitems : ∀ t ∈ items.render style, Derives .value t := ih
      show Derives .value (91 :: join (items.render style) ++ [93])
      by_cases hne : items.render style = []
      · rw [hne]
        exact Derives.noItems (t := []) (by simp)
      · exact Derives.array (derives_join_items hne hitems)
  | object fields ih =>
      have hfields : ∀ t ∈ fields.render style, Derives .fields t := ih
      show Derives .value (123 :: join (fields.render style) ++ [125])
      by_cases hne : fields.render style = []
      · rw [hne]
        exact Derives.noFields (t := []) (by simp)
      · exact Derives.object (derives_join_fields hne hfields)
  | hidden => exact Derives.noFields (t := []) (by simp)
  | noItems | noFields =>
      intro t ht
      cases ht
  | item value rest ihvalue ihrest =>
      intro t ht
      rcases List.mem_cons.mp ht with rfl | hrest
      · exact ihvalue
      · exact ihrest t hrest
  | field key value rest ihvalue ihrest =>
      intro t ht
      simp only [Json.render] at ht
      split at ht
      · exact ihrest t ht
      · rcases List.mem_cons.mp ht with rfl | hrest
        · have hfield := @Derives.field [] _ [] _ (by simp) (contents_escape style key) (by simp)
            ihvalue
          simpa [quoted] using hfield
        · exact ihrest t hrest

/-! ## What a strict column accepts -/

/-- The state after a document whose strings are these. -/
def verdict (strings : List Text) : Option ScanState :=
  if strings.all Storable then some .outside else none

theorem verdict_append (a b : List Text) :
    verdict (a ++ b) = (verdict a).bind fun _ => verdict b := by
  cases ha : a.all Storable <;> simp [verdict, ha]

/-- A number has no quotes. -/
theorem scan_number (n : NumberText) : scan .outside n.text = some .outside := by
  have hstep : ∀ (s s' : NumberState) (u : CodeUnit), s.step u = some s' → u ≠ quote := by
    rintro s s' u h rfl
    cases s <;> simp [NumberState.step, isDigit, quote] at h
  have hscan : ∀ (t : Text) (s : NumberState), (t.foldlM NumberState.step s).isSome →
      scan .outside t = some .outside := by
    intro t
    induction t with
    | nil => exact fun _ _ => rfl
    | cons u t ih =>
        intro s h
        rw [List.foldlM_cons] at h
        cases hu : s.step u with
        | none =>
            rw [hu] at h
            cases h
        | some s' =>
            rw [hu] at h
            rw [scan_cons, ScanState.step, if_neg (hstep s s' u hu)]
            exact ih s' h
  refine hscan n.text .start ?_
  have hvalid := n.valid
  cases hrun : n.text.foldlM NumberState.step .start with
  | none =>
      rw [hrun] at hvalid
      cases hvalid
  | some s => rfl

/-- All pieces of a rendering. -/
def pieces : {k : Kind} → Rendered k → Text
  | .value, t => t
  | .items, ts | .fields, ts => join ts

/-- A first piece that ends outside of strings, or is refused, is read before the others. -/
theorem scan_join_cons {t : Text} {strings : List Text} (h : scan .outside t = verdict strings)
    (ts : List Text) :
    scan .outside (join (t :: ts)) = (verdict strings).bind fun _ => scan .outside (join ts) := by
  cases ts with
  | nil =>
      show scan .outside t = _
      rw [h]
      cases hall : strings.all Storable <;> simp [verdict, hall, join]
  | cons u ts =>
      rw [join, scan_append, h]
      cases hall : strings.all Storable <;> simp [verdict, hall, ScanState.step, quote]

/-- Between two brackets. -/
theorem scan_bracketed {b b' : CodeUnit} (hb : b ≠ quote) (hb' : b' ≠ quote) {t : Text}
    {strings : List Text} (h : scan .outside t = verdict strings) :
    scan .outside (b :: t ++ [b']) = verdict strings := by
  rw [List.cons_append, scan_cons, ScanState.step, if_neg hb, Option.bind_some, scan_append, h]
  cases hall : strings.all Storable <;> simp [verdict, hall, ScanState.step, hb']

theorem scan_quoted_eq_verdict (style : EscapeStyle) (t : Text) :
    scan .outside (quoted style t) = verdict [t] := by
  rw [scan_quoted]
  simp [verdict]

/-- Reading a document back is judging its strings. -/
theorem scan_render (style : EscapeStyle) {k : Kind} (v : Json k) :
    scan .outside (pieces (v.render style)) = verdict v.strings := by
  induction v with
  | null | notFinite | failing | absent => rfl
  | bool b => cases b <;> rfl
  | number n => exact scan_number n
  | text t => exact scan_quoted_eq_verdict style t
  | array items ih => exact scan_bracketed (by decide) (by decide) ih
  | object fields ih => exact scan_bracketed (by decide) (by decide) ih
  | hidden => rfl
  | noItems | noFields => rfl
  | item value rest ihvalue ihrest =>
      have hvalue : scan .outside (value.render style) = verdict value.strings := ihvalue
      show scan .outside (join (value.render style :: rest.render style)) =
        verdict (value.strings ++ rest.strings)
      rw [scan_join_cons hvalue, verdict_append]
      exact congrArg _ (funext fun _ => ihrest)
  | field key value rest ihvalue ihrest =>
      by_cases habsent : value.isAbsent = true
      · simp only [Json.render, Json.strings, if_pos habsent]
        exact ihrest
      · simp only [Json.render, Json.strings, if_neg habsent]
        have hfield : scan .outside (quoted style key ++ 58 :: value.render style) =
            verdict (key :: value.strings) := by
          rw [scan_append, scan_quoted_eq_verdict, ← List.singleton_append (l := value.strings),
            verdict_append]
          cases hkey : Storable key
          · simp [verdict, hkey]
          · have hcolon : ScanState.step .outside 58 = some .outside := by decide
            have hvalue : scan .outside (value.render style) = verdict value.strings := ihvalue
            simp [verdict, hkey, hcolon, hvalue]
        show scan .outside (join (_ :: rest.render style)) = verdict (key :: _ ++ rest.strings)
        rw [scan_join_cons hfield, verdict_append]
        exact congrArg _ (funext fun _ => ihrest)

/-- A strict column accepts a document exactly when every string in it is storable. -/
theorem isJsonb_render_iff (style : EscapeStyle) (v : Json .value) :
    IsJsonb (v.render style) ↔ ∀ t ∈ v.strings, Storable t = true := by
  have hscan : scan .outside (v.render style) = verdict v.strings := scan_render style v
  have hjson : Derives .value (v.render style) := derives_render style v
  rw [IsJsonb, hscan, verdict, and_iff_right hjson]
  cases hall : v.strings.all Storable with
  | true => simpa using List.all_eq_true.mp hall
  | false => simpa using List.all_eq_false.mp hall

end JsonText
