import CairnQ.Json.Document

/-!
# Two styles of escapes

Which documents the two styles write alike.  A unit that one style escapes and the other
leaves as it is takes six units instead of one, so the texts already differ in length.

Main results:

- Theorem `length_escape_lt`: a string is longer in ASCII unless it is {lit}`alike`.
- Theorem `render_eq_iff`: the styles write the same text exactly when every string of the
  document is.
-/

namespace JsonText

/-! ## Strings -/

/-- A unit that both styles write alike when it is not half of a pair: a control character,
printable ASCII, or a surrogate. -/
def alikeUnit (u : CodeUnit) : Bool :=
  decide (u.val ≤ 126) || isHigh u || isLow u

/-- A string that both styles write alike. -/
def alike : Text → Bool
  | [] => true
  | [u] => alikeUnit u
  | u :: v :: rest => !(isHigh u && isLow v) && alikeUnit u && alike (v :: rest)

theorem unit_eq_of_alikeUnit {u : CodeUnit} (h : alikeUnit u = true) :
    EscapeStyle.minimal.unit u = EscapeStyle.ascii.unit u := by
  have hplain : EscapeStyle.minimal.plain u = EscapeStyle.ascii.plain u := by
    simp only [alikeUnit, isHigh, isLow, Bool.or_eq_true, Bool.and_eq_true, decide_eq_true_eq] at h
    rw [Bool.eq_iff_iff]
    simp only [EscapeStyle.plain, isHigh, isLow, Bool.and_eq_true, Bool.not_eq_true',
      Bool.and_eq_false_iff, decide_eq_true_eq, decide_eq_false_iff_not]
    omega
  simp only [EscapeStyle.unit, hplain]

/-- Beyond ASCII there are no two-character escapes. -/
theorem shortEscape_of_lt {u : CodeUnit} (h : 126 < u.val) : shortEscape u = none := by
  cases hshort : shortEscape u with
  | none => rfl
  | some e =>
      unfold shortEscape at hshort
      split_ifs at hshort <;> subst_vars <;> exact absurd h (by decide)

/-- A unit beyond ASCII is written as its hexadecimal escape. -/
theorem unit_ascii_of_lt {u : CodeUnit} (h : 126 < u.val) :
    EscapeStyle.ascii.unit u = hexEscape u := by
  have hplain : EscapeStyle.ascii.plain u = false := by
    simp only [EscapeStyle.plain, Bool.and_eq_false_iff, decide_eq_false_iff_not]
    omega
  simp [EscapeStyle.unit, shortEscape_of_lt h, hplain]

theorem length_unit_lt {u : CodeUnit} (h : alikeUnit u = false) :
    (EscapeStyle.minimal.unit u).length < (EscapeStyle.ascii.unit u).length := by
  simp only [alikeUnit, Bool.or_eq_false_iff, decide_eq_false_iff_not] at h
  have hbeyond : 126 < u.val := Nat.lt_of_not_le h.1.1
  have hplain : EscapeStyle.minimal.plain u = true := by
    simp only [EscapeStyle.plain, h.1.2, h.2, Bool.not_false, Bool.and_true, decide_eq_true_eq]
    omega
  rw [unit_ascii_of_lt hbeyond]
  simp [EscapeStyle.unit, shortEscape_of_lt hbeyond, hplain, hexEscape]

theorem length_unit_le (u : CodeUnit) :
    (EscapeStyle.minimal.unit u).length ≤ (EscapeStyle.ascii.unit u).length := by
  cases h : alikeUnit u with
  | true => rw [unit_eq_of_alikeUnit h]
  | false => exact (length_unit_lt h).le

theorem escape_ascii_cons (u : CodeUnit) (t : Text) :
    escape .ascii (u :: t) = EscapeStyle.ascii.unit u ++ escape .ascii t := by
  cases t with
  | nil => simp [escape]
  | cons v t => simp [escape]

theorem escape_ascii_eq_flatMap (t : Text) :
    escape .ascii t = t.flatMap EscapeStyle.ascii.unit := by
  induction t with
  | nil => rfl
  | cons u t ih => rw [escape_ascii_cons, List.flatMap_cons, ih]

/-- Every unit takes up room. -/
theorem length_unit_pos (style : EscapeStyle) (u : CodeUnit) : 0 < (style.unit u).length := by
  unfold EscapeStyle.unit
  split
  · exact Nat.succ_pos _
  · split <;> exact Nat.succ_pos _

theorem escape_eq_of_alike {t : Text} (h : alike t = true) :
    escape .minimal t = escape .ascii t := by
  induction t with
  | nil => rfl
  | cons u t ih =>
      cases t with
      | nil =>
          rw [escape_ascii_cons]
          simpa [escape] using unit_eq_of_alikeUnit h
      | cons v t =>
          simp only [alike, Bool.and_eq_true, Bool.not_eq_true'] at h
          have hpair : ¬(EscapeStyle.minimal = .minimal ∧ isHigh u = true ∧ isLow v = true) := by
            rintro ⟨-, hhigh, hlow⟩
            simp [hhigh, hlow] at h
          rw [escape_ascii_cons, escape, if_neg hpair, unit_eq_of_alikeUnit h.1.2, ih h.2]

theorem length_escape_le (t : Text) :
    (escape .minimal t).length ≤ (escape .ascii t).length := by
  fun_induction escape EscapeStyle.minimal t with
  | case1 => exact Nat.le_refl _
  | case2 u =>
      rw [escape_ascii_cons, List.length_append]
      exact Nat.le_add_right_of_le (length_unit_le u)
  | case3 u v rest hpair ih =>
      have hu := length_unit_pos .ascii u
      have hv := length_unit_pos .ascii v
      simp only [escape_ascii_cons, List.length_append, List.length_cons]
      omega
  | case4 u v rest hnot ih =>
      have hu := length_unit_le u
      rw [escape_ascii_cons, List.length_append, List.length_append]
      omega

/-- A string is longer in ASCII unless both styles write it alike. -/
theorem length_escape_lt {t : Text} (h : alike t = false) :
    (escape .minimal t).length < (escape .ascii t).length := by
  fun_induction escape EscapeStyle.minimal t with
  | case1 => cases h
  | case2 u =>
      rw [escape_ascii_cons, List.length_append]
      exact Nat.lt_add_right _ (length_unit_lt h)
  | case3 u v rest hpair ih =>
      have hsurrogate : 126 < u.val := by
        have hhigh := hpair.2.1
        simp only [isHigh, Bool.and_eq_true, decide_eq_true_eq] at hhigh
        omega
      have hu : (EscapeStyle.ascii.unit u).length = 6 := by
        rw [unit_ascii_of_lt hsurrogate]
        rfl
      have hrest := length_escape_le rest
      simp only [escape_ascii_cons, List.length_append, List.length_cons]
      omega
  | case4 u v rest hnot ih =>
      have hu := length_unit_le u
      have hrest := length_escape_le (v :: rest)
      rw [escape_ascii_cons, List.length_append, List.length_append]
      cases hunit : alikeUnit u with
      | false =>
          have hlt := length_unit_lt hunit
          omega
      | true =>
          have hpair : (isHigh u && isLow v) = false := by
            rw [Bool.and_eq_false_imp, Bool.eq_false_iff]
            exact fun hhigh hlow => hnot ⟨rfl, hhigh, hlow⟩
          have hlt := ih (by simpa [alike, hunit, hpair] using h)
          omega

theorem length_quoted_le (t : Text) :
    (quoted .minimal t).length ≤ (quoted .ascii t).length ∧
      ((quoted .minimal t).length = (quoted .ascii t).length → alike t = true) := by
  have hle := length_escape_le t
  simp only [quoted, List.length_append, List.length_cons]
  refine ⟨by omega, fun heq => ?_⟩
  by_contra hnot
  have hlt := length_escape_lt (Bool.eq_false_iff.mpr hnot)
  omega

/-! ## Documents -/

theorem length_join_cons (t : Text) (ts : List Text) :
    (join (t :: ts)).length = t.length + (join ts).length + if ts = [] then 0 else 1 := by
  cases ts with
  | nil => simp [join]
  | cons u ts =>
      simp only [join, List.length_append, List.length_cons, if_neg (List.cons_ne_nil u ts)]
      omega

/-- Lists that are longer piece by piece are longer with commas between them. -/
theorem length_join_le {t t' : Text} {ts ts' : List Text} (hnil : ts = [] ↔ ts' = [])
    (ht : t.length ≤ t'.length) (hts : (join ts).length ≤ (join ts').length) :
    (join (t :: ts)).length ≤ (join (t' :: ts')).length ∧
      ((join (t :: ts)).length = (join (t' :: ts')).length →
        t.length = t'.length ∧ (join ts).length = (join ts').length) := by
  simp only [length_join_cons, hnil]
  omega

/-- Which fields and items are written does not depend on the style. -/
theorem render_eq_nil_iff {k : Kind} (v : Json k) :
    match k, v with
    | .value, _ => True
    | .items, items => items.render .minimal = [] ↔ items.render .ascii = []
    | .fields, fields => fields.render .minimal = [] ↔ fields.render .ascii = [] := by
  induction v with
  | noItems | noFields => exact Iff.rfl
  | item value rest => exact iff_of_false (List.cons_ne_nil _ _) (List.cons_ne_nil _ _)
  | field key value rest ihvalue ihrest =>
      by_cases habsent : value.isAbsent = true
      · simp only [Json.render, if_pos habsent]
        exact ihrest
      · simp only [Json.render, if_neg habsent]
        exact iff_of_false (List.cons_ne_nil _ _) (List.cons_ne_nil _ _)
  | _ => trivial

/-- No document is longer with the shorter escapes, and one of equal length has only strings
that both styles write alike. -/
theorem length_render_le {k : Kind} (v : Json k) :
    (pieces (v.render .minimal)).length ≤ (pieces (v.render .ascii)).length ∧
      ((pieces (v.render .minimal)).length = (pieces (v.render .ascii)).length →
        ∀ s ∈ v.strings, alike s = true) := by
  induction v with
  | null | bool | number | notFinite | hidden | failing | absent | noItems | noFields =>
      exact ⟨Nat.le_refl _, fun _ s hs => by cases hs⟩
  | text t =>
      rcases length_quoted_le t with ⟨hle, heq⟩
      refine ⟨hle, fun hlength s hs => ?_⟩
      rw [List.mem_singleton.mp hs]
      exact heq hlength
  | array items ih =>
      refine ⟨?_, fun heq => ih.2 ?_⟩
      · simpa [pieces, Json.render] using ih.1
      · simpa [pieces, Json.render] using heq
  | object fields ih =>
      refine ⟨?_, fun heq => ih.2 ?_⟩
      · simpa [pieces, Json.render] using ih.1
      · simpa [pieces, Json.render] using heq
  | item value rest ihvalue ihrest =>
      have hnil : rest.render .minimal = [] ↔ rest.render .ascii = [] := render_eq_nil_iff rest
      rcases length_join_le hnil ihvalue.1 ihrest.1 with ⟨hle, heq⟩
      refine ⟨hle, fun hlength s hs => ?_⟩
      rcases List.mem_append.mp hs with hs | hs
      · exact ihvalue.2 (heq hlength).1 s hs
      · exact ihrest.2 (heq hlength).2 s hs
  | field key value rest ihvalue ihrest =>
      by_cases habsent : value.isAbsent = true
      · simp only [Json.render, Json.strings, if_pos habsent]
        exact ihrest
      · simp only [Json.render, Json.strings, if_neg habsent]
        have hnil : rest.render .minimal = [] ↔ rest.render .ascii = [] := render_eq_nil_iff rest
        have hkey := length_quoted_le key
        have hvalue : (value.render .minimal).length ≤ (value.render .ascii).length := ihvalue.1
        have hpiece : (quoted .minimal key ++ 58 :: value.render .minimal).length ≤
            (quoted .ascii key ++ 58 :: value.render .ascii).length := by
          simp only [List.length_append, List.length_cons]
          omega
        rcases length_join_le hnil hpiece ihrest.1 with ⟨hle, heq⟩
        refine ⟨hle, fun hlength s hs => ?_⟩
        rcases heq hlength with ⟨hfirst, hothers⟩
        simp only [List.length_append, List.length_cons] at hfirst
        have hvalues : (value.render .minimal).length = (value.render .ascii).length := by omega
        rcases List.mem_append.mp hs with hs | hs
        · rcases List.mem_cons.mp hs with rfl | hs
          · exact hkey.2 (by omega)
          · exact ihvalue.2 hvalues s hs
        · exact ihrest.2 hothers s hs

/-- Strings that both styles write alike make the same text. -/
theorem render_eq_of_alike {k : Kind} (v : Json k) (h : ∀ s ∈ v.strings, alike s = true) :
    v.render .minimal = v.render .ascii := by
  induction v with
  | null | bool | number | notFinite | hidden | failing | absent | noItems | noFields => rfl
  | text t => simp only [Json.render, quoted, escape_eq_of_alike (h t (List.mem_singleton_self t))]
  | array items ih => simp only [Json.render, ih h]
  | object fields ih => simp only [Json.render, ih h]
  | item value rest ihvalue ihrest =>
      have hvalue := ihvalue fun s hs => h s (List.mem_append_left _ hs)
      have hrest := ihrest fun s hs => h s (List.mem_append_right _ hs)
      simp only [Json.render, hvalue, hrest]
  | field key value rest ihvalue ihrest =>
      by_cases habsent : value.isAbsent = true
      · simp only [Json.strings, if_pos habsent] at h
        simp only [Json.render, if_pos habsent, ihrest h]
      · simp only [Json.strings, if_neg habsent] at h
        have hkey := escape_eq_of_alike (h key (List.mem_append_left _ List.mem_cons_self))
        have hvalue := ihvalue fun s hs =>
          h s (List.mem_append_left _ (List.mem_cons_of_mem key hs))
        have hrest := ihrest fun s hs => h s (List.mem_append_right _ hs)
        simp only [Json.render, if_neg habsent, quoted, hkey, hvalue, hrest]

/-- The styles write the same text exactly when they write every string of it alike. -/
theorem render_eq_iff (v : Json .value) :
    v.render .minimal = v.render .ascii ↔ ∀ s ∈ v.strings, alike s = true := by
  constructor
  · intro h
    exact (length_render_le v).2 (congrArg (fun t => (pieces t).length) h)
  · exact render_eq_of_alike v

end JsonText
