import CairnQ.Json.Reader
import Mathlib.Data.List.Infix

/-!
# Traces in JSON texts

Three texts by which one may search a document for what its encoder had no form for: null,
an object without fields, and an object whose first key is 0.  Whether one of them occurs in
what an encoder writes is a matter of the single pieces, for brackets, commas, colons and
quotes keep the pieces apart; inside a string only the first two can occur, and an escape can
be part of an occurrence.

Main results:

- Theorem `infix_append_cons_iff`: an occurrence lies to one side of a separator.
- Theorem `hasTrace_render_iff`: the text of a document has a trace exactly when one of its
  pieces is {lit}`traced`.
-/

namespace JsonText

/-! ## Occurrences and separators -/

section Separators

variable {α : Type}

theorem prefix_append_cons_iff {needle a b : List α} {c : α} (h : c ∉ needle) :
    needle <+: a ++ c :: b ↔ needle <+: a := by
  induction needle generalizing a with
  | nil => simp
  | cons x needle ih =>
      rw [List.mem_cons, not_or] at h
      cases a with
      | nil => simp [Ne.symm h.1]
      | cons y a => simp [ih h.2]

/-- An occurrence lies to one side of a separator. -/
theorem infix_append_cons_iff {needle a b : List α} {c : α} (h : c ∉ needle)
    (hne : needle ≠ []) :
    needle <:+: a ++ c :: b ↔ needle <:+: a ∨ needle <:+: b := by
  induction a with
  | nil =>
      have hnil : ¬needle <+: [] := fun hp => hne (List.prefix_nil.mp hp)
      have hcons := prefix_append_cons_iff (a := []) (b := b) h
      rw [List.nil_append] at hcons ⊢
      rw [List.infix_cons_iff, hcons, List.infix_nil]
      simp [hne]
  | cons y a ih =>
      have hcons := prefix_append_cons_iff (a := y :: a) (b := b) h
      rw [List.cons_append] at hcons ⊢
      rw [List.infix_cons_iff, hcons, ih, List.infix_cons_iff, or_assoc]

/-- An occurrence lies between the brackets. -/
theorem infix_bracketed_iff {needle a : List α} {b c : α} (hb : b ∉ needle) (hc : c ∉ needle)
    (hne : needle ≠ []) : needle <:+: b :: a ++ [c] ↔ needle <:+: a := by
  have hopen := infix_append_cons_iff (a := []) (b := a ++ [c]) hb hne
  rw [List.nil_append] at hopen
  rw [List.cons_append, hopen, infix_append_cons_iff hc hne]
  simp [hne]

end Separators

/-! ## Traces -/

/-- An object without fields. -/
def emptyObject : Text :=
  [123, 125]

/-- An object whose first key is 0, up to its value. -/
def zeroKeyed : Text :=
  [123, 34, 48, 34, 58]

/-- One of the three traces occurs. -/
def HasTrace (t : Text) : Prop :=
  latin "null" <:+: t ∨ emptyObject <:+: t ∨ zeroKeyed <:+: t

/-- A text occurs in another. -/
def occurs (needle t : Text) : Bool :=
  t.tails.any fun tail => needle.isPrefixOf tail

theorem occurs_iff (needle t : Text) : occurs needle t = true ↔ needle <:+: t := by
  simp only [occurs, List.any_eq_true, List.mem_tails, List.isPrefixOf_iff_prefix]
  rw [List.infix_iff_prefix_suffix]
  exact exists_congr fun _ => and_comm

/-- A trace occurs in a string as it is written. -/
def tracedText (style : EscapeStyle) (s : Text) : Bool :=
  occurs (latin "null") (escape style s) || occurs emptyObject (escape style s)

theorem tracedText_iff (style : EscapeStyle) (s : Text) :
    tracedText style s = true ↔ latin "null" <:+: escape style s ∨ emptyObject <:+: escape style s := by
  rw [tracedText, Bool.or_eq_true, occurs_iff, occurs_iff]

/-- The first key that is written. -/
def Json.firstKey : {k : Kind} → Json k → Option Text
  | _, .field key value rest => if value.isAbsent then rest.firstKey else some key
  | _, _ => none

/-- A piece of a document leaves a trace in its text. -/
def Json.traced (style : EscapeStyle) : {k : Kind} → Json k → Bool
  | _, .null | _, .notFinite | _, .hidden | _, .failing | _, .absent => true
  | _, .bool _ | _, .number _ | _, .noItems | _, .noFields => false
  | _, .text s => tracedText style s
  | _, .array items => items.traced style
  | _, .object fields =>
      decide (fields.firstKey = none ∨ fields.firstKey = some [48]) || fields.traced style
  | _, .item value rest => value.traced style || rest.traced style
  | _, .field key value rest =>
      if value.isAbsent then rest.traced style
      else tracedText style key || value.traced style || rest.traced style

theorem Json.traced_of_absent (style : EscapeStyle) {v : Json .value} (h : v.isAbsent = true) :
    v.traced style = true := by
  cases v with
  | absent => rfl
  | _ => cases h

/-- Something that is in no trace keeps texts apart. -/
theorem hasTrace_append_cons_iff {u : CodeUnit} (hnull : u ∉ latin "null")
    (hempty : u ∉ emptyObject) (hzero : u ∉ zeroKeyed) (a b : Text) :
    HasTrace (a ++ u :: b) ↔ HasTrace a ∨ HasTrace b := by
  simp only [HasTrace, infix_append_cons_iff hnull (by decide),
    infix_append_cons_iff hempty (by decide), infix_append_cons_iff hzero (by decide)]
  tauto

theorem not_hasTrace_nil : ¬HasTrace [] := by
  rintro (h | h | h) <;> exact absurd (List.infix_nil.mp h) (by decide)

theorem hasTrace_comma_iff (a b : Text) : HasTrace (a ++ 44 :: b) ↔ HasTrace a ∨ HasTrace b :=
  hasTrace_append_cons_iff (by decide) (by decide) (by decide) a b

theorem hasTrace_array_iff (t : Text) : HasTrace (91 :: t ++ [93]) ↔ HasTrace t := by
  have hopen := hasTrace_append_cons_iff (u := 91) (by decide) (by decide) (by decide) []
    (t ++ [93])
  have hclose := hasTrace_append_cons_iff (u := 93) (by decide) (by decide) (by decide) t []
  rw [List.nil_append] at hopen
  rw [List.cons_append, hopen, hclose]
  simp [not_hasTrace_nil]

theorem hasTrace_join_cons_iff (t : Text) (ts : List Text) :
    HasTrace (join (t :: ts)) ↔ HasTrace t ∨ HasTrace (join ts) := by
  cases ts with
  | nil => simp [join, not_hasTrace_nil]
  | cons u ts => exact hasTrace_comma_iff t _

/-! ## Inside strings -/

/-- Every quote comes right after a backslash. -/
def guarded : CodeUnit → Text → Bool
  | _, [] => true
  | last, u :: t => decide (u = quote → last = backslash) && guarded u t

theorem guarded_cons {u : CodeUnit} (h : u ≠ quote) (last : CodeUnit) (t : Text) :
    guarded last (u :: t) = guarded u t := by
  simp [guarded, h]

theorem hexDigit_ne_quote {n : Nat} (h : n < 16) : hexDigit n ≠ quote := by
  intro hquote
  have hvalue := hexValue_hexDigit h
  rw [hquote] at hvalue
  cases hvalue

theorem guarded_unit (style : EscapeStyle) (u : CodeUnit) {t : Text}
    (ht : ∀ last, guarded last t = true) (last : CodeUnit) :
    guarded last (style.unit u ++ t) = true := by
  have hu : u.val < 65536 := u.isLt
  unfold EscapeStyle.unit
  cases hshort : shortEscape u with
  | some e =>
      have hback : backslash ≠ quote := by decide
      simp [guarded, hback, ht]
  | none =>
      have hquote : u ≠ quote := fun h => by simp [shortEscape, h] at hshort
      by_cases hplain : style.plain u = true
      · simp only [if_pos hplain, List.singleton_append, guarded_cons hquote, ht]
      · simp only [if_neg hplain, hexEscape, List.cons_append, List.nil_append]
        rw [guarded_cons (by decide), guarded_cons (by decide),
          guarded_cons (hexDigit_ne_quote (by omega)), guarded_cons (hexDigit_ne_quote (by omega)),
          guarded_cons (hexDigit_ne_quote (by omega)), guarded_cons (hexDigit_ne_quote (by omega)),
          ht]

theorem guarded_escape (style : EscapeStyle) (s : Text) (last : CodeUnit) :
    guarded last (escape style s) = true := by
  fun_induction escape style s generalizing last with
  | case1 => rfl
  | case2 u =>
      rw [← List.append_nil (style.unit u)]
      exact guarded_unit style u (fun _ => rfl) last
  | case3 u v rest hpair ih =>
      have hu : u ≠ quote := fun h => by
        rw [h] at hpair
        exact absurd hpair.2.1 (by decide)
      have hv : v ≠ quote := fun h => by
        rw [h] at hpair
        exact absurd hpair.2.2 (by decide)
      rw [guarded_cons hu, guarded_cons hv]
      exact ih v
  | case4 u v rest hnot ih => exact guarded_unit style u ih last

/-- No object begins inside a string. -/
theorem zeroKeyed_guarded_iff {e : Text} {last : CodeUnit} (he : guarded last e = true) {b : Text}
    (hb : b.head? ≠ some 48) : zeroKeyed <:+: e ++ quote :: b ↔ zeroKeyed <:+: b := by
  induction e generalizing last with
  | nil =>
      have hstart : ¬zeroKeyed <+: quote :: b := fun h =>
        absurd (List.cons_prefix_cons.mp h).1 (by decide)
      rw [List.nil_append, List.infix_cons_iff, or_iff_right hstart]
  | cons u e ih =>
      rw [guarded, Bool.and_eq_true, decide_eq_true_eq] at he
      have hstart : ¬zeroKeyed <+: u :: (e ++ quote :: b) := by
        intro h
        rcases List.cons_prefix_cons.mp h with ⟨hbrace, hrest⟩
        subst hbrace
        cases e with
        | nil =>
            rcases List.cons_prefix_cons.mp hrest with ⟨-, htail⟩
            cases b with
            | nil => exact absurd (List.prefix_nil.mp htail) (by decide)
            | cons v b => exact hb (by rw [← (List.cons_prefix_cons.mp htail).1]; rfl)
        | cons v e =>
            rcases List.cons_prefix_cons.mp hrest with ⟨hquote, -⟩
            rw [guarded, Bool.and_eq_true, decide_eq_true_eq] at he
            exact absurd (he.2.1 hquote.symm) (by decide)
      rw [List.cons_append, List.infix_cons_iff, or_iff_right hstart, ih he.2]

theorem zeroKeyed_quoted_iff (style : EscapeStyle) (s : Text) {b : Text}
    (hb : b.head? ≠ some 48) : zeroKeyed <:+: quoted style s ++ b ↔ zeroKeyed <:+: b := by
  have hquoted : quoted style s ++ b = quote :: (escape style s ++ quote :: b) := by
    simp [quoted]
  have hstart : ¬zeroKeyed <+: quote :: (escape style s ++ quote :: b) := fun h =>
    absurd (List.cons_prefix_cons.mp h).1 (by decide)
  rw [hquoted, List.infix_cons_iff, or_iff_right hstart,
    zeroKeyed_guarded_iff (guarded_escape style s 0) hb]

theorem hasTrace_quoted_iff (style : EscapeStyle) (s : Text) :
    HasTrace (quoted style s) ↔ tracedText style s = true := by
  have hzero : ¬zeroKeyed <:+: quoted style s := by
    have hiff := zeroKeyed_quoted_iff style s (b := []) (by decide)
    rw [List.append_nil] at hiff
    rw [hiff, List.infix_nil]
    decide
  have hnull : latin "null" <:+: quoted style s ↔ latin "null" <:+: escape style s :=
    infix_bracketed_iff (by decide) (by decide) (by decide)
  have hempty : emptyObject <:+: quoted style s ↔ emptyObject <:+: escape style s :=
    infix_bracketed_iff (by decide) (by decide) (by decide)
  simp only [HasTrace, tracedText_iff, hnull, hempty, hzero, or_false]

theorem hasTrace_field_iff (style : EscapeStyle) (key t : Text) :
    HasTrace (quoted style key ++ 58 :: t) ↔ tracedText style key = true ∨ HasTrace t := by
  have hzero : zeroKeyed <:+: quoted style key ++ 58 :: t ↔ zeroKeyed <:+: t := by
    have hstart : ¬zeroKeyed <+: 58 :: t := fun h =>
      absurd (List.cons_prefix_cons.mp h).1 (by decide)
    rw [zeroKeyed_quoted_iff style key (by simp), List.infix_cons_iff, or_iff_right hstart]
  have hnull : latin "null" <:+: quoted style key ++ 58 :: t ↔
      latin "null" <:+: escape style key ∨ latin "null" <:+: t := by
    rw [infix_append_cons_iff (by decide) (by decide), quoted,
      infix_bracketed_iff (by decide) (by decide) (by decide)]
  have hempty : emptyObject <:+: quoted style key ++ 58 :: t ↔
      emptyObject <:+: escape style key ∨ emptyObject <:+: t := by
    rw [infix_append_cons_iff (by decide) (by decide), quoted,
      infix_bracketed_iff (by decide) (by decide) (by decide)]
  simp only [HasTrace, tracedText_iff, hnull, hempty, hzero]
  tauto

/-! ## Objects -/

/-- Braces make a trace when nothing is between them, or the key 0 comes first. -/
theorem hasTrace_object_iff {t : Text} (hstart : t.head? ≠ some 125)
    (hend : t.getLast? ≠ some 123) :
    HasTrace (123 :: t ++ [125]) ↔ (t = [] ∨ [34, 48, 34, 58] <+: t) ∨ HasTrace t := by
  have hnull : latin "null" <:+: 123 :: t ++ [125] ↔ latin "null" <:+: t :=
    infix_bracketed_iff (by decide) (by decide) (by decide)
  have hempty : emptyObject <:+: 123 :: t ++ [125] ↔ t = [] ∨ emptyObject <:+: t := by
    have hopen : emptyObject <+: 123 :: (t ++ [125]) ↔ t = [] := by
      rw [emptyObject, List.cons_prefix_cons, and_iff_right rfl]
      cases t with
      | nil => simp
      | cons u t =>
          have hu : (125 : CodeUnit) ≠ u := fun h => hstart (by rw [h]; rfl)
          simp [hu]
    have hclose : emptyObject <:+ t ++ [125] ↔ False := by
      rw [iff_false]
      rintro ⟨init, hinit⟩
      have hsplit : (init ++ [123]) ++ [125] = t ++ [125] := by
        rw [← hinit, List.append_assoc]
        rfl
      exact hend (by rw [← List.append_cancel_right hsplit, List.getLast?_concat])
    rw [List.cons_append, List.infix_cons_iff, hopen, List.infix_concat_iff, hclose, false_or]
  have hzero : zeroKeyed <:+: 123 :: t ++ [125] ↔ [34, 48, 34, 58] <+: t ∨ zeroKeyed <:+: t := by
    have hopen : zeroKeyed <+: 123 :: (t ++ [125]) ↔ [34, 48, 34, 58] <+: t := by
      rw [zeroKeyed, List.cons_prefix_cons, and_iff_right rfl]
      exact prefix_append_cons_iff (by decide)
    have hclose : zeroKeyed <:+: t ++ [125] ↔ zeroKeyed <:+: t ∨ zeroKeyed <:+: [] :=
      infix_append_cons_iff (by decide) (by decide)
    rw [List.cons_append, List.infix_cons_iff, hopen, hclose, List.infix_nil]
    simp [zeroKeyed]
  simp only [HasTrace, hnull, hempty, hzero]
  tauto

/-- The key that a text of fields begins with. -/
theorem prefix_zero_iff (style : EscapeStyle) (key t : Text) :
    [34, 48, 34, 58] <+: quoted style key ++ 58 :: t ↔ key = [48] := by
  have hself : escape style [48] = [48] := by cases style <;> decide
  have hquoted : quoted style key ++ 58 :: t = quote :: (escape style key ++ quote :: 58 :: t) := by
    simp [quoted]
  rw [hquoted, List.cons_prefix_cons, and_iff_right (by rfl)]
  constructor
  · intro h
    have hguarded := guarded_escape style key 0
    refine escape_injective style ?_
    rw [hself]
    cases hescape : escape style key with
    | nil =>
        rw [hescape] at h
        exact absurd (List.cons_prefix_cons.mp h).1 (by decide)
    | cons u e =>
        rw [hescape] at h hguarded
        rcases List.cons_prefix_cons.mp h with ⟨hu, hrest⟩
        cases e with
        | nil => rw [hu]
        | cons v e =>
            rcases List.cons_prefix_cons.mp hrest with ⟨hv, -⟩
            simp only [guarded, Bool.and_eq_true, decide_eq_true_eq] at hguarded
            rw [← hu] at hguarded
            exact absurd (hguarded.2.1 hv.symm) (by decide)
  · rintro rfl
    rw [hself]
    exact ⟨t, rfl⟩

/-- Fields of which none is written. -/
theorem render_of_firstKey_none (style : EscapeStyle) {fields : Json .fields}
    (h : fields.firstKey = none) : fields.render style = [] := by
  cases fields with
  | noFields => rfl
  | field key value rest =>
      by_cases habsent : value.isAbsent = true
      · rw [Json.firstKey, if_pos habsent] at h
        rw [Json.render, if_pos habsent]
        exact render_of_firstKey_none style h
      · rw [Json.firstKey, if_neg habsent] at h
        cases h

/-- The text of the fields begins with the first key that is written. -/
theorem join_of_firstKey_some (style : EscapeStyle) {fields : Json .fields} {key : Text}
    (h : fields.firstKey = some key) :
    ∃ t, join (fields.render style) = quoted style key ++ 58 :: t := by
  cases fields with
  | noFields => exact absurd h (by simp [Json.firstKey])
  | field key' value rest =>
      by_cases habsent : value.isAbsent = true
      · rw [Json.firstKey, if_pos habsent] at h
        rw [Json.render, if_pos habsent]
        exact join_of_firstKey_some style h
      · rw [Json.firstKey, if_neg habsent] at h
        cases h
        rw [Json.render, if_neg habsent]
        cases rest.render style with
        | nil => exact ⟨_, rfl⟩
        | cons p ps =>
            refine ⟨value.render style ++ 44 :: join (p :: ps), ?_⟩
            simp [join]

/-- No brace is closed at the beginning. -/
theorem head?_join (style : EscapeStyle) (fields : Json .fields) :
    (join (fields.render style)).head? ≠ some 125 := by
  cases hfirst : fields.firstKey with
  | none => simp [render_of_firstKey_none style hfirst, join]
  | some key =>
      rcases join_of_firstKey_some style hfirst with ⟨t, ht⟩
      rw [ht]
      simp [quoted, quote]

/-! ## Ends of texts -/

theorem getLast?_join_cons {t : Text} {ts : List Text} (ht : t.getLast? ≠ some 123)
    (hts : (join ts).getLast? ≠ some 123) : (join (t :: ts)).getLast? ≠ some 123 := by
  cases ts with
  | nil => exact ht
  | cons u ts =>
      rw [join, List.getLast?_append_cons, List.getLast?_cons]
      cases hlast : (join (u :: ts)).getLast? with
      | none => simp
      | some v => simpa [hlast] using hts

/-- A number has no letters but an exponent's, and no braces. -/
theorem not_mem_number (n : NumberText) {u : CodeUnit}
    (hnumeric : ∀ s : NumberState, s.step u = none) : u ∉ n.text := by
  have hrun : ∀ (t : Text) (s : NumberState), (runNumber s t).isSome → u ∉ t := by
    intro t
    induction t with
    | nil => simp
    | cons v t ih =>
        intro s h
        rw [runNumber, List.foldlM_cons] at h
        cases hv : s.step v with
        | none =>
            rw [hv] at h
            cases h
        | some s' =>
            rw [hv] at h
            have hne : u ≠ v := by
              rintro rfl
              rw [hnumeric] at hv
              cases hv
            exact List.not_mem_cons_of_ne_of_not_mem hne (ih s' h)
  refine hrun n.text .start ?_
  have hvalid := n.valid
  rw [runNumber]
  cases hn : n.text.foldlM NumberState.step .start with
  | none =>
      rw [hn] at hvalid
      cases hvalid
  | some s => rfl

/-- No brace is opened at the end. -/
theorem getLast?_render (style : EscapeStyle) {k : Kind} (v : Json k) :
    (pieces (v.render style)).getLast? ≠ some 123 := by
  induction v with
  | null | notFinite | failing | absent =>
      show (latin "null").getLast? ≠ some 123
      decide
  | hidden =>
      show emptyObject.getLast? ≠ some 123
      decide
  | bool b =>
      show (latin (if b then "true" else "false")).getLast? ≠ some 123
      cases b <;> decide
  | number n =>
      intro hlast
      exact not_mem_number n (by intro s; cases s <;> decide) (List.mem_of_getLast? hlast)
  | text t =>
      show (quote :: escape style t ++ [quote]).getLast? ≠ _
      rw [List.getLast?_concat]
      decide
  | array items ih =>
      show (91 :: join (items.render style) ++ [93]).getLast? ≠ _
      rw [List.getLast?_concat]
      decide
  | object fields ih =>
      show (123 :: join (fields.render style) ++ [125]).getLast? ≠ _
      rw [List.getLast?_concat]
      decide
  | noItems | noFields =>
      show List.getLast? [] ≠ _
      simp
  | item value rest ihvalue ihrest => exact getLast?_join_cons ihvalue ihrest
  | field key value rest ihvalue ihrest =>
      by_cases habsent : value.isAbsent = true
      · rw [Json.render, if_pos habsent]
        exact ihrest
      · rw [Json.render, if_neg habsent]
        refine getLast?_join_cons ?_ ihrest
        rw [List.getLast?_append_cons, List.getLast?_cons]
        cases hlast : (value.render style).getLast? with
        | none => simp
        | some u =>
            have hvalue : (value.render style).getLast? ≠ some 123 := ihvalue
            simpa [hlast] using hvalue

/-! ## Documents -/

/-- The text of a document has a trace exactly when one of its pieces leaves one. -/
theorem hasTrace_render_iff (style : EscapeStyle) {k : Kind} (v : Json k) :
    HasTrace (pieces (v.render style)) ↔ v.traced style = true := by
  induction v with
  | null | notFinite | failing | absent =>
      refine iff_of_true (Or.inl ?_) rfl
      show latin "null" <:+: latin "null"
      exact List.infix_rfl
  | hidden =>
      refine iff_of_true (Or.inr (Or.inl ?_)) rfl
      show emptyObject <:+: emptyObject
      exact List.infix_rfl
  | bool b =>
      refine iff_of_false ?_ (by simp [Json.traced])
      show ¬HasTrace (latin (if b then "true" else "false"))
      simp only [HasTrace, ← occurs_iff]
      cases b <;> decide
  | number n =>
      have hletter : 110 ∉ n.text := not_mem_number n fun s => by cases s <;> decide
      have hbrace : 123 ∉ n.text := not_mem_number n fun s => by cases s <;> decide
      refine iff_of_false ?_ (by simp [Json.traced])
      rintro (h | h | h)
      · exact hletter (h.subset (by decide))
      · exact hbrace (h.subset (by decide))
      · exact hbrace (h.subset (by decide))
  | text t => exact hasTrace_quoted_iff style t
  | array items ih =>
      show HasTrace (91 :: join (items.render style) ++ [93]) ↔ _
      rw [hasTrace_array_iff]
      exact ih
  | object fields ih =>
      show HasTrace (123 :: join (fields.render style) ++ [125]) ↔ _
      have hrest : HasTrace (join (fields.render style)) ↔ fields.traced style = true := ih
      rw [hasTrace_object_iff (head?_join style fields) (getLast?_render style fields), hrest,
        Json.traced, Bool.or_eq_true, decide_eq_true_eq]
      refine or_congr ?_ Iff.rfl
      cases hfirst : fields.firstKey with
      | none => simp [render_of_firstKey_none style hfirst, join]
      | some key =>
          rcases join_of_firstKey_some style hfirst with ⟨t, ht⟩
          rw [ht, prefix_zero_iff]
          simp [quoted]
  | noItems | noFields => exact iff_of_false not_hasTrace_nil (by simp [Json.traced])
  | item value rest ihvalue ihrest =>
      show HasTrace (join (value.render style :: rest.render style)) ↔ _
      rw [hasTrace_join_cons_iff, Json.traced, Bool.or_eq_true]
      exact or_congr ihvalue ihrest
  | field key value rest ihvalue ihrest =>
      by_cases habsent : value.isAbsent = true
      · rw [Json.render, Json.traced, if_pos habsent, if_pos habsent]
        exact ihrest
      · rw [Json.render, Json.traced, if_neg habsent, if_neg habsent]
        show HasTrace (join (_ :: rest.render style)) ↔ _
        rw [hasTrace_join_cons_iff, hasTrace_field_iff, Bool.or_eq_true, Bool.or_eq_true]
        exact or_congr (or_congr Iff.rfl ihvalue) ihrest

end JsonText
