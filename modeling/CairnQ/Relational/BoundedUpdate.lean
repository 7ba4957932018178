import CairnQ.Relational.RowOrder

/-!
# Bounded updates

An update of the first eligible rows of an order, after which they are not eligible any more.
Two such updates, one after the other, are one whose bound is the sum of theirs.

Main results:

- Theorem `selectKeys_updateFirst`: what a second selection finds.
- Theorem `updateFirst_updateFirst`: two bounded updates are one.
-/

namespace Relational

namespace KeyedTable

variable {κ ρ : Type} {key : ρ → κ} [DecidableEq κ]

/-- `update t set u where key in (select key from t where p order by le limit n) returning *`. -/
def updateFirst (t : KeyedTable key) (p : ρ → Bool) (le : ρ → ρ → Prop) [DecidableRel le]
    (limit : Int) (u : RowUpdate key) : KeyedTable key × List ρ :=
  let ks := t.selectKeys p le limit
  (t.updateWhere (fun r => decide (key r ∈ ks)) u, t.returning (fun r => decide (key r ∈ ks)) u)

section Twice

variable {t : KeyedTable key} {p : ρ → Bool} {le : ρ → ρ → Prop} [DecidableRel le]
  [Std.Total le] [IsTrans ρ le] {m n : Int} {u : RowUpdate key}

omit [DecidableEq κ] [Std.Total le] [IsTrans ρ le] in
/-- A table is its rows. -/
theorem eq_of_rows_eq {t t' : KeyedTable key} (h : t.rows = t'.rows) : t = t' := by
  cases t
  cases t'
  cases h
  rfl

omit [DecidableEq κ] [Std.Total le] [IsTrans ρ le] in
/-- The keys of a selection are distinct. -/
theorem nodup_selectKeys (t : KeyedTable key) (p : ρ → Bool) (limit : Int) :
    (t.selectKeys p le limit).Nodup := by
  have hsorted : (((t.rows.filter p).insertionSort le).map key).Nodup :=
    ((List.perm_insertionSort le _).map key).nodup_iff.mpr
      ((List.filter_sublist.map key).nodup t.nodup)
  unfold selectKeys limitRows
  split
  · exact hsorted
  · exact ((List.take_sublist _ _).map key).nodup hsorted

/-- The eligible rows left over by a selection, in order. -/
theorem insertionSort_left (hsep : Separates le p t) (hm : 0 ≤ m) :
    ((t.rows.filter fun r => p r && !decide (key r ∈ t.selectKeys p le m)).insertionSort le) =
      ((t.rows.filter p).insertionSort le).drop m.toNat := by
  have hnodup : ((t.rows.filter p).insertionSort le).Nodup :=
    (List.perm_insertionSort le _).nodup_iff.mpr (t.nodup.of_map.filter _)
  have hsplit := List.take_append_drop m.toNat ((t.rows.filter p).insertionSort le)
  have hdisjoint := List.disjoint_of_nodup_append (hsplit.symm ▸ hnodup)
  have hselected : ∀ r ∈ t.rows, (key r ∈ t.selectKeys p le m ↔
      r ∈ ((t.rows.filter p).insertionSort le).take m.toNat) := by
    intro r hr
    rw [selectKeys_eq_map_firstRows t p le hm]
    exact mem_map_firstRows_iff hr
  have hmem : ∀ r, r ∈ (t.rows.filter fun r =>
      p r && !decide (key r ∈ t.selectKeys p le m)).insertionSort le ↔
        r ∈ ((t.rows.filter p).insertionSort le).drop m.toNat := by
    intro r
    rw [List.mem_insertionSort, List.mem_filter]
    constructor
    · rintro ⟨hr, hp⟩
      rw [Bool.and_eq_true, Bool.not_eq_true', decide_eq_false_iff_not, hselected r hr] at hp
      have hin : r ∈ (t.rows.filter p).insertionSort le := by
        rw [List.mem_insertionSort, List.mem_filter]
        exact ⟨hr, hp.1⟩
      rw [← hsplit] at hin
      exact (List.mem_append.mp hin).resolve_left hp.2
    · intro hdrop
      have hin := List.mem_of_mem_drop hdrop
      rw [List.mem_insertionSort, List.mem_filter] at hin
      refine ⟨hin.1, ?_⟩
      rw [Bool.and_eq_true, Bool.not_eq_true', decide_eq_false_iff_not, hselected r hin.1]
      exact ⟨hin.2, fun htake => hdisjoint htake hdrop⟩
  have hperm := (List.perm_ext_iff_of_nodup ((List.perm_insertionSort le _).nodup_iff.mpr
    (t.nodup.of_map.filter _)) ((List.drop_sublist _ _).nodup hnodup)).mpr hmem
  refine hperm.eq_of_pairwise ?_ (List.pairwise_insertionSort le _)
    ((List.pairwise_insertionSort le _).sublist (List.drop_sublist _ _))
  intro r s hr hs hrs hsr
  have hr' := List.mem_of_mem_drop ((hmem r).mp hr)
  have hs' := List.mem_of_mem_drop hs
  rw [List.mem_insertionSort, List.mem_filter] at hr' hs'
  exact hsep r hr'.1 s hs'.1 hr'.2 hs'.2 hrs hsr

omit [Std.Total le] [IsTrans ρ le] in
/-- The eligible rows after a bounded update are those it left over. -/
theorem filter_updateFirst (hclears : ∀ r ∈ t.rows, p r = true → p (u.set r) = false) :
    (t.updateFirst p le m u).1.rows.filter p =
      t.rows.filter fun r => p r && !decide (key r ∈ t.selectKeys p le m) := by
  simp only [updateFirst, updateWhere]
  have helig : ∀ r ∈ t.rows, key r ∈ t.selectKeys p le m → p r = true := by
    intro r hr hkey
    rcases exists_row_of_mem_selectKeys hkey with ⟨s, hs, hp, hsame⟩
    rwa [row_unique hs hr hsame] at hp
  generalize t.selectKeys p le m = ks at helig ⊢
  generalize t.rows = rows at hclears helig ⊢
  induction rows with
  | nil => rfl
  | cons r rows ih =>
      have hrest := ih (fun s hs => hclears s (List.mem_cons_of_mem _ hs))
        fun s hs => helig s (List.mem_cons_of_mem _ hs)
      simp only [decide_eq_true_eq] at hrest
      by_cases hin : key r ∈ ks
      · have hp := helig r List.mem_cons_self hin
        simp [hin, hp, hclears r List.mem_cons_self hp, hrest]
      · by_cases hp : p r = true <;> simp [hin, hp, hrest]

/-- A second selection finds the rows after the first. -/
theorem selectKeys_updateFirst (hsep : Separates le p t) (hm : 0 ≤ m) (hn : 0 ≤ n)
    (hclears : ∀ r ∈ t.rows, p r = true → p (u.set r) = false) :
    t.selectKeys p le (m + n) =
      t.selectKeys p le m ++ (t.updateFirst p le m u).1.selectKeys p le n := by
  rw [selectKeys, selectKeys, selectKeys, filter_updateFirst hclears, insertionSort_left hsep hm,
    limitRows, limitRows, limitRows, if_neg (by omega), if_neg (by omega), if_neg (by omega),
    Int.toNat_add hm hn, List.take_add, List.map_append]

omit [Std.Total le] [IsTrans ρ le] [DecidableRel le] in
/-- Updates of disjoint sets of keys are one. -/
theorem updateWhere_mem_twice {ks ks' : List κ} (hdisjoint : ∀ k ∈ ks, k ∉ ks') :
    (t.updateWhere (fun r => decide (key r ∈ ks)) u).updateWhere
        (fun r => decide (key r ∈ ks')) u =
      t.updateWhere (fun r => decide (key r ∈ ks ++ ks')) u := by
  refine eq_of_rows_eq ?_
  simp only [updateWhere, List.map_map]
  refine List.map_congr_left fun r _ => ?_
  by_cases hin : key r ∈ ks
  · simp [hin, u.key_set, hdisjoint _ hin]
  · by_cases hin' : key r ∈ ks' <;> simp [hin, hin']

omit [Std.Total le] [IsTrans ρ le] [DecidableRel le] in
/-- So is what they return. -/
theorem returning_mem_twice {ks ks' : List κ} (hdisjoint : ∀ k ∈ ks, k ∉ ks') :
    (t.returning (fun r => decide (key r ∈ ks)) u ++
        (t.updateWhere (fun r => decide (key r ∈ ks)) u).returning
          (fun r => decide (key r ∈ ks')) u).Perm
      (t.returning (fun r => decide (key r ∈ ks ++ ks')) u) := by
  -- the second update returns rows that the first left alone
  have hsecond : (t.updateWhere (fun r => decide (key r ∈ ks)) u).rows.filter
      (fun r => decide (key r ∈ ks')) = t.rows.filter fun r => decide (key r ∈ ks') := by
    simp only [updateWhere]
    generalize t.rows = rows
    induction rows with
    | nil => rfl
    | cons r rows ih =>
        simp only [decide_eq_true_eq] at ih
        by_cases hin : key r ∈ ks
        · simp [hin, u.key_set, hdisjoint _ hin, ih]
        · by_cases hin' : key r ∈ ks' <;> simp [hin, hin', ih]
  rw [returning, returning, hsecond, returning, ← List.map_append]
  refine List.Perm.map _ ?_
  generalize t.rows = rows
  induction rows with
  | nil => exact List.Perm.nil
  | cons r rows ih =>
      by_cases hin : key r ∈ ks
      · simpa [hin, hdisjoint _ hin] using ih
      · by_cases hin' : key r ∈ ks'
        · simpa [hin, hin'] using List.perm_middle.trans (ih.cons r)
        · simpa [hin, hin'] using ih

/-- Two bounded updates, one after the other, are one. -/
theorem updateFirst_updateFirst (hsep : Separates le p t) (hm : 0 ≤ m) (hn : 0 ≤ n)
    (hclears : ∀ r ∈ t.rows, p r = true → p (u.set r) = false) :
    let first := t.updateFirst p le m u
    let second := first.1.updateFirst p le n u
    second.1 = (t.updateFirst p le (m + n) u).1 ∧
      (first.2 ++ second.2).Perm (t.updateFirst p le (m + n) u).2 := by
  have hkeys := selectKeys_updateFirst (u := u) hsep hm hn hclears
  have hdisjoint : ∀ k ∈ t.selectKeys p le m,
      k ∉ (t.updateFirst p le m u).1.selectKeys p le n := by
    have hnodup : (t.selectKeys p le (m + n)).Nodup := nodup_selectKeys t p (m + n)
    rw [hkeys] at hnodup
    exact fun k hk => List.disjoint_of_nodup_append hnodup hk
  have htables := updateWhere_mem_twice (t := t) (u := u) hdisjoint
  have hrows := returning_mem_twice (t := t) (u := u) hdisjoint
  rw [← hkeys] at htables hrows
  exact ⟨htables, hrows⟩

end Twice

end KeyedTable

end Relational
