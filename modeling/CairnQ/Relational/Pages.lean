import CairnQ.Relational.RowOrder

/-!
# Pages

A listing read page by page: the rows that meet a condition, sorted, past an offset and up to a
limit.  Where the order separates the rows, a row stands as far down as there are rows before it,
which says what page it is on; so between two tables it can only move by rows that came or went.

Main results:

- Theorem `mem_page_iff`: a page holds the rows of its ranks.
- Theorem `countP_le_of_keys`: rows that all reappear under their keys are no fewer.
-/

namespace Relational

variable {κ ρ : Type} {key : ρ → κ}

namespace KeyedTable

/-- `select * from t where p order by le limit n offset k`. -/
def page (t : KeyedTable key) (p : ρ → Bool) (le : ρ → ρ → Prop) [DecidableRel le]
    (limit offset : Nat) : List ρ :=
  (((t.rows.filter p).insertionSort le).drop offset).take limit

/-- The rows that meet the condition and come before a row. -/
def rank (t : KeyedTable key) (p : ρ → Bool) (le : ρ → ρ → Prop) [DecidableRel le] (r : ρ) : Nat :=
  t.rows.countP fun s => p s && !decide (le r s)

/-- In a sorted list without ties a row stands behind the rows that come before it. -/
theorem getElem?_countP {le : ρ → ρ → Prop} [DecidableRel le] [Std.Total le] {l : List ρ}
    (hsorted : l.Pairwise le) (hnodup : l.Nodup)
    (hsep : ∀ r ∈ l, ∀ s ∈ l, le r s → le s r → r = s) {r : ρ} (hr : r ∈ l) :
    l[l.countP fun s => !decide (le r s)]? = some r := by
  rcases List.append_of_mem hr with ⟨before, after, rfl⟩
  rcases List.pairwise_append.mp hsorted with ⟨-, hafter, hcross⟩
  have hself : le r r := by
    rcases Std.Total.total (r := le) r r with h | h <;> exact h
  have hbefore : before.countP (fun s => !decide (le r s)) = before.length := by
    refine List.countP_eq_length.mpr fun s hs => ?_
    have hle := hcross s hs r List.mem_cons_self
    have hne : s ≠ r := by
      rintro rfl
      exact List.disjoint_of_nodup_append hnodup hs List.mem_cons_self
    have hnot : ¬le r s := fun h =>
      hne (hsep s (List.mem_append_left _ hs) r hr hle h)
    simp [hnot]
  have hrest : (r :: after).countP (fun s => !decide (le r s)) = 0 := by
    refine List.countP_eq_zero.mpr fun s hs => ?_
    rcases List.mem_cons.mp hs with rfl | hs
    · simp [hself]
    · simp [(List.pairwise_cons.mp hafter).1 s hs]
  rw [List.countP_append, hbefore, hrest, Nat.add_zero, List.getElem?_append_right (Nat.le_refl _),
    Nat.sub_self]
  rfl

/-- A page holds the rows of its ranks. -/
theorem mem_page_iff {t : KeyedTable key} {p : ρ → Bool} {le : ρ → ρ → Prop} [DecidableRel le]
    [Std.Total le] [IsTrans ρ le] (hsep : t.Separates le p) (limit offset : Nat) {r : ρ}
    (hr : r ∈ t.rows) (hp : p r = true) :
    r ∈ t.page p le limit offset ↔ offset ≤ t.rank p le r ∧ t.rank p le r < offset + limit := by
  have hperm := List.perm_insertionSort le (t.rows.filter p)
  have hmem : ∀ {s}, s ∈ (t.rows.filter p).insertionSort le ↔ s ∈ t.rows ∧ p s = true := by
    intro s
    rw [List.mem_insertionSort, List.mem_filter]
  have hnodup : ((t.rows.filter p).insertionSort le).Nodup :=
    hperm.nodup_iff.mpr (t.nodup.of_map.filter _)
  have hrank : ((t.rows.filter p).insertionSort le).countP (fun s => !decide (le r s)) =
      t.rank p le r := by
    rw [hperm.countP_eq, List.countP_filter, rank]
    exact List.countP_congr fun s _ => by simp [and_comm]
  have hat := getElem?_countP (List.pairwise_insertionSort le _) hnodup
    (fun a ha b hb => hsep a (hmem.mp ha).1 b (hmem.mp hb).1 (hmem.mp ha).2 (hmem.mp hb).2)
    (hmem.mpr ⟨hr, hp⟩)
  rw [hrank] at hat
  have honly : ∀ i, ((t.rows.filter p).insertionSort le)[i]? = some r → i = t.rank p le r := by
    intro i hi
    rcases List.getElem?_eq_some_iff.mp hi with ⟨hlt, -⟩
    exact (List.getElem?_inj hlt hnodup).mp (hi.trans hat.symm)
  constructor
  · intro h
    rcases List.mem_iff_getElem?.mp h with ⟨i, hi⟩
    rw [page, List.getElem?_take, List.getElem?_drop] at hi
    split at hi
    · have hrow := honly _ hi
      omega
    · cases hi
  · rintro ⟨hle, hlt⟩
    refine List.mem_iff_getElem?.mpr ⟨t.rank p le r - offset, ?_⟩
    rw [page, List.getElem?_take, if_pos (by omega), List.getElem?_drop, Nat.add_sub_cancel' hle]
    exact hat

/-- A page that is not full ends the listing. -/
theorem rank_lt_of_page {t : KeyedTable key} {p : ρ → Bool} {le : ρ → ρ → Prop} [DecidableRel le]
    [Std.Total le] {limit offset : Nat} (hshort : (t.page p le limit offset).length < limit)
    {r : ρ} (hr : r ∈ t.rows) (hp : p r = true) : t.rank p le r < offset + limit := by
  have hself : le r r := by
    rcases Std.Total.total (r := le) r r with h | h <;> exact h
  have hcount : t.rank p le r < t.rows.countP p := by
    have hfewer : ∀ l : List ρ, l.countP (fun s => p s && !decide (le r s)) ≤ l.countP p :=
      fun l => List.countP_mono_left fun s _ h => (Bool.and_eq_true_iff.mp h).1
    rcases List.append_of_mem hr with ⟨before, after, hrows⟩
    have hbefore := hfewer before
    have hafter := hfewer after
    rw [rank, hrows, List.countP_append, List.countP_append, List.countP_cons, List.countP_cons]
    simp only [hp, hself, decide_true, Bool.not_true, Bool.and_false, Bool.false_eq_true, if_false,
      if_true]
    omega
  rw [page, List.length_take, List.length_drop, List.length_insertionSort,
    ← List.countP_eq_length_filter] at hshort
  omega

/-- Rows that all reappear under their keys are no fewer. -/
theorem countP_le_of_keys {t t' : KeyedTable key} {p p' : ρ → Bool}
    (h : ∀ r ∈ t.rows, p r = true → ∃ r' ∈ t'.rows, key r' = key r ∧ p' r' = true) :
    t.rows.countP p ≤ t'.rows.countP p' := by
  have hsubset : (t.rows.filter p).map key ⊆ (t'.rows.filter p').map key := by
    intro k hk
    rcases List.mem_map.mp hk with ⟨r, hr, rfl⟩
    rcases h r (List.mem_filter.mp hr).1 (List.mem_filter.mp hr).2 with ⟨r', hr', hkey, hp'⟩
    exact List.mem_map.mpr ⟨r', List.mem_filter.mpr ⟨hr', hp'⟩, hkey⟩
  have hnodup : ((t.rows.filter p).map key).Nodup := (List.filter_sublist.map key).nodup t.nodup
  have hlength := (List.subperm_of_subset hnodup hsubset).length_le
  rwa [List.length_map, List.length_map, ← List.countP_eq_length_filter,
    ← List.countP_eq_length_filter] at hlength

end KeyedTable

end Relational
