import CairnQ.Relational.KeyedTable
import Mathlib.Data.List.Perm.Basic

/-!
# Tables up to the order of their rows

Two engines that hold the same table need not enumerate its rows alike.  Everything
an update, a deletion or an insert does is independent of that order; a bounded
ordered selection is as well, provided its order leaves no two eligible rows tied.

Main results:

- Theorem `isFirst_firstRows`: sorting the eligible rows and taking a prefix yields the
  first of them.
- Theorem `SameRows.selectKeys_eq`: a selection whose order separates the eligible rows
  picks the same keys from both tables.
- Theorems `SameRows.updateWhere`, `SameRows.deleteWhere` and `SameRows.insert?`: the
  statements keep two tables the same.
-/

namespace Relational

variable {κ ρ : Type} {key : ρ → κ}

namespace KeyedTable

/-- Two tables hold the same rows, in whatever order. -/
def SameRows (t t' : KeyedTable key) : Prop :=
  t.rows.Perm t'.rows

/-- A comparison never leaves two eligible rows tied. -/
def Separates (le : ρ → ρ → Prop) (p : ρ → Bool) (t : KeyedTable key) : Prop :=
  ∀ r ∈ t.rows, ∀ s ∈ t.rows, p r = true → p s = true → le r s → le s r → r = s

/-! ## The first rows of an order -/

/-- The first {lit}`n` eligible rows in the order. -/
def firstRows (t : KeyedTable key) (p : ρ → Bool) (le : ρ → ρ → Prop) [DecidableRel le]
    (n : Nat) : List ρ :=
  ((t.rows.filter p).insertionSort le).take n

/-- A list holds the first {lit}`n` eligible rows of a table: in order, as many as there
are, and no eligible row left out comes before one of them. -/
structure IsFirst (t : KeyedTable key) (p : ρ → Bool) (le : ρ → ρ → Prop) (n : Nat)
    (chosen : List ρ) : Prop where
  eligible : ∀ r ∈ chosen, r ∈ t.rows ∧ p r = true
  nodup : chosen.Nodup
  sorted : chosen.Pairwise le
  length : chosen.length = min n (t.rows.countP p)
  least : ∀ r ∈ chosen, ∀ s ∈ t.rows, p s = true → s ∉ chosen → le r s

theorem isFirst_firstRows (t : KeyedTable key) (p : ρ → Bool) (le : ρ → ρ → Prop)
    [DecidableRel le] [Std.Total le] [IsTrans ρ le] (n : Nat) :
    t.IsFirst p le n (t.firstRows p le n) where
  eligible r hr := by
    have hmem := List.mem_of_mem_take hr
    rwa [List.mem_insertionSort, List.mem_filter] at hmem
  nodup := by
    have hrows : (t.rows.filter p).Nodup := t.nodup.of_map.filter _
    have hsorted := (List.perm_insertionSort le (t.rows.filter p)).nodup_iff.mpr hrows
    exact (List.take_sublist n _).nodup hsorted
  sorted := (List.pairwise_insertionSort le _).sublist (List.take_sublist n _)
  length := by
    rw [firstRows, List.length_take, List.length_insertionSort, List.countP_eq_length_filter]
  least r hr s hs hp hout := by
    have hpairs := List.pairwise_insertionSort le (t.rows.filter p)
    have hmem : s ∈ (t.rows.filter p).insertionSort le := by
      rw [List.mem_insertionSort, List.mem_filter]
      exact ⟨hs, hp⟩
    rw [← List.take_append_drop n ((t.rows.filter p).insertionSort le)] at hpairs hmem
    rcases List.mem_append.mp hmem with hin | hrest
    · exact absurd hin hout
    · exact (List.pairwise_append.mp hpairs).2.2 r hr s hrest

/-- An eligible row that comes before a selected one is selected. -/
theorem mem_selectKeys_of_before {t : KeyedTable key} {p : ρ → Bool} {le : ρ → ρ → Prop}
    [DecidableRel le] [Std.Total le] [IsTrans ρ le] {limit : Int} {r s : ρ}
    (hr : r ∈ t.rows) (hselected : key r ∈ t.selectKeys p le limit)
    (hs : s ∈ t.rows) (hp : p s = true) (hbefore : ¬le r s) :
    key s ∈ t.selectKeys p le limit := by
  have hchosen : r ∈ limitRows limit ((t.rows.filter p).insertionSort le) := by
    rcases List.mem_map.mp hselected with ⟨r', hr', hkey⟩
    have hmem := mem_of_mem_limitRows hr'
    rw [List.mem_insertionSort, List.mem_filter] at hmem
    rwa [← row_unique hmem.1 hr hkey]
  refine List.mem_map_of_mem ?_
  by_cases hlimit : limit < 0
  · rw [limitRows, if_pos hlimit, List.mem_insertionSort, List.mem_filter]
    exact ⟨hs, hp⟩
  · rw [limitRows, if_neg hlimit] at hchosen ⊢
    by_contra hout
    exact hbefore ((t.isFirst_firstRows p le limit.toNat).least r hchosen s hs hp hout)

/-- A bound that is not negative selects the keys of the first rows. -/
theorem selectKeys_eq_map_firstRows (t : KeyedTable key) (p : ρ → Bool) (le : ρ → ρ → Prop)
    [DecidableRel le] {limit : Int} (hlimit : 0 ≤ limit) :
    t.selectKeys p le limit = (t.firstRows p le limit.toNat).map key := by
  rw [selectKeys, limitRows, if_neg (by omega), firstRows]

/-- A row is among the first exactly when its key is. -/
theorem mem_map_firstRows_iff {t : KeyedTable key} {p : ρ → Bool} {le : ρ → ρ → Prop}
    [DecidableRel le] [Std.Total le] [IsTrans ρ le] {n : Nat} {r : ρ} (hr : r ∈ t.rows) :
    key r ∈ (t.firstRows p le n).map key ↔ r ∈ t.firstRows p le n := by
  constructor
  · intro h
    rcases List.mem_map.mp h with ⟨s, hs, hkey⟩
    have hmem := ((isFirst_firstRows t p le n).eligible s hs).1
    rwa [row_unique hmem hr hkey] at hs
  · exact List.mem_map_of_mem

/-- The rows a bounded selection names are the first rows. -/
theorem filter_mem_selectKeys_perm [DecidableEq κ] (t : KeyedTable key) (p : ρ → Bool)
    (le : ρ → ρ → Prop) [DecidableRel le] [Std.Total le] [IsTrans ρ le] {limit : Int}
    (hlimit : 0 ≤ limit) :
    (t.rows.filter fun r => decide (key r ∈ t.selectKeys p le limit)).Perm
      (t.firstRows p le limit.toNat) := by
  have hfirst := isFirst_firstRows t p le limit.toNat
  have hrows : (t.rows.filter fun r =>
      decide (key r ∈ t.selectKeys p le limit)).Nodup := t.nodup.of_map.filter _
  refine (List.perm_ext_iff_of_nodup hrows hfirst.nodup).mpr fun r => ?_
  rw [List.mem_filter, decide_eq_true_eq, selectKeys_eq_map_firstRows t p _ hlimit]
  constructor
  · rintro ⟨hr, hkey⟩
    exact (mem_map_firstRows_iff hr).mp hkey
  · intro hr
    exact ⟨(hfirst.eligible r hr).1, List.mem_map_of_mem hr⟩

/-- A bound that covers every eligible row selects them all. -/
theorem mem_selectKeys_iff_of_le {t : KeyedTable key} {p : ρ → Bool} {le : ρ → ρ → Prop}
    [DecidableRel le] {limit : Int} (hlimit : (t.rows.countP p : Int) ≤ limit) {r : ρ}
    (hr : r ∈ t.rows) : key r ∈ t.selectKeys p le limit ↔ p r = true := by
  have hall : t.firstRows p le limit.toNat = (t.rows.filter p).insertionSort le := by
    rw [firstRows, List.take_of_length_le]
    rw [List.length_insertionSort, ← List.countP_eq_length_filter]
    omega
  rw [selectKeys_eq_map_firstRows t p le (by omega), hall]
  constructor
  · intro hkey
    rcases List.mem_map.mp hkey with ⟨s, hs, hsame⟩
    rw [List.mem_insertionSort, List.mem_filter] at hs
    rw [← row_unique hs.1 hr hsame]
    exact hs.2
  · intro hp
    refine List.mem_map_of_mem ?_
    rw [List.mem_insertionSort, List.mem_filter]
    exact ⟨hr, hp⟩

namespace SameRows

variable {t t' : KeyedTable key}

theorem refl (t : KeyedTable key) : t.SameRows t :=
  List.Perm.refl _

/-- Eligible rows that no comparison leaves tied are sorted alike. -/
theorem insertionSort_filter_eq (h : t.SameRows t') {p : ρ → Bool} {le : ρ → ρ → Prop}
    [DecidableRel le] [Std.Total le] [IsTrans ρ le] (hsep : Separates le p t) :
    (t.rows.filter p).insertionSort le = (t'.rows.filter p).insertionSort le := by
  have hfilter : (t.rows.filter p).Perm (t'.rows.filter p) := h.filter p
  refine List.Perm.eq_of_pairwise ?_ (List.pairwise_insertionSort le _)
    (List.pairwise_insertionSort le _)
    (((List.perm_insertionSort le _).trans hfilter).trans (List.perm_insertionSort le _).symm)
  intro r s hr hs hrs hsr
  rw [List.mem_insertionSort, List.mem_filter] at hr hs
  exact hsep r hr.1 s (h.mem_iff.mpr hs.1) hr.2 hs.2 hrs hsr

/-- A selection whose order separates the eligible rows does not depend on how the
table enumerates them. -/
theorem selectKeys_eq (h : t.SameRows t') {p : ρ → Bool} {le : ρ → ρ → Prop} [DecidableRel le]
    [Std.Total le] [IsTrans ρ le] (hsep : Separates le p t) (limit : Int) :
    t.selectKeys p le limit = t'.selectKeys p le limit := by
  rw [selectKeys, selectKeys, h.insertionSort_filter_eq hsep]

/-- Conditions that agree on the stored rows update the same rows. -/
theorem updateWhere (h : t.SameRows t') {p p' : ρ → Bool} (hp : ∀ r ∈ t.rows, p r = p' r)
    (u : RowUpdate key) : (t.updateWhere p u).SameRows (t'.updateWhere p' u) := by
  have hmap : (t.rows.map fun r => if p r then u.set r else r) =
      t.rows.map fun r => if p' r then u.set r else r :=
    List.map_congr_left fun r hr => by rw [hp r hr]
  show (t.rows.map _).Perm (t'.rows.map _)
  rw [hmap]
  exact h.map _

theorem returning (h : t.SameRows t') {p p' : ρ → Bool} (hp : ∀ r ∈ t.rows, p r = p' r)
    (u : RowUpdate key) : (t.returning p u).Perm (t'.returning p' u) := by
  have hfilter : t.rows.filter p = t.rows.filter p' := List.filter_congr hp
  rw [KeyedTable.returning, KeyedTable.returning, hfilter]
  exact (h.filter p').map u.set

theorem deleteWhere (h : t.SameRows t') {p p' : ρ → Bool} (hp : ∀ r ∈ t.rows, p r = p' r) :
    (t.deleteWhere p).SameRows (t'.deleteWhere p') := by
  have hfilter : (t.rows.filter fun r => !p r) = t.rows.filter fun r => !p' r :=
    List.filter_congr fun r hr => by rw [hp r hr]
  show (t.rows.filter _).Perm (t'.rows.filter _)
  rw [hfilter]
  exact h.filter _

variable [DecidableEq κ]

/-- Lookups do not depend on the order of the rows. -/
theorem find?_eq (h : t.SameRows t') (k : κ) : t.find? k = t'.find? k := by
  cases hfind : t'.find? k with
  | none =>
      rw [find?_eq_none_iff] at hfind ⊢
      exact fun r hr => hfind r (h.mem_iff.mp hr)
  | some r =>
      rw [find?_eq_some_iff] at hfind ⊢
      exact ⟨h.mem_iff.mpr hfind.1, hfind.2⟩

/-- An insert is refused by both tables or accepted by both. -/
theorem insert? (h : t.SameRows t') (r : ρ) :
    (t.insert? r = none ∧ t'.insert? r = none) ∨
      ∃ u u', t.insert? r = some u ∧ t'.insert? r = some u' ∧ u.SameRows u' := by
  have hiff : t.insert? r = none ↔ t'.insert? r = none := by
    rw [insert?_eq_none_iff, insert?_eq_none_iff, h.find?_eq]
  cases hu : t.insert? r with
  | none => exact Or.inl ⟨rfl, hiff.mp hu⟩
  | some u =>
      cases hu' : t'.insert? r with
      | none => exact absurd (hiff.mpr hu') (by simp [hu])
      | some u' =>
          refine Or.inr ⟨u, u', rfl, rfl, ?_⟩
          show u.rows.Perm u'.rows
          rw [rows_insert? hu, rows_insert? hu']
          exact h.append_right _

end SameRows

end KeyedTable

end Relational
