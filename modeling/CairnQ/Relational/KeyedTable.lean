import Mathlib.Data.List.Sort
import Mathlib.Data.List.Nodup
import Mathlib.Data.List.Perm.Subperm

/-!
# Keyed tables

A finite table whose rows carry a primary key, with the four ways a single SQL
statement touches it: insert, update-where, delete-where, and a bounded ordered
selection of keys.  The primary key constraint is a field of the table, so every
operation has to show that it keeps the keys distinct and no later proof
re-proves it.

Main results:

- Theorem `find?_updateWhere`: a point lookup after an update is the old lookup
  with the update applied where the condition held.
- Theorems `find?_deleteWhere` and `find?_insert?`: the same for deletion and
  insertion.
- Theorem `length_filter_mem_le`: at most as many rows carry a key of a list as
  the list is long.
-/

namespace Relational

variable {κ ρ : Type} {key : ρ → κ}

/-- A finite table whose rows carry pairwise distinct primary keys. -/
structure KeyedTable (key : ρ → κ) where
  rows : List ρ
  nodup : (rows.map key).Nodup

/-- A change of one row that leaves its primary key alone. -/
structure RowUpdate (key : ρ → κ) where
  set : ρ → ρ
  key_set : ∀ r, key (set r) = key r

/-! ## Bounded ordered selection -/

/-- `limit n`: a negative bound selects everything. -/
def limitRows {α : Type} (limit : Int) (rows : List α) : List α :=
  if limit < 0 then rows else rows.take limit.toNat

theorem mem_of_mem_limitRows {α : Type} {limit : Int} {rows : List α} {a : α}
    (h : a ∈ limitRows limit rows) : a ∈ rows := by
  unfold limitRows at h
  split at h
  · exact h
  · exact List.mem_of_mem_take h

theorem length_limitRows_le {α : Type} {limit : Int} (hlimit : 0 ≤ limit) (rows : List α) :
    ((limitRows limit rows).length : Int) ≤ limit := by
  unfold limitRows
  rw [if_neg (by omega), List.length_take]
  omega

namespace KeyedTable

/-- The table without rows. -/
def empty : KeyedTable key where
  rows := []
  nodup := List.nodup_nil

/-- `select key from t where p order by le limit n`. -/
def selectKeys (t : KeyedTable key) (p : ρ → Bool) (le : ρ → ρ → Prop) [DecidableRel le]
    (limit : Int) : List κ :=
  (limitRows limit ((t.rows.filter p).insertionSort le)).map key

/-- A selected key belongs to a row that satisfies the condition. -/
theorem exists_row_of_mem_selectKeys {t : KeyedTable key} {p : ρ → Bool}
    {le : ρ → ρ → Prop} [DecidableRel le] {limit : Int} {k : κ}
    (h : k ∈ t.selectKeys p le limit) : ∃ r ∈ t.rows, p r = true ∧ key r = k := by
  simp only [selectKeys, List.mem_map] at h
  rcases h with ⟨r, hr, rfl⟩
  have hmem := mem_of_mem_limitRows hr
  rw [List.mem_insertionSort, List.mem_filter] at hmem
  exact ⟨r, hmem.1, hmem.2, rfl⟩

/-- A nonnegative bound is respected. -/
theorem length_selectKeys_le (t : KeyedTable key) (p : ρ → Bool) (le : ρ → ρ → Prop)
    [DecidableRel le] {limit : Int} (hlimit : 0 ≤ limit) :
    ((t.selectKeys p le limit).length : Int) ≤ limit := by
  rw [selectKeys, List.length_map]
  exact length_limitRows_le hlimit _

/-! ## Statements -/

/-- `update t set u where p`. -/
def updateWhere (t : KeyedTable key) (p : ρ → Bool) (u : RowUpdate key) : KeyedTable key where
  rows := t.rows.map fun r => if p r then u.set r else r
  nodup := by
    have hkeys : (t.rows.map fun r => if p r then u.set r else r).map key = t.rows.map key := by
      rw [List.map_map]
      refine List.map_congr_left fun r _ => ?_
      by_cases hp : p r <;> simp [hp, u.key_set]
    rw [hkeys]
    exact t.nodup

/-- The rows that `update t set u where p returning *` hands back. -/
def returning (t : KeyedTable key) (p : ρ → Bool) (u : RowUpdate key) : List ρ :=
  (t.rows.filter p).map u.set

/-- Store a new version of the row under its key. -/
def replaceWith [DecidableEq κ] (r : ρ) : RowUpdate key where
  set s := if key s = key r then r else s
  key_set s := by
    split
    · rename_i h
      exact h.symm
    · rfl

/-- `delete from t where p`. -/
def deleteWhere (t : KeyedTable key) (p : ρ → Bool) : KeyedTable key where
  rows := t.rows.filter fun r => !p r
  nodup := (List.filter_sublist.map key).nodup t.nodup

variable [DecidableEq κ]

/-- The row stored under a key. -/
def find? (t : KeyedTable key) (k : κ) : Option ρ :=
  t.rows.find? fun r => key r = k

/-- `insert into t values r`, refused when the key is taken. -/
def insert? (t : KeyedTable key) (r : ρ) : Option (KeyedTable key) :=
  if h : key r ∈ t.rows.map key then none
  else some
    { rows := t.rows ++ [r]
      nodup := by
        rw [List.map_append, List.map_singleton]
        exact t.nodup.append (List.nodup_singleton _) (by simpa using h) }

/-! ## Point lookups -/

omit [DecidableEq κ] in
/-- Two rows under one key are the same row. -/
theorem row_unique {t : KeyedTable key} {r s : ρ} (hr : r ∈ t.rows) (hs : s ∈ t.rows)
    (h : key r = key s) : r = s :=
  List.inj_on_of_nodup_map t.nodup hr hs h

theorem find?_eq_some_iff {t : KeyedTable key} {k : κ} {r : ρ} :
    t.find? k = some r ↔ r ∈ t.rows ∧ key r = k := by
  unfold find?
  constructor
  · intro h
    exact ⟨List.mem_of_find?_eq_some h, by simpa using List.find?_some h⟩
  · rintro ⟨hmem, rfl⟩
    cases hfind : t.rows.find? fun s => key s = key r with
    | none => exact absurd (List.find?_eq_none.mp hfind r hmem) (by simp)
    | some s =>
        have hkey : key s = key r := by simpa using List.find?_some hfind
        rw [row_unique (List.mem_of_find?_eq_some hfind) hmem hkey]

theorem find?_eq_none_iff {t : KeyedTable key} {k : κ} :
    t.find? k = none ↔ ∀ r ∈ t.rows, key r ≠ k := by
  simp [find?, List.find?_eq_none]

theorem key_of_find? {t : KeyedTable key} {k : κ} {r : ρ} (h : t.find? k = some r) :
    key r = k :=
  (find?_eq_some_iff.mp h).2

theorem find?_of_mem {t : KeyedTable key} {r : ρ} (h : r ∈ t.rows) :
    t.find? (key r) = some r :=
  find?_eq_some_iff.mpr ⟨h, rfl⟩

/-- The rows under a key are the row stored there, if any. -/
theorem filter_key_eq (t : KeyedTable key) (k : κ) :
    (t.rows.filter fun r => decide (key r = k)) = (t.find? k).toList := by
  rcases t with ⟨rows, nodup⟩
  unfold find?
  induction rows with
  | nil => rfl
  | cons r rows ih =>
      rw [List.map_cons, List.nodup_cons] at nodup
      by_cases hr : key r = k
      · have hothers : (rows.filter fun s => decide (key s = k)) = [] := by
          refine List.filter_eq_nil_iff.mpr fun s hs => ?_
          rw [decide_eq_true_eq, ← hr]
          exact fun hkey => nodup.1 (List.mem_map.mpr ⟨s, hs, hkey⟩)
        simp [hr, hothers]
      · simpa [hr] using ih nodup.2

/-- The row under a key, if it meets a condition. -/
theorem find?_rows_and_key (t : KeyedTable key) (p : ρ → Bool) (k : κ) :
    (t.rows.find? fun r => p r && decide (key r = k)) = (t.find? k).filter p := by
  cases hfind : t.find? k with
  | none =>
      rw [Option.filter_none, List.find?_eq_none]
      intro r hr
      simp [find?_eq_none_iff.mp hfind r hr]
  | some r =>
      rcases find?_eq_some_iff.mp hfind with ⟨hr, rfl⟩
      by_cases hp : p r = true
      · rw [Option.filter_some_pos hp]
        cases hsearch : t.rows.find? fun s => p s && decide (key s = key r) with
        | none => exact absurd (List.find?_eq_none.mp hsearch r hr) (by simp [hp])
        | some s =>
            have hs : p s = true ∧ key s = key r := by simpa using List.find?_some hsearch
            rw [row_unique (List.mem_of_find?_eq_some hsearch) hr hs.2]
      · rw [Option.filter_some_neg (by simpa using hp), List.find?_eq_none]
        intro s hs hboth
        rw [Bool.and_eq_true, decide_eq_true_eq] at hboth
        exact hp (row_unique hs hr hboth.2 ▸ hboth.1)

@[simp]
theorem find?_empty (k : κ) : (empty : KeyedTable key).find? k = none :=
  rfl

/-- A lookup after an update. -/
theorem find?_updateWhere (t : KeyedTable key) (p : ρ → Bool) (u : RowUpdate key) (k : κ) :
    (t.updateWhere p u).find? k = (t.find? k).map fun r => if p r then u.set r else r := by
  have hkey : ∀ r, key (if p r then u.set r else r) = key r := by
    intro r
    by_cases hp : p r <;> simp [hp, u.key_set]
  simp only [find?, updateWhere, List.find?_map]
  congr 2
  funext r
  simp [hkey]

/-- A lookup after a new version of one row is stored. -/
theorem find?_replaceWith (t : KeyedTable key) (r : ρ) (k : κ) :
    (t.updateWhere (fun s => key s = key r) (replaceWith r)).find? k =
      if key r = k then (t.find? k).map fun _ => r else t.find? k := by
  rw [find?_updateWhere]
  cases hfind : t.find? k with
  | none => simp
  | some s =>
      have hs : key s = k := (find?_eq_some_iff.mp hfind).2
      by_cases hk : key r = k
      · simp [hs, hk, replaceWith]
      · have hne : ¬key s = key r := by rw [hs]; exact Ne.symm hk
        simp [hk, hne]

/-- A lookup after a deletion. -/
theorem find?_deleteWhere (t : KeyedTable key) (p : ρ → Bool) (k : κ) :
    (t.deleteWhere p).find? k = (t.find? k).filter fun r => !p r := by
  cases hfind : t.find? k with
  | none =>
      rw [Option.filter_none, find?_eq_none_iff]
      intro r hr
      exact find?_eq_none_iff.mp hfind r (List.mem_filter.mp hr).1
  | some r =>
      rcases find?_eq_some_iff.mp hfind with ⟨hmem, rfl⟩
      by_cases hp : p r = true
      · rw [Option.filter_some_neg (by simp [hp]), find?_eq_none_iff]
        intro s hs hkey
        rcases List.mem_filter.mp hs with ⟨hsmem, hsp⟩
        rw [row_unique hsmem hmem hkey] at hsp
        simp [hp] at hsp
      · rw [Option.filter_some_pos (by simpa using hp), find?_eq_some_iff]
        exact ⟨List.mem_filter.mpr ⟨hmem, by simpa using hp⟩, rfl⟩

theorem insert?_eq_none_iff {t : KeyedTable key} {r : ρ} :
    t.insert? r = none ↔ (t.find? (key r)).isSome := by
  unfold insert?
  split
  · rename_i h
    rcases List.mem_map.mp h with ⟨s, hs, hkey⟩
    simp [← hkey, find?_of_mem hs]
  · rename_i h
    simp only [reduceCtorEq, false_iff, Bool.not_eq_true, Option.isSome_eq_false_iff,
      Option.isNone_iff_eq_none, find?_eq_none_iff]
    intro s hs hkey
    exact h (List.mem_map.mpr ⟨s, hs, hkey⟩)

/-- A lookup after an accepted insert. -/
theorem find?_insert? {t t' : KeyedTable key} {r : ρ} (h : t.insert? r = some t') (k : κ) :
    t'.find? k = if key r = k then some r else t.find? k := by
  have hfree : t.find? (key r) = none := by
    have hnone : t.insert? r ≠ none := by simp [h]
    rw [Ne, insert?_eq_none_iff] at hnone
    simpa using hnone
  unfold insert? at h
  split at h
  · cases h
  · cases h
    simp only [find?, List.find?_append, List.find?_singleton, decide_eq_true_eq]
    by_cases hk : key r = k
    · subst hk
      simp only [find?] at hfree
      simp [hfree]
    · simp [hk]

/-! ## Rows after a change -/

theorem mem_insert? {t t' : KeyedTable key} {r s : ρ} (h : t.insert? r = some t') :
    s ∈ t'.rows ↔ s ∈ t.rows ∨ s = r := by
  unfold insert? at h
  split at h
  · cases h
  · cases h
    simp

/-- A row after a new version of one row is stored. -/
theorem mem_replaceWith {t : KeyedTable key} {r s : ρ}
    (h : s ∈ (t.updateWhere (fun s => key s = key r) (replaceWith r)).rows) :
    s = r ∨ (s ∈ t.rows ∧ key s ≠ key r) := by
  rcases List.mem_map.mp h with ⟨s₀, hs₀, rfl⟩
  by_cases hk : key s₀ = key r
  · exact Or.inl (by simp [hk, replaceWith])
  · exact Or.inr (by simp [hk, hs₀])

omit [DecidableEq κ] in
theorem mem_deleteWhere {t : KeyedTable key} {p : ρ → Bool} {s : ρ} :
    s ∈ (t.deleteWhere p).rows ↔ s ∈ t.rows ∧ p s = false := by
  simp [deleteWhere]

/-! ## Returned rows -/

omit [DecidableEq κ] in
theorem mem_returning_iff {t : KeyedTable key} {p : ρ → Bool} {u : RowUpdate key} {s : ρ} :
    s ∈ t.returning p u ↔ ∃ r ∈ t.rows, p r = true ∧ u.set r = s := by
  simp only [returning, List.mem_map, List.mem_filter, and_assoc]

/-- Every returned row is the updated version of the row stored under its key. -/
theorem exists_find?_of_mem_returning {t : KeyedTable key} {p : ρ → Bool} {u : RowUpdate key}
    {s : ρ} (h : s ∈ t.returning p u) :
    ∃ r, t.find? (key s) = some r ∧ p r = true ∧ u.set r = s := by
  rcases mem_returning_iff.mp h with ⟨r, hr, hp, rfl⟩
  exact ⟨r, by rw [u.key_set]; exact find?_of_mem hr, hp, rfl⟩

/-- The update returns the new version of every row it selects. -/
theorem mem_returning_of_find? {t : KeyedTable key} {p : ρ → Bool} {u : RowUpdate key} {k : κ}
    {r : ρ} (h : t.find? k = some r) (hp : p r = true) : u.set r ∈ t.returning p u :=
  mem_returning_iff.mpr ⟨r, (find?_eq_some_iff.mp h).1, hp, rfl⟩

omit [DecidableEq κ] in
/-- No row is returned twice. -/
theorem nodup_returning (t : KeyedTable key) (p : ρ → Bool) (u : RowUpdate key) :
    ((t.returning p u).map key).Nodup := by
  have hkeys : (t.returning p u).map key = (t.rows.filter p).map key := by
    rw [returning, List.map_map]
    exact List.map_congr_left fun r _ => u.key_set r
  rw [hkeys]
  exact (List.filter_sublist.map key).nodup t.nodup

omit [DecidableEq κ] in
/-- An update adds no row to those that meet a condition when it puts none of them there. -/
theorem countP_updateWhere_le {t : KeyedTable key} {p q : ρ → Bool} {u : RowUpdate key}
    (h : ∀ r ∈ t.rows, p r = true → q (u.set r) = true → q r = true) :
    (t.updateWhere p u).rows.countP q ≤ t.rows.countP q := by
  rw [updateWhere, List.countP_map]
  refine List.countP_mono_left fun r hr hq => ?_
  by_cases hp : p r = true
  · exact h r hr hp (by simpa [hp] using hq)
  · simpa [hp] using hq

omit [DecidableEq κ] in
theorem countP_deleteWhere_le (t : KeyedTable key) (p q : ρ → Bool) :
    (t.deleteWhere p).rows.countP q ≤ t.rows.countP q :=
  List.filter_sublist.countP_le

theorem rows_insert? {t t' : KeyedTable key} {r : ρ} (h : t.insert? r = some t') :
    t'.rows = t.rows ++ [r] := by
  unfold insert? at h
  split at h
  · cases h
  · cases h
    rfl

/-- No more rows carry a key of a list than the list has entries. -/
theorem length_filter_mem_le (t : KeyedTable key) (ks : List κ) :
    (t.rows.filter fun r => key r ∈ ks).length ≤ ks.length := by
  rw [← List.length_map (f := key)]
  refine List.Subperm.length_le (List.Nodup.subperm ?_ ?_)
  · exact (List.filter_sublist.map key).nodup t.nodup
  · intro k hk
    simp only [List.mem_map, List.mem_filter, decide_eq_true_eq] at hk
    rcases hk with ⟨r, ⟨-, hr⟩, rfl⟩
    exact hr

end KeyedTable

end Relational
