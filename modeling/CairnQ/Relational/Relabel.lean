import CairnQ.Relational.KeyedTable

/-!
# Relabelled tables

A map of rows that keeps the primary keys carries a table over to rows of another type.  A
statement that decides alike on a row and on its image does the same to both tables.

Main results:

- Theorem `find?_relabel`: a point lookup.
- Theorem `selectKeys_relabel`: a bounded ordered selection.
- Theorems `relabel_updateWhere`, `returning_relabel`, `relabel_deleteWhere` and
  `insert?_relabel`: the statements.
-/

namespace Relational

variable {κ ρ σ : Type} {key : ρ → κ} {key' : σ → κ}

/-- A map of rows that keeps their keys. -/
structure Relabelling (key : ρ → κ) (key' : σ → κ) where
  map : ρ → σ
  key_map : ∀ r, key' (map r) = key r

namespace KeyedTable

/-- The table of the images. -/
def relabel (t : KeyedTable key) (f : Relabelling key key') : KeyedTable key' where
  rows := t.rows.map f.map
  nodup := by
    have hkeys : (t.rows.map f.map).map key' = t.rows.map key := by
      rw [List.map_map]
      exact List.map_congr_left fun r _ => f.key_map r
    rw [hkeys]
    exact t.nodup

variable {f : Relabelling key key'} {p : ρ → Bool} {p' : σ → Bool}

theorem filter_map_of_agree (hp : ∀ r, p' (f.map r) = p r) (rows : List ρ) :
    (rows.map f.map).filter p' = (rows.filter p).map f.map := by
  have hcomp : p' ∘ f.map = p := funext hp
  rw [List.filter_map, hcomp]

/-- A bounded ordered selection picks the same keys. -/
theorem selectKeys_relabel (t : KeyedTable key) {le : ρ → ρ → Prop} [DecidableRel le]
    {le' : σ → σ → Prop} [DecidableRel le'] (hp : ∀ r, p' (f.map r) = p r)
    (hle : ∀ r s, le r s ↔ le' (f.map r) (f.map s)) (limit : Int) :
    (t.relabel f).selectKeys p' le' limit = t.selectKeys p le limit := by
  have hsorted : ((t.rows.map f.map).filter p').insertionSort le' =
      ((t.rows.filter p).insertionSort le).map f.map := by
    rw [filter_map_of_agree hp]
    exact (List.map_insertionSort le le' f.map _ fun r _ s _ => hle r s).symm
  have hkeys : key' ∘ f.map = key := funext f.key_map
  simp only [selectKeys, relabel, hsorted, limitRows]
  split
  · rw [List.map_map, hkeys]
  · rw [← List.map_take, List.map_map, hkeys]

section Updates

variable {u : RowUpdate key} {u' : RowUpdate key'}

theorem relabel_updateWhere (t : KeyedTable key) (hp : ∀ r, p' (f.map r) = p r)
    (hu : ∀ r, u'.set (f.map r) = f.map (u.set r)) :
    (t.relabel f).updateWhere p' u' = (t.updateWhere p u).relabel f := by
  have hrows : (t.rows.map f.map).map (fun r => if p' r then u'.set r else r) =
      (t.rows.map fun r => if p r then u.set r else r).map f.map := by
    rw [List.map_map, List.map_map]
    refine List.map_congr_left fun r _ => ?_
    simp only [Function.comp_apply, hp, hu]
    split <;> rfl
  simp only [updateWhere, relabel, hrows]

theorem returning_relabel (t : KeyedTable key) (hp : ∀ r, p' (f.map r) = p r)
    (hu : ∀ r, u'.set (f.map r) = f.map (u.set r)) :
    (t.relabel f).returning p' u' = (t.returning p u).map f.map := by
  have hset : u'.set ∘ f.map = f.map ∘ u.set := funext hu
  rw [returning, relabel, filter_map_of_agree hp, List.map_map, hset, ← List.map_map, returning]

end Updates

theorem relabel_deleteWhere (t : KeyedTable key) (hp : ∀ r, p' (f.map r) = p r) :
    (t.relabel f).deleteWhere p' = (t.deleteWhere p).relabel f := by
  have hrows : ((t.rows.map f.map).filter fun r => !p' r) =
      (t.rows.filter fun r => !p r).map f.map :=
    filter_map_of_agree (fun r => by rw [hp]) t.rows
  simp only [deleteWhere, relabel, hrows]

variable [DecidableEq κ]

/-- A point lookup finds the image. -/
theorem find?_relabel (t : KeyedTable key) (k : κ) :
    (t.relabel f).find? k = (t.find? k).map f.map := by
  have hsame : (fun r => decide (key' r = k)) ∘ f.map = fun r => decide (key r = k) :=
    funext fun r => by rw [Function.comp_apply, f.key_map]
  rw [find?, relabel, List.find?_map, hsame, find?]

/-- An insert is refused alike. -/
theorem insert?_relabel (t : KeyedTable key) (r : ρ) :
    (t.relabel f).insert? (f.map r) = (t.insert? r).map fun t => t.relabel f := by
  have hkeys : (t.relabel f).rows.map key' = t.rows.map key := by
    rw [relabel, List.map_map]
    exact List.map_congr_left fun r _ => f.key_map r
  by_cases h : key r ∈ t.rows.map key
  · have h' : key' (f.map r) ∈ (t.relabel f).rows.map key' := by rwa [hkeys, f.key_map]
    rw [insert?, insert?, dif_pos h, dif_pos h', Option.map_none]
  · have h' : key' (f.map r) ∉ (t.relabel f).rows.map key' := by rwa [hkeys, f.key_map]
    rw [insert?, insert?, dif_neg h, dif_neg h', Option.map_some]
    simp [relabel]

end KeyedTable

end Relational
