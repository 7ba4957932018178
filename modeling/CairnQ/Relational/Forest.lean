import Mathlib.Data.List.Nodup
import Mathlib.Logic.Relation

/-!
# Labelled forests

A forest that grows node by node: a new node is a top, labelled by its own key, or the child of
a node that is there, whose label it takes over.  The label then says which tree a node is in.

Main results:

- Theorem `Grows.exists_top`: every node descends from a top.
- Theorem `Grows.descends_iff_label`: a node descends from a top exactly when it carries the
  key of that top.
- Theorem `Grows.acyclic`: no node is its own ancestor.
-/

namespace Relational

variable {α κ : Type} (key : α → κ) (parent : α → Option κ) (label : α → κ)

/-- A node finds its place among those that are there: as a top, or under one of them. -/
def Places (xs : List α) (x : α) : Prop :=
  (parent x = none ∧ label x = key x) ∨ ∃ y ∈ xs, parent x = some (key y) ∧ label x = label y

/-- The nodes of a growing forest, the youngest first. -/
inductive Grows : List α → Prop
  | nil : Grows []
  | cons {x : α} {xs : List α} (hrest : Grows xs) (hfresh : key x ∉ xs.map key)
      (hplace : Places key parent label xs x) : Grows (x :: xs)

/-- The second node is among the given ones, and the parent of the first. -/
def ParentIn (xs : List α) (x y : α) : Prop :=
  y ∈ xs ∧ parent x = some (key y)

/-- A node descends from its ancestors and from itself. -/
def Descends (xs : List α) : α → α → Prop :=
  Relation.ReflTransGen (ParentIn key parent xs)

variable {key parent label} {xs : List α} {x y z : α}

theorem Grows.nodup (h : Grows key parent label xs) : (xs.map key).Nodup := by
  induction h with
  | nil => exact List.nodup_nil
  | cons _ hfresh _ ih => exact List.nodup_cons.mpr ⟨hfresh, ih⟩

/-- Two nodes with one key are the same node. -/
theorem Grows.eq_of_key (h : Grows key parent label xs) (hx : x ∈ xs) (hy : y ∈ xs)
    (hkey : key x = key y) : x = y :=
  List.inj_on_of_nodup_map h.nodup hx hy hkey

/-- Every node found its place among the older ones. -/
theorem Grows.places (h : Grows key parent label xs) (hx : x ∈ xs) :
    ∃ younger older, xs = younger ++ x :: older ∧ Places key parent label older x := by
  induction h with
  | nil => cases hx
  | @cons z xs _ _ hplace ih =>
      rcases List.mem_cons.mp hx with rfl | hin
      · exact ⟨[], xs, rfl, hplace⟩
      · rcases ih hin with ⟨younger, older, rfl, hplaced⟩
        exact ⟨z :: younger, older, rfl, hplaced⟩

/-- A child carries the label of its parent. -/
theorem Grows.label_of_parent (h : Grows key parent label xs) (hx : x ∈ xs)
    (hparent : ParentIn key parent xs x y) : label x = label y := by
  rcases h.places hx with ⟨younger, older, rfl, ⟨hnone, -⟩ | ⟨w, hw, hp, hlabel⟩⟩
  · rw [hparent.2] at hnone
    cases hnone
  · have hkey : key w = key y := Option.some.inj (hp.symm.trans hparent.2)
    have hmem : w ∈ younger ++ x :: older := by simp [hw]
    rw [← h.eq_of_key hmem hparent.1 hkey]
    exact hlabel

/-- No node has the youngest for its parent. -/
theorem Grows.parent_ne_youngest (h : Grows key parent label (z :: xs)) (hx : x ∈ z :: xs) :
    parent x ≠ some (key z) := by
  have hfresh := (List.nodup_cons.mp h.nodup).1
  intro hparent
  rcases h.places hx with ⟨younger, older, hsplit, ⟨hnone, -⟩ | ⟨w, hw, hp, -⟩⟩
  · rw [hparent] at hnone
    cases hnone
  · have hkey : key w = key z := Option.some.inj (hp.symm.trans hparent)
    -- the older nodes come after the youngest
    have hin : w ∈ xs := by
      cases younger with
      | nil =>
          cases hsplit
          exact hw
      | cons y younger =>
          cases hsplit
          simp [hw]
    exact hfresh (hkey ▸ List.mem_map_of_mem hin)

/-- Ancestors are nodes, and share their label with the descendant. -/
theorem Grows.label_eq (h : Grows key parent label xs) (hx : x ∈ xs)
    (hdescends : Descends key parent xs x y) : y ∈ xs ∧ label x = label y := by
  induction hdescends with
  | refl => exact ⟨hx, rfl⟩
  | tail _ hstep ih => exact ⟨hstep.1, ih.2.trans (h.label_of_parent ih.1 hstep)⟩

theorem Descends.cons (h : Descends key parent xs x y) : Descends key parent (z :: xs) x y := by
  have hle : ParentIn key parent xs ≤ ParentIn key parent (z :: xs) :=
    fun _ _ hp => ⟨List.mem_cons_of_mem _ hp.1, hp.2⟩
  exact Relation.ReflTransGen.mono hle _ _ h

/-- Every node descends from a top, whose key it carries. -/
theorem Grows.exists_top (h : Grows key parent label xs) (hx : x ∈ xs) :
    ∃ top ∈ xs, parent top = none ∧ label x = key top ∧ Descends key parent xs x top := by
  induction h generalizing x with
  | nil => cases hx
  | @cons z xs hrest _ hplace ih =>
      have hlift : ∀ x ∈ xs, ∃ top ∈ z :: xs, parent top = none ∧ label x = key top ∧
          Descends key parent (z :: xs) x top := by
        intro x hin
        rcases ih hin with ⟨top, htop, hnone, hlabel, hdescends⟩
        exact ⟨top, List.mem_cons_of_mem _ htop, hnone, hlabel, hdescends.cons⟩
      rcases List.mem_cons.mp hx with rfl | hin
      · rcases hplace with ⟨hnone, hlabel⟩ | ⟨y, hy, hparent, hlabel⟩
        · exact ⟨x, hx, hnone, hlabel, Relation.ReflTransGen.refl⟩
        · rcases hlift y hy with ⟨top, htop, hnone, htoplabel, hdescends⟩
          refine ⟨top, htop, hnone, hlabel.trans htoplabel, Relation.ReflTransGen.head ?_ hdescends⟩
          exact ⟨List.mem_cons_of_mem _ hy, hparent⟩
      · exact hlift x hin

/-- The label says which tree a node is in. -/
theorem Grows.descends_iff_label {top : α} (h : Grows key parent label xs) (hx : x ∈ xs)
    (htop : top ∈ xs) (hnone : parent top = none) :
    Descends key parent xs x top ↔ label x = key top := by
  have hown : label top = key top := by
    rcases h.places htop with ⟨_, _, _, ⟨-, hlabel⟩ | ⟨_, _, hparent, -⟩⟩
    · exact hlabel
    · rw [hnone] at hparent
      cases hparent
  constructor
  · intro hdescends
    exact (h.label_eq hx hdescends).2.trans hown
  · intro hlabel
    rcases h.exists_top hx with ⟨top', htop', -, hlabel', hdescends⟩
    rwa [h.eq_of_key htop htop' (hlabel.symm.trans hlabel')]

/-- Without the youngest node no other loses an ancestor. -/
theorem Grows.ancestor_of_cons (h : Grows key parent label (z :: xs)) (hx : x ∈ xs)
    (hancestor : Relation.TransGen (ParentIn key parent (z :: xs)) x y) :
    y ∈ xs ∧ Relation.TransGen (ParentIn key parent xs) x y := by
  have hstep : ∀ a b, a ∈ xs → ParentIn key parent (z :: xs) a b → ParentIn key parent xs a b := by
    intro a b ha hp
    rcases List.mem_cons.mp hp.1 with rfl | hb
    · exact absurd hp.2 (h.parent_ne_youngest (List.mem_cons_of_mem _ ha))
    · exact ⟨hb, hp.2⟩
  induction hancestor with
  | single hp =>
      have hp' := hstep _ _ hx hp
      exact ⟨hp'.1, Relation.TransGen.single hp'⟩
  | tail _ hp ih =>
      have hp' := hstep _ _ ih.1 hp
      exact ⟨hp'.1, ih.2.tail hp'⟩

/-- No node is its own ancestor. -/
theorem Grows.acyclic (h : Grows key parent label xs) (hx : x ∈ xs) :
    ¬Relation.TransGen (ParentIn key parent xs) x x := by
  induction h generalizing x with
  | nil => cases hx
  | @cons z xs hrest hfresh hplace ih =>
      have hwhole := Grows.cons hrest hfresh hplace
      rcases List.mem_cons.mp hx with rfl | hin
      · intro hcycle
        -- the last step of the cycle would lead to the youngest
        rcases Relation.TransGen.tail'_iff.mp hcycle with ⟨a, hreach, hp⟩
        exact hwhole.parent_ne_youngest (hwhole.label_eq hx hreach).1 hp.2
      · intro hcycle
        exact ih hin (hwhole.ancestor_of_cons hin hcycle).2

end Relational
