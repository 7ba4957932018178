import Mathlib.Data.List.Basic
import Mathlib.Algebra.BigOperators.Group.List.Basic
import Mathlib.Algebra.GroupWithZero.Nat

/-!
# Slots

A machine keeps the activities it interleaves in a list and changes one of them at a
time: it sets the slot, modifies it, or erases it.  What membership, lookup, counts and
sums say before and after such a change.

Main results:

- Theorems `cases_getElem?_set` and `cases_getElem?_concat`: after a set or an append, a slot
  is the new one or an old one.
- Theorems `countP_modify` and `countP_eraseIdx`: what one change does to a count.
- Theorem `sum_map_set`: and what it does to a sum.
-/

namespace Transition

variable {α : Type} {l : List α} {n j : Nat} {a b : α}

theorem cases_getElem?_set (hset : (l.set n a)[j]? = some b) :
    (j = n ∧ b = a) ∨ (j ≠ n ∧ l[j]? = some b) := by
  rw [List.getElem?_set] at hset
  split at hset
  · rename_i hnj
    split at hset
    · exact Or.inl ⟨hnj.symm, (Option.some.inj hset).symm⟩
    · cases hset
  · rename_i hnj
    exact Or.inr ⟨fun h => hnj h.symm, hset⟩

/-- A slot of a list with a new last one. -/
theorem cases_getElem?_concat (h : (l ++ [a])[j]? = some b) :
    (j = l.length ∧ b = a) ∨ l[j]? = some b := by
  rcases Nat.lt_or_ge j l.length with hlt | hge
  · exact Or.inr ((List.getElem?_append_left hlt).symm.trans h)
  · have hlen := (List.getElem?_eq_some_iff.mp h).1
    simp only [List.length_append, List.length_singleton] at hlen
    have hlast : j = l.length := by omega
    rw [hlast, List.getElem?_concat_length] at h
    exact Or.inl ⟨hlast, (Option.some.inj h).symm⟩

/-- The elements of a list of which one was modified. -/
theorem mem_modify {f : α → α} (ha : l[n]? = some a) (hb : b ∈ l.modify n f) :
    b ∈ l ∨ b = f a := by
  rcases List.mem_iff_getElem?.mp hb with ⟨k, hk⟩
  rw [List.getElem?_modify] at hk
  by_cases hnk : n = k
  · subst hnk
    rw [ha] at hk
    simp only [Option.map_eq_map, Option.map_some, if_true, Option.some.injEq] at hk
    exact Or.inr hk.symm
  · simp only [hnk, if_false, Option.map_eq_map, Option.map_id'] at hk
    exact Or.inl (List.mem_of_getElem? hk)

theorem countP_modify (p : α → Bool) {f : α → α} (ha : l[n]? = some a) :
    (l.modify n f).countP p + (if p a then 1 else 0) =
      l.countP p + if p (f a) then 1 else 0 := by
  induction l generalizing n with
  | nil => cases ha
  | cons x l ih =>
      cases n with
      | zero =>
          cases ha
          simp only [List.modify_zero_cons, List.countP_cons]
          omega
      | succ n =>
          have hrest := ih ha
          simp only [List.modify_succ_cons, List.countP_cons]
          omega

theorem countP_eraseIdx (p : α → Bool) (ha : l[n]? = some a) :
    (l.eraseIdx n).countP p = l.countP p - if p a then 1 else 0 := by
  induction l generalizing n with
  | nil => cases ha
  | cons x l ih =>
      cases n with
      | zero =>
          cases ha
          simp [List.countP_cons]
      | succ n =>
          have hrest : l[n]? = some a := ha
          have hmem : p a = true → 0 < l.countP p := fun hp =>
            List.countP_pos_iff.mpr ⟨a, List.mem_of_getElem? hrest, hp⟩
          rw [List.eraseIdx_cons_succ, List.countP_cons, List.countP_cons, ih hrest]
          split
          · have := hmem ‹_›
            omega
          · omega

theorem sum_map_set (f : α → Nat) (ha : l[n]? = some a) (b : α) :
    ((l.set n b).map f).sum + f a = (l.map f).sum + f b := by
  induction l generalizing n with
  | nil => cases ha
  | cons x l ih =>
      cases n with
      | zero =>
          cases ha
          simp only [List.set_cons_zero, List.map_cons, List.sum_cons]
          omega
      | succ n =>
          have hrest := ih ha
          simp only [List.set_cons_succ, List.map_cons, List.sum_cons]
          omega

end Transition
