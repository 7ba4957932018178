import Mathlib.Algebra.BigOperators.Group.Finset.Basic
import Mathlib.Algebra.Order.BigOperators.Group.Finset
import Mathlib.Algebra.BigOperators.Ring.Finset
import Mathlib.Tactic.Ring

/-!
# Admission by credits

A stock with a limit, fed by finitely many holders.  A holder draws credits on one
look at the stock and spends them later; what it draws fits under the limit at the
moment of the look, and it looks only when its credits are used up.  The other holders'
credits are invisible to the look, and this is all by which the limit can be passed.

Main results:

- Theorem `Move.bounded`: a move keeps every holder within its grant, and the stock with
  the credits of all holders within the limit and the grants of all but one.
- Theorem `Bounded.stock_le`: so the stock is within that bound.
-/

namespace Admission

open Finset

variable {ι : Type}

/-- The stock and the credits of each holder. -/
structure Ledger (ι : Type) where
  stock : Nat
  credit : ι → Nat

namespace Ledger

/-- Nothing in stock and no credits. -/
def empty : Ledger ι where
  stock := 0
  credit := fun _ => 0

section Holders

variable [DecidableEq ι]

/-- The credits of one holder become the given number. -/
def setCredit (l : Ledger ι) (i : ι) (n : Nat) : Ledger ι :=
  { l with credit := Function.update l.credit i n }

@[simp]
theorem credit_setCredit (l : Ledger ι) (i : ι) (n : Nat) : (l.setCredit i n).credit i = n := by
  simp [setCredit]

/-- The credits of the other holders. -/
def othersCredit [Fintype ι] (l : Ledger ι) (i : ι) : Nat :=
  ∑ j ∈ univ.erase i, l.credit j

theorem sum_credit [Fintype ι] (l : Ledger ι) (i : ι) :
    ∑ j, l.credit j = l.credit i + l.othersCredit i :=
  (add_sum_erase _ _ (mem_univ i)).symm

@[simp]
theorem othersCredit_setCredit [Fintype ι] (l : Ledger ι) (i : ι) (n : Nat) :
    (l.setCredit i n).othersCredit i = l.othersCredit i := by
  refine sum_congr rfl fun j hj => ?_
  have hne : j ≠ i := ne_of_mem_erase hj
  simp [setCredit, hne]

end Holders

end Ledger

/-- What can happen to a ledger. -/
inductive Move [DecidableEq ι] (limit grant : Nat) : Ledger ι → Ledger ι → Prop
  | stay (l : Ledger ι) : Move limit grant l l
  /-- a holder without credits draws some that fit under the limit now -/
  | draw (l : Ledger ι) (i : ι) (n : Nat) (hnone : l.credit i = 0) (hgrant : n ≤ grant)
      (hroom : n = 0 ∨ l.stock + n ≤ limit) : Move limit grant l (l.setCredit i n)
  /-- a credit becomes stock -/
  | spend (l : Ledger ι) (i : ι) (n : Nat) (hcredit : l.credit i = n + 1) :
      Move limit grant l ({ l with stock := l.stock + 1 }.setCredit i n)
  /-- credits are given up -/
  | forfeit (l : Ledger ι) (i : ι) (n : Nat) (hcredit : n ≤ l.credit i) :
      Move limit grant l (l.setCredit i n)
  /-- stock leaves -/
  | depart (l : Ledger ι) (n : Nat) (hstock : n ≤ l.stock) :
      Move limit grant l { l with stock := n }

/-- The most the stock can come to: the limit, and the grants of all holders but one. -/
def softLimit (ι : Type) [Fintype ι] (limit grant : Nat) : Nat :=
  limit + (Fintype.card ι - 1) * grant

/-- Every holder is within its grant, and everything together within the soft limit. -/
structure Bounded [Fintype ι] (limit grant : Nat) (l : Ledger ι) : Prop where
  credit_le : ∀ i, l.credit i ≤ grant
  total_le : l.stock + ∑ i, l.credit i ≤ softLimit ι limit grant

theorem Bounded.empty [Fintype ι] (limit grant : Nat) :
    Bounded limit grant (Ledger.empty : Ledger ι) where
  credit_le := fun _ => Nat.zero_le grant
  total_le := by simp [Ledger.empty]

variable [Fintype ι] {limit grant : Nat} {l l' : Ledger ι}

/-- The other holders have at most one grant each. -/
theorem Bounded.othersCredit_le [DecidableEq ι] (h : Bounded limit grant l) (i : ι) :
    l.othersCredit i ≤ (Fintype.card ι - 1) * grant := by
  calc
    l.othersCredit i ≤ #(univ.erase i) • grant :=
      sum_le_card_nsmul _ _ _ fun j _ => h.credit_le j
    _ = (Fintype.card ι - 1) * grant := by
      rw [card_erase_of_mem (mem_univ i), card_univ, nsmul_eq_mul, Nat.cast_id]

/-- Changing one holder's credits keeps the bounds when they fit. -/
theorem Bounded.setCredit [DecidableEq ι] (h : Bounded limit grant l) (i : ι) (stock : Nat)
    {n : Nat}
    (hn : n ≤ grant)
    (htotal : stock + (n + l.othersCredit i) ≤ softLimit ι limit grant) :
    Bounded limit grant ({ l with stock := stock }.setCredit i n) where
  credit_le j := by
    by_cases hij : j = i
    · rw [hij, Ledger.credit_setCredit]
      exact hn
    · have hkept : ({ l with stock := stock }.setCredit i n).credit j = l.credit j := by
        simp [Ledger.setCredit, hij]
      rw [hkept]
      exact h.credit_le j
  total_le := by
    rw [Ledger.sum_credit _ i, Ledger.credit_setCredit, Ledger.othersCredit_setCredit]
    exact htotal

/-- A move keeps the bounds. -/
theorem Move.bounded [DecidableEq ι] (hmove : Move limit grant l l') (h : Bounded limit grant l) :
    Bounded limit grant l' := by
  have htotal := h.total_le
  cases hmove with
  | stay => exact h
  | draw i n hnone hgrant hroom =>
      have hothers := h.othersCredit_le i
      rw [l.sum_credit i, hnone] at htotal
      refine h.setCredit i l.stock hgrant ?_
      rcases hroom with rfl | hroom
      · exact htotal
      · unfold softLimit
        omega
  | spend i n hcredit =>
      have hle := h.credit_le i
      rw [l.sum_credit i, hcredit] at htotal
      exact h.setCredit i (l.stock + 1) (by omega) (by omega)
  | forfeit i n hcredit =>
      have hle := h.credit_le i
      rw [l.sum_credit i] at htotal
      exact h.setCredit i l.stock (by omega) (by omega)
  | depart n hstock =>
      refine ⟨h.credit_le, ?_⟩
      show n + ∑ i, l.credit i ≤ softLimit ι limit grant
      omega

/-- The stock is within the soft limit. -/
theorem Bounded.stock_le (h : Bounded limit grant l) : l.stock ≤ softLimit ι limit grant :=
  (Nat.le_add_right _ _).trans h.total_le

end Admission
