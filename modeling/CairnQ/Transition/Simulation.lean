import CairnQ.Transition.Machine
import Mathlib.Data.List.Forall2

/-!
# Simulation in blocks

A machine simulates another when every step of the other is matched by a block of its own steps.
A whole run is then matched block by block, and the two runs are related not only at their ends
but after every step.

Main results:

- Theorem `Machine.Steps.blocks`: a run is matched block by block.
-/

namespace Transition

variable {σ τ ℓ κ : Type}

namespace Machine

/-- A run is matched block by block, each a block for its step: after any number of its steps, and
as many blocks, the two machines are related. -/
theorem Steps.blocks {m : Machine σ ℓ} {n : Machine τ κ} {g : σ → ℓ → Prop} {R : σ → τ → Prop}
    {Block : ℓ → List κ → Prop}
    (hmatch : ∀ s t l s', R s t → g s l → m s l = some s' →
      ∃ block t', Block l block ∧ n.Steps anyStep t block t' ∧ R s' t')
    {s s' : σ} {ls : List ℓ} (h : m.Steps g s ls s') {t : τ} (hrel : R s t) :
    ∃ blocks : List (List κ), List.Forall₂ Block ls blocks ∧
      ∀ k, ∃ u v, m.Steps g s (ls.take k) u ∧ n.Steps anyStep t (blocks.take k).flatten v ∧
        R u v := by
  induction h generalizing t with
  | nil s =>
      refine ⟨[], .nil, fun k => ⟨s, t, ?_, ?_, hrel⟩⟩
      · rw [List.take_nil]
        exact .nil s
      · rw [List.take_nil]
        exact .nil t
  | @cons s mid _ l ls hguard hstep _ ih =>
      rcases hmatch s t l mid hrel hguard hstep with ⟨block, t', hblock, hblocks, hrel'⟩
      rcases ih hrel' with ⟨blocks, hall, hprefix⟩
      refine ⟨block :: blocks, .cons hblock hall, fun k => ?_⟩
      cases k with
      | zero => exact ⟨s, t, .nil s, .nil t, hrel⟩
      | succ k =>
          rcases hprefix k with ⟨u, v, hu, hv, hrel''⟩
          exact ⟨u, v, .cons hguard hstep hu, hblocks.append hv, hrel''⟩

end Machine

end Transition
