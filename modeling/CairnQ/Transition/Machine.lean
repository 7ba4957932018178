import Mathlib.Logic.Basic
import Mathlib.Data.Option.Basic

/-!
# Machines and guarded runs

A machine is an executable step function: a label resolves every choice that the
modelled system leaves open, and a step that is not enabled yields nothing.  A
guarded run is a run each of whose steps meets a condition on the state before
the step and its label; the trivial guard gives all runs.

Main results:

- Theorem `Steps.invariant`: what holds initially and is kept by every guarded
  step holds at the end of every guarded run.
- Theorem `steps_of_run`: evaluating a list of labels yields a run.
-/

namespace Transition

variable {σ ℓ : Type}

/-- An executable step function; the label resolves every open choice. -/
abbrev Machine (σ ℓ : Type) := σ → ℓ → Option σ

/-- The guard every step meets. -/
def anyStep (_ : σ) (_ : ℓ) : Prop := True

namespace Machine

/-- Runs all of whose steps meet the guard in the state before the step. -/
inductive Steps (m : Machine σ ℓ) (g : σ → ℓ → Prop) : σ → List ℓ → σ → Prop
  | nil (s : σ) : Steps m g s [] s
  | cons {s s' s'' : σ} {l : ℓ} {ls : List ℓ} (hguard : g s l) (hstep : m s l = some s')
      (hrest : Steps m g s' ls s'') : Steps m g s (l :: ls) s''

/-- States at the end of some guarded run from the given start. -/
def Reachable (m : Machine σ ℓ) (g : σ → ℓ → Prop) (start s : σ) : Prop :=
  ∃ ls, m.Steps g start ls s

/-- Evaluate a list of labels. -/
def run (m : Machine σ ℓ) : σ → List ℓ → Option σ
  | s, [] => some s
  | s, l :: ls => (m s l).bind fun s' => run m s' ls

/-- Apply a list of labels, passing over those that are not enabled. -/
def drive (m : Machine σ ℓ) (s : σ) : List ℓ → σ
  | [] => s
  | l :: ls => drive m ((m s l).getD s) ls

/-- Every label of the list is enabled in its turn and meets the guard there. -/
def admits (m : Machine σ ℓ) (g : σ → ℓ → Prop) [∀ s l, Decidable (g s l)] (s : σ) :
    List ℓ → Bool
  | [] => true
  | l :: ls => decide (g s l) && (m s l).isSome && admits m g ((m s l).getD s) ls

variable {m : Machine σ ℓ} {g g' : σ → ℓ → Prop} {s s' s'' : σ} {ls ls' : List ℓ}

/-- Evaluating a list of labels yields an unrestricted run. -/
theorem steps_of_run (h : m.run s ls = some s') : m.Steps anyStep s ls s' := by
  induction ls generalizing s with
  | nil =>
      cases h
      exact Steps.nil _
  | cons l ls ih =>
      rcases Option.bind_eq_some_iff.mp h with ⟨mid, hstep, hrest⟩
      exact Steps.cons trivial hstep (ih hrest)

/-- Driving a machine along labels it admits yields a guarded run. -/
theorem steps_of_admits [∀ s l, Decidable (g s l)] (h : m.admits g s ls = true) :
    m.Steps g s ls (m.drive s ls) := by
  induction ls generalizing s with
  | nil => exact Steps.nil s
  | cons l ls ih =>
      rw [admits, Bool.and_eq_true, Bool.and_eq_true, decide_eq_true_eq] at h
      rcases h with ⟨⟨hguard, henabled⟩, hrest⟩
      rcases Option.isSome_iff_exists.mp henabled with ⟨mid, hstep⟩
      rw [hstep] at hrest
      rw [drive, hstep]
      exact Steps.cons hguard hstep (ih hrest)

theorem reachable_of_admits [∀ s l, Decidable (g s l)] (h : m.admits g s ls = true) :
    m.Reachable g s (m.drive s ls) :=
  ⟨ls, steps_of_admits h⟩

theorem Reachable.start (m : Machine σ ℓ) (g : σ → ℓ → Prop) (s : σ) : m.Reachable g s s :=
  ⟨[], Steps.nil s⟩

/-- A weaker guard admits every run of a stronger one. -/
theorem Steps.mono (h : m.Steps g s ls s') (hg : ∀ s l, g s l → g' s l) :
    m.Steps g' s ls s' := by
  induction h with
  | nil s => exact Steps.nil s
  | cons hguard hstep _ ih => exact Steps.cons (hg _ _ hguard) hstep ih

theorem Reachable.mono (h : m.Reachable g s s') (hg : ∀ s l, g s l → g' s l) :
    m.Reachable g' s s' := by
  rcases h with ⟨ls, hls⟩
  exact ⟨ls, hls.mono hg⟩

theorem Steps.append (h : m.Steps g s ls s') (h' : m.Steps g s' ls' s'') :
    m.Steps g s (ls ++ ls') s'' := by
  induction h with
  | nil s => exact h'
  | cons hguard hstep _ ih => exact Steps.cons hguard hstep (ih h')

theorem Steps.single {l : ℓ} (hguard : g s l) (hstep : m s l = some s') :
    m.Steps g s [l] s' :=
  Steps.cons hguard hstep (Steps.nil s')

theorem Reachable.trans (h : m.Reachable g s s') (h' : m.Reachable g s' s'') :
    m.Reachable g s s'' := by
  rcases h with ⟨ls, hls⟩
  rcases h' with ⟨ls', hls'⟩
  exact ⟨ls ++ ls', hls.append hls'⟩

theorem Reachable.tail {l : ℓ} (h : m.Reachable g s s') (hguard : g s' l)
    (hstep : m s' l = some s'') : m.Reachable g s s'' :=
  h.trans ⟨[l], Steps.single hguard hstep⟩

/-- Driving a machine along labels that meet the guard stays within the guarded runs. -/
theorem reachable_drive (m : Machine σ ℓ) (s : σ) (ls : List ℓ)
    (hguard : ∀ l ∈ ls, ∀ s, g s l) : m.Reachable g s (m.drive s ls) := by
  induction ls generalizing s with
  | nil => exact Reachable.start m g s
  | cons l ls ih =>
      have hrest := fun s => ih s fun l hl => hguard l (List.mem_cons_of_mem _ hl)
      rw [drive]
      cases hstep : m s l with
      | none => exact hrest s
      | some s' =>
          exact ((Reachable.start m g s).tail (hguard l List.mem_cons_self s) hstep).trans
            (hrest s')

/-- A property that holds initially and is kept by every guarded step holds at
the end of every guarded run. -/
theorem Steps.invariant {I : σ → Prop}
    (hkeep : ∀ s l s', I s → g s l → m s l = some s' → I s')
    (h : m.Steps g s ls s') (hs : I s) : I s' := by
  induction h with
  | nil s => exact hs
  | cons hguard hstep _ ih => exact ih (hkeep _ _ _ hs hguard hstep)

theorem Reachable.invariant {I : σ → Prop}
    (hkeep : ∀ s l s', I s → g s l → m s l = some s' → I s')
    (h : m.Reachable g s s') (hs : I s) : I s' := by
  rcases h with ⟨ls, hls⟩
  exact hls.invariant hkeep hs

/-- A run along which a measure falls is no longer than the fall. -/
theorem Steps.length_add_le {I : σ → Prop} {μ : σ → Nat}
    (hkeep : ∀ s l s', I s → g s l → m s l = some s' → I s' ∧ μ s' < μ s)
    (h : m.Steps g s ls s') (hs : I s) : ls.length + μ s' ≤ μ s := by
  induction h with
  | nil s => exact Nat.le_of_eq (Nat.zero_add _)
  | cons hguard hstep _ ih =>
      rcases hkeep _ _ _ hs hguard hstep with ⟨hs', hfall⟩
      have hrest := ih hs'
      rw [List.length_cons]
      omega

/-- A guard that every step of the guarded runs meets anyway. -/
theorem Reachable.strengthen (hg : ∀ t l t', m.Reachable g s t → g t l → m t l = some t' → g' t l)
    (h : m.Reachable g s s') : m.Reachable g' s s' := by
  have hboth : m.Reachable g s s' ∧ m.Reachable g' s s' := by
    refine h.invariant (I := fun t => m.Reachable g s t ∧ m.Reachable g' s t)
      (fun t l t' hreach hguard hstep => ?_) ⟨Reachable.start m g s, Reachable.start m g' s⟩
    have hstrong := hg t l t' hreach.1 hguard hstep
    exact ⟨hreach.1.tail hguard hstep, hreach.2.tail hstrong hstep⟩
  exact hboth.2

end Machine

end Transition
