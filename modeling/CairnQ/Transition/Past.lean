import CairnQ.Transition.Machine
import Mathlib.Data.List.Induction

/-!
# What has held since

A condition on states that holds at the end of a run, and did not hold at its start, has held
ever since some step brought it about.  The step is described by a relation that may speak of
the run before it, so that one explanation can rest on an earlier one.

Main results:

- Theorem `Machine.Steps.since`: a condition has held since the step that brought it about.
- Theorem `Machine.Since.now`: such a condition holds at the end of the run.
- Theorem `Machine.Steps.keeps_or_breaks`: a run that does not keep to a guard has a first step
  that breaks it.
-/

namespace Transition

variable {σ ℓ : Type}

namespace Machine

/-- Some step of the run from {lit}`start` is a cause, and the condition has held in every state
after it. -/
def Since (m : Machine σ ℓ) (start : σ) (Cause : List ℓ → σ → ℓ → σ → Prop) (P : σ → Prop)
    (ls : List ℓ) : Prop :=
  ∃ before l after u v w, ls = before ++ l :: after ∧ m.Steps anyStep start before u ∧
    m u l = some v ∧ Cause before u l v ∧ m.Steps (fun s _ => P s) v after w ∧ P w

variable {m : Machine σ ℓ} {g : σ → ℓ → Prop} {start s s' : σ} {ls : List ℓ}

/-- Two runs along the same labels end in the same state. -/
theorem Steps.unique {g' : σ → ℓ → Prop} (h : m.Steps g s ls s') {s'' : σ}
    (h' : m.Steps g' s ls s'') : s' = s'' := by
  induction h with
  | nil s =>
      cases h'
      rfl
  | cons _ hstep _ ih =>
      cases h' with
      | cons _ hstep' hrest' =>
          rw [hstep] at hstep'
          cases hstep'
          exact ih hrest'

/-- A run splits where its labels do. -/
theorem Steps.of_append {before after : List ℓ} (h : m.Steps g s (before ++ after) s') :
    ∃ u, m.Steps g s before u ∧ m.Steps g u after s' := by
  induction before generalizing s with
  | nil => exact ⟨s, Steps.nil s, h⟩
  | cons l before ih =>
      cases h with
      | cons hguard hstep hrest =>
          rcases ih hrest with ⟨u, hbefore, hafter⟩
          exact ⟨u, Steps.cons hguard hstep hbefore, hafter⟩

/-- Induction on a run from its end. -/
theorem Steps.snoc_induction {Q : List ℓ → σ → Prop} (hnil : Q [] start)
    (hsnoc : ∀ before u l v, m.Steps g start before u → Q before u → g u l → m u l = some v →
      Q (before ++ [l]) v)
    (h : m.Steps g start ls s) : Q ls s := by
  induction ls using List.reverseRecOn generalizing s with
  | nil =>
      cases h
      exact hnil
  | append_singleton before l ih =>
      rcases h.of_append with ⟨u, hbefore, hlast⟩
      cases hlast with
      | cons hguard hstep hrest =>
          cases hrest
          exact hsnoc before u l _ hbefore (ih hbefore) hguard hstep

/-- What holds now and did not hold at the start has held since a step that brought it about. -/
theorem Steps.since {Cause : List ℓ → σ → ℓ → σ → Prop} {P : σ → Prop}
    (h : m.Steps anyStep start ls s) (hstart : ¬P start) (hnow : P s)
    (hcause : ∀ before u l v, m.Steps anyStep start before u → m u l = some v → ¬P u → P v →
      Cause before u l v) :
    m.Since start Cause P ls := by
  refine h.snoc_induction (Q := fun ls s => P s → m.Since start Cause P ls)
    (fun hP => absurd hP hstart) (fun before u l v hbefore ih _ hstep hP => ?_) hnow
  by_cases hu : P u
  · rcases ih hu with ⟨first, c, after, a, b, w, rfl, hfirst, hc, hcaused, hafter, hw⟩
    -- the step keeps the condition, and lengthens the time for which it has held
    have hwhole : m.Steps anyStep start (first ++ c :: after) w :=
      hfirst.append (Steps.cons trivial hc (hafter.mono fun _ _ _ => trivial))
    have hsame : w = u := hwhole.unique hbefore
    subst hsame
    refine ⟨first, c, after ++ [l], a, b, v, by simp, hfirst, hc, hcaused, ?_, hP⟩
    exact hafter.append (Steps.single hw hstep)
  · exact ⟨before, l, [], u, v, v, rfl, hbefore, hstep, hcause before u l v hbefore hstep hu hP,
      Steps.nil v, hP⟩

/-- A run keeps to a guard, or has a first step that breaks it. -/
theorem Steps.keeps_or_breaks (g' : σ → ℓ → Prop) (h : m.Steps g s ls s') :
    m.Steps g' s ls s' ∨ ∃ before l after u, ls = before ++ l :: after ∧
      m.Steps g' s before u ∧ ¬g' u l := by
  induction h with
  | nil s => exact Or.inl (Steps.nil s)
  | @cons s mid _ l ls _ hstep _ ih =>
      by_cases hg : g' s l
      · rcases ih with hkeeps | ⟨before, l', after, u, rfl, hbefore, hbreaks⟩
        · exact Or.inl (Steps.cons hg hstep hkeeps)
        · exact Or.inr ⟨l :: before, l', after, u, rfl, Steps.cons hg hstep hbefore, hbreaks⟩
      · exact Or.inr ⟨[], l, ls, s, rfl, Steps.nil s, hg⟩

/-- The condition holds at the end of the run. -/
theorem Since.now {Cause : List ℓ → σ → ℓ → σ → Prop} {P : σ → Prop}
    (h : m.Since start Cause P ls) (hrun : m.Steps anyStep start ls s) : P s := by
  rcases h with ⟨before, l, after, u, v, w, rfl, hbefore, hstep, -, hafter, hw⟩
  have hwhole : m.Steps anyStep start (before ++ l :: after) w :=
    hbefore.append (Steps.cons trivial hstep (hafter.mono fun _ _ _ => trivial))
  rw [← hwhole.unique hrun]
  exact hw

/-- A weaker description of the cause, and a weaker condition. -/
theorem Since.imp {Cause Cause' : List ℓ → σ → ℓ → σ → Prop} {P P' : σ → Prop}
    (h : m.Since start Cause P ls)
    (hcause : ∀ before u l v, m.Steps anyStep start before u → m u l = some v →
      Cause before u l v → Cause' before u l v) (hP : ∀ s, P s → P' s) :
    m.Since start Cause' P' ls := by
  rcases h with ⟨before, l, after, u, v, w, rfl, hbefore, hstep, hcaused, hafter, hw⟩
  exact ⟨before, l, after, u, v, w, rfl, hbefore, hstep, hcause before u l v hbefore hstep hcaused,
    hafter.mono fun s _ => hP s, hP w hw⟩

end Machine

end Transition
