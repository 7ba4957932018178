import CairnQ.Transition.Machine
import CairnQ.Transition.Slots

/-!
# Ownership of executors

Who owns the executors that the TypeScript `PostgresStore` creates from a DSN.  A connect
creates one, prepares it and publishes it, or closes it when it fails or a `close()` came
in between; `connecting` caches the promise so that operations share one connect, and is
cleared by `close()` and by the failure handler of every connect.

Main results:

- Theorem `Owned.of_step`: every executor has an owner, and at most one connect of the
  current generation is in flight, as long as no failure handler clears the promise of
  another connect that is in flight.
- Theorem `executor_ownership`: so in runs of such steps no executor is leaked.
- Theorem `executor_leaks`: the failure handler of a disowned connect leaks one.
-/

namespace CairnQ

open Transition

/-! ## State -/

/-- Where a `doConnect` stands: it awaits `createPoolExecutor`, checks and migrates on its
executor, awaits the executor's `close()`, has rejected with the failure handler still to
run, or is over. -/
inductive ConnectStage
  | creating
  | preparing (executor : Nat)
  | discarding (executor : Nat)
  | rejected
  | settled
deriving DecidableEq, Repr

/-- The connect may still publish. -/
def ConnectStage.inFlight : ConnectStage → Bool
  | .creating | .preparing _ => true
  | _ => false

/-- The executor is inside this connect. -/
def ConnectStage.holds (executor : Nat) : ConnectStage → Bool
  | .preparing e | .discarding e => decide (e = executor)
  | _ => false

/-- A `doConnect` and the generation it read. -/
structure ConnectAttempt where
  generation : Nat
  stage : ConnectStage
deriving DecidableEq, Repr

/-- A `PostgresStore` as far as its executors go.  Executors are numbered as they are
created, and connects as they are started. -/
structure ExecutorState where
  generation : Nat
  executor : Option Nat
  /-- the connect whose promise is cached -/
  connecting : Option Nat
  attempts : List ConnectAttempt
  created : Nat
  published : List Nat
  /-- the executors whose `close()` was called by the store's, or has returned -/
  closed : List Nat
deriving DecidableEq, Repr

namespace ExecutorState

/-- A store nobody has used. -/
def fresh : ExecutorState where
  generation := 0
  executor := none
  connecting := none
  attempts := []
  created := 0
  published := []
  closed := []

/-- A connect goes to another stage. -/
def setStage (s : ExecutorState) (i : Nat) (a : ConnectAttempt) (stage : ConnectStage) :
    ExecutorState :=
  { s with attempts := s.attempts.set i { a with stage := stage } }

/-- `ensure`: use the executor, join the cached connect, or start one. -/
def ensure (s : ExecutorState) : ExecutorState :=
  if s.executor.isSome ∨ s.connecting.isSome then s
  else
    { s with
      connecting := some s.attempts.length
      attempts := s.attempts ++ [{ generation := s.generation, stage := .creating }] }

/-- The end of `doConnect`: publish the executor, or drop it if the store was closed. -/
def publish (s : ExecutorState) (i : Nat) (a : ConnectAttempt) (executor : Nat) : ExecutorState :=
  if a.generation ≠ s.generation then s.setStage i a (.discarding executor)
  else
    { s with executor := some executor, published := executor :: s.published }.setStage i a .settled

/-- `close`. -/
def close (s : ExecutorState) : ExecutorState :=
  { s with
    generation := s.generation + 1
    executor := none
    connecting := none
    closed := s.executor.toList ++ s.closed }

end ExecutorState

/-- A label: an operation's `ensure`, a turn of a connect, or `close()`. -/
inductive ExecutorStep
  | ensure
  /-- `createPoolExecutor` ends -/
  | create (i : Nat) (failed : Bool)
  /-- the checks and migrations end -/
  | prepare (i : Nat) (failed : Bool)
  /-- the `close()` of a dropped executor ends, and the connect rejects -/
  | discard (i : Nat)
  /-- the failure handler of a connect -/
  | handle (i : Nat)
  | close
deriving DecidableEq, Repr

/-- The executors of a store. -/
def executors : Machine ExecutorState ExecutorStep := fun s l =>
  match l with
  | .ensure => some s.ensure
  | .create i failed => match s.attempts[i]? with
    | some a => match a.stage with
      | .creating =>
          some (if failed then s.setStage i a .rejected
            else { s with created := s.created + 1 }.setStage i a (.preparing s.created))
      | _ => none
    | none => none
  | .prepare i failed => match s.attempts[i]? with
    | some a => match a.stage with
      | .preparing e => some (if failed then s.setStage i a (.discarding e) else s.publish i a e)
      | _ => none
    | none => none
  | .discard i => match s.attempts[i]? with
    | some a => match a.stage with
      | .discarding e => some ({ s with closed := e :: s.closed }.setStage i a .rejected)
      | _ => none
    | none => none
  | .handle i => match s.attempts[i]? with
    | some a => match a.stage with
      | .rejected => some ({ s with connecting := none }.setStage i a .settled)
      | _ => none
    | none => none
  | .close => some s.close

/-- A connect that may still publish. -/
def ExecutorState.inFlight (s : ExecutorState) (i : Nat) : Bool :=
  s.attempts[i]?.any fun a => a.stage.inFlight

/-- The connect whose failure handler runs. -/
def ExecutorStep.handled : ExecutorStep → Option Nat
  | .handle i => some i
  | _ => none

/-- No failure handler runs while the cached promise is that of another connect in flight. -/
def HandlesOwn (s : ExecutorState) (l : ExecutorStep) : Prop :=
  ∀ i ∈ l.handled, ∀ j ∈ s.connecting, j = i ∨ s.inFlight j = false

instance (s : ExecutorState) (l : ExecutorStep) : Decidable (HandlesOwn s l) :=
  inferInstanceAs (Decidable (∀ i ∈ l.handled, ∀ j ∈ s.connecting, j = i ∨ s.inFlight j = false))

/-! ## The invariant -/

namespace ExecutorState

/-- The owners of an executor. -/
def HasOwner (s : ExecutorState) (e : Nat) : Prop :=
  s.executor = some e ∨ (∃ a ∈ s.attempts, a.stage.holds e = true) ∨ e ∈ s.closed

/-- Every executor has an owner, and what is in flight for the current generation is the connect
whose promise is cached, before anything is published. -/
structure Owned (s : ExecutorState) : Prop where
  owner : ∀ e < s.created, s.HasOwner e
  published : ∀ e ∈ s.published, s.executor = some e ∨ e ∈ s.closed
  generation_le : ∀ a ∈ s.attempts, a.generation ≤ s.generation
  current : ∀ i a, s.attempts[i]? = some a → a.stage.inFlight = true →
    a.generation = s.generation → s.connecting = some i ∧ s.executor = none

theorem Owned.fresh : fresh.Owned where
  owner := by
    intro e he
    cases he
  published := by
    intro e he
    cases he
  generation_le := by
    intro a ha
    cases ha
  current := by
    intro i a ha
    cases ha

variable {s s' t : ExecutorState} {i e : Nat} {a b : ConnectAttempt} {stage : ConnectStage}

/-- What was inside a connect is inside it still, unless that is the one that moved. -/
theorem holds_setStage (hi : s.attempts[i]? = some a)
    (hb : ∃ b ∈ s.attempts, b.stage.holds e = true) :
    (∃ b ∈ (s.setStage i a stage).attempts, b.stage.holds e = true) ∨ a.stage.holds e = true := by
  rcases hb with ⟨b, hb, hholds⟩
  rcases List.getElem?_of_mem hb with ⟨j, hj⟩
  by_cases hij : j = i
  · subst hij
    rw [hi] at hj
    cases hj
    exact Or.inr hholds
  · have hkept : (s.setStage i a stage).attempts[j]? = some b := by
      simp [setStage, Ne.symm hij, hj]
    exact Or.inl ⟨b, List.mem_of_getElem? hkept, hholds⟩

theorem mem_setStage (hi : s.attempts[i]? = some a) :
    { a with stage := stage } ∈ (s.setStage i a stage).attempts := by
  have hlt := (List.getElem?_eq_some_iff.mp hi).1
  refine List.mem_of_getElem? (i := i) ?_
  simp [setStage, hlt]

/-- A connect goes to a stage in which it can publish only if it could before. -/
theorem Owned.setStage (h : t.Owned) (hi : t.attempts[i]? = some a)
    (hholds : ∀ e, a.stage.holds e = true →
      stage.holds e = true ∨ t.executor = some e ∨ e ∈ t.closed)
    (hflight : stage.inFlight = true → a.stage.inFlight = true) :
    (t.setStage i a stage).Owned where
  owner := by
    intro e he
    rcases h.owner e he with hexec | hinside | hclosed
    · exact Or.inl hexec
    · rcases holds_setStage hi hinside with hkept | hmoved
      · exact Or.inr (Or.inl hkept)
      · rcases hholds e hmoved with hnew | hexec | hclosed
        · exact Or.inr (Or.inl ⟨_, mem_setStage hi, hnew⟩)
        · exact Or.inl hexec
        · exact Or.inr (Or.inr hclosed)
    · exact Or.inr (Or.inr hclosed)
  published := h.published
  generation_le := by
    intro b hb
    rcases List.getElem?_of_mem hb with ⟨j, hj⟩
    rcases cases_getElem?_set hj with ⟨-, rfl⟩ | ⟨-, hold⟩
    · exact h.generation_le a (List.mem_of_getElem? hi)
    · exact h.generation_le b (List.mem_of_getElem? hold)
  current := by
    intro j b hb hin hgen
    rcases cases_getElem?_set hb with ⟨rfl, rfl⟩ | ⟨-, hold⟩
    · exact h.current j a hi (hflight hin) hgen
    · exact h.current j b hold hin hgen

/-- A new connect of the current generation is the only one in flight. -/
theorem Owned.ensure (h : s.Owned) : s.ensure.Owned := by
  unfold ExecutorState.ensure
  split
  · exact h
  · rename_i hidle
    simp only [not_or, Option.not_isSome_iff_eq_none] at hidle
    rcases hidle with ⟨hexec, hconnecting⟩
    refine ⟨fun e he => ?_, h.published, fun b hb => ?_, fun j b hb hin hgen => ?_⟩
    · rcases h.owner e he with hexec | ⟨b, hb, hholds⟩ | hclosed
      · exact Or.inl hexec
      · exact Or.inr (Or.inl ⟨b, List.mem_append_left _ hb, hholds⟩)
      · exact Or.inr (Or.inr hclosed)
    · rcases List.mem_append.mp hb with hold | hnew
      · exact h.generation_le b hold
      · cases List.mem_singleton.mp hnew
        exact Nat.le_refl _
    · rcases cases_getElem?_concat hb with ⟨rfl, -⟩ | hold
      · exact ⟨rfl, hexec⟩
      · -- nothing was in flight, since no promise was cached
        have hcached := (h.current j b hold hin hgen).1
        rw [hconnecting] at hcached
        cases hcached

/-- A published executor replaces none. -/
theorem Owned.publish (h : s.Owned) (hi : s.attempts[i]? = some a)
    (hstage : a.stage = .preparing e) : (s.publish i a e).Owned := by
  have hin : a.stage.inFlight = true := by rw [hstage]; rfl
  unfold ExecutorState.publish
  split
  · refine h.setStage hi (fun e' he' => Or.inl ?_) fun h => by cases h
    rw [hstage] at he'
    exact he'
  · rename_i hgen
    have hgen : a.generation = s.generation := not_not.mp hgen
    rcases h.current i a hi hin hgen with ⟨hcached, hnone⟩
    refine ⟨fun e' he' => ?_, fun e' he' => ?_, fun b hb => ?_, fun j b hb hinb hgenb => ?_⟩
    · rcases h.owner e' he' with hexec | hinside | hclosed
      · rw [hnone] at hexec
        cases hexec
      · have hafter : (∃ b ∈ (s.setStage i a .settled).attempts, b.stage.holds e' = true) ∨
            a.stage.holds e' = true := holds_setStage hi hinside
        rcases hafter with hkept | hmoved
        · exact Or.inr (Or.inl hkept)
        · rw [hstage] at hmoved
          exact Or.inl (congrArg some (of_decide_eq_true hmoved))
      · exact Or.inr (Or.inr hclosed)
    · rcases List.mem_cons.mp he' with rfl | hold
      · exact Or.inl rfl
      · rcases h.published e' hold with hexec | hclosed
        · rw [hnone] at hexec
          cases hexec
        · exact Or.inr hclosed
    · rcases List.getElem?_of_mem hb with ⟨j, hj⟩
      rcases cases_getElem?_set hj with ⟨-, rfl⟩ | ⟨-, hold⟩
      · exact h.generation_le a (List.mem_of_getElem? hi)
      · exact h.generation_le b (List.mem_of_getElem? hold)
    · rcases cases_getElem?_set hb with ⟨-, rfl⟩ | ⟨hne, hold⟩
      · cases hinb
      · have hother := (h.current j b hold hinb hgenb).1
        rw [hcached] at hother
        exact absurd (Option.some.inj hother).symm hne

/-- After a close no connect is of the current generation. -/
theorem Owned.close (h : s.Owned) : s.close.Owned where
  owner := by
    intro e he
    rcases h.owner e he with hexec | hinside | hclosed
    · exact Or.inr (Or.inr (List.mem_append_left _ (by simp [hexec])))
    · exact Or.inr (Or.inl hinside)
    · exact Or.inr (Or.inr (List.mem_append_right _ hclosed))
  published := by
    intro e he
    rcases h.published e he with hexec | hclosed
    · exact Or.inr (List.mem_append_left _ (by simp [hexec]))
    · exact Or.inr (List.mem_append_right _ hclosed)
  generation_le := fun a ha => Nat.le_succ_of_le (h.generation_le a ha)
  current := by
    intro i a ha _ hgen
    have hle := h.generation_le a (List.mem_of_getElem? ha)
    change a.generation = s.generation + 1 at hgen
    omega

/-- A created executor is inside the connect that created it. -/
theorem Owned.create (h : s.Owned) (hi : s.attempts[i]? = some a) (hstage : a.stage = .creating) :
    ({ s with created := s.created + 1 }.setStage i a (.preparing s.created)).Owned := by
  have hmoved : (s.setStage i a (.preparing s.created)).Owned := by
    refine h.setStage hi (fun e he => ?_) fun _ => ?_
    · rw [hstage] at he
      cases he
    · rw [hstage]
      rfl
  refine ⟨fun e he => ?_, hmoved.published, hmoved.generation_le, hmoved.current⟩
  by_cases hnew : e = s.created
  · refine Or.inr (Or.inl ⟨_, mem_setStage (s := { s with created := s.created + 1 }) hi, ?_⟩)
    simp [ConnectStage.holds, hnew]
  · exact hmoved.owner e (Nat.lt_of_le_of_ne (Nat.le_of_lt_succ he) hnew)

/-- Every step keeps the invariant, but a failure handler that clears the promise of another
connect in flight. -/
theorem Owned.of_step {l : ExecutorStep} (h : s.Owned) (hguard : HandlesOwn s l)
    (hstep : executors s l = some s') : s'.Owned := by
  cases l with
  | ensure =>
      cases hstep
      exact h.ensure
  | create i failed =>
      simp only [executors] at hstep
      split at hstep
      · rename_i a hi
        split at hstep
        · rename_i hstage
          cases hstep
          cases failed with
          | false => exact h.create hi hstage
          | true =>
              refine h.setStage hi (fun e he => ?_) fun h => by cases h
              rw [hstage] at he
              cases he
        · cases hstep
      · cases hstep
  | prepare i failed =>
      simp only [executors] at hstep
      split at hstep
      · rename_i a hi
        split at hstep
        · rename_i e hstage
          cases hstep
          cases failed with
          | false => exact h.publish hi hstage
          | true =>
              refine h.setStage hi (fun e' he' => Or.inl ?_) fun h => by cases h
              rw [hstage] at he'
              exact he'
        · cases hstep
      · cases hstep
  | discard i =>
      simp only [executors] at hstep
      split at hstep
      · rename_i a hi
        split at hstep
        · rename_i e hstage
          cases hstep
          have hclosed : ({ s with closed := e :: s.closed } : ExecutorState).Owned := by
            refine ⟨fun e' he' => ?_, fun e' he' => ?_, h.generation_le, h.current⟩
            · exact (h.owner e' he').imp_right (Or.imp_right (List.mem_cons_of_mem e))
            · exact (h.published e' he').imp_right (List.mem_cons_of_mem e)
          refine hclosed.setStage hi (fun e' he' => Or.inr (Or.inr ?_)) fun h => by cases h
          rw [hstage] at he'
          rw [of_decide_eq_true he']
          exact List.mem_cons_self
        · cases hstep
      · cases hstep
  | handle i =>
      simp only [executors] at hstep
      split at hstep
      · rename_i a hi
        split at hstep
        · rename_i hstage
          cases hstep
          have hcleared : ({ s with connecting := none } : ExecutorState).Owned := by
            refine ⟨h.owner, h.published, h.generation_le, fun j b hb hin hgen => ?_⟩
            -- the promise of a connect in flight is not the one cleared
            have hcached := (h.current j b hb hin hgen).1
            rcases hguard i rfl j hcached with rfl | hout
            · rw [hi] at hb
              cases hb
              rw [hstage] at hin
              cases hin
            · simp only [inFlight, hb, Option.any_some] at hout
              rw [hin] at hout
              cases hout
          refine hcleared.setStage hi (fun e he => ?_) fun h => by cases h
          rw [hstage] at he
          cases he
        · cases hstep
      · cases hstep
  | close =>
      cases hstep
      exact h.close

end ExecutorState

/-! ## Runs -/

/-- In a run in which no failure handler clears the promise of another connect in flight: every
executor ever created is the published one, inside its own connect, or closed, and at most one
executor is published without having been closed. -/
theorem executor_ownership {s : ExecutorState}
    (hreach : executors.Reachable HandlesOwn .fresh s) :
    (∀ e < s.created, s.HasOwner e) ∧
      ∀ e ∈ s.published, ∀ e' ∈ s.published, e ∉ s.closed → e' ∉ s.closed → e = e' := by
  have howned : s.Owned :=
    hreach.invariant (fun _ _ _ h hguard hstep => h.of_step hguard hstep) .fresh
  refine ⟨howned.owner, fun e he e' he' hopen hopen' => ?_⟩
  have hexec : s.executor = some e := (howned.published e he).resolve_right hopen
  have hexec' : s.executor = some e' := (howned.published e' he').resolve_right hopen'
  exact Option.some.inj (hexec.symm.trans hexec')

/-- A connect is disowned and succeeds late, after the reopened store has published. -/
def disownedRun : List ExecutorStep :=
  [.ensure, .close, .ensure, .create 1 false, .prepare 1 false, .create 0 false,
    .prepare 0 false, .discard 0, .handle 0, .ensure, .close]

theorem executor_ownership_disownedRun :
    let s := executors.drive .fresh disownedRun
    (∀ e < s.created, s.HasOwner e) ∧
      ∀ e ∈ s.published, ∀ e' ∈ s.published, e ∉ s.closed → e' ∉ s.closed → e = e' :=
  executor_ownership (Machine.reachable_of_admits (by decide))

/-- A connect is disowned by a close and fails while the connect of the reopened store is in flight;
a third operation then starts another. -/
def clearedRun : List ExecutorStep :=
  [.ensure, .close, .ensure, .create 0 true, .handle 0, .ensure, .create 1 false, .create 2 false,
    .prepare 1 false, .prepare 2 false]

/-- Both connects publish, and the first executor is nobody's. -/
theorem executor_leaks :
    ∃ s : ExecutorState, executors.Reachable anyStep .fresh s ∧ 0 < s.created ∧
      ¬s.HasOwner 0 ∧ s.published = [1, 0] ∧ s.closed = [] := by
  refine ⟨_, Machine.reachable_drive _ _ clearedRun fun _ _ _ => trivial, by decide, ?_, by decide,
    by decide⟩
  unfold ExecutorState.HasOwner
  decide

end CairnQ
