import CairnQ.Protocol.Execution
import CairnQ.Transition.Machine
import CairnQ.Transition.Slots

/-!
# The listener

The LISTEN subscription of the two `PostgresStore`s across closes and reopenings.  A wake
call or a connect that publishes starts an attempt unless one is under way; the attempt
subscribes, finds that its executor will never push, or fails for now, and clears
`listener_connecting` in its `finally`.  A close turns listening off; a connect that
publishes turns it on again.

In Python an attempt is a task, which a close cancels and awaits.  In TypeScript it runs up
to its first await within the call that starts it, and a close leaves it alone.

Main results:

- Theorem `Orderly.of_step`: what the fields say about each other is kept by every step
  but the few that `Undisturbed` rules out.
- Theorem `listener_life`: so the field is set only while an attempt is in progress, a
  closed store has no listener, and a reopened one is never degraded to polling.
- Theorem `listener_life_fails`: in both SDKs the field is left set by an attempt that is
  over.
-/

namespace CairnQ

open Transition

/-! ## State -/

/-- `LISTENER_RETRY_MS`. -/
def listenerRetryMs : Nat := 1000

/-- `LISTENER_RETRY_MAX_MS`. -/
def listenerRetryMaxMs : Nat := 30000

/-- Where a `_start_listener` stands: it has yet to take its first step, awaits
`executor.listen`, or is over. -/
inductive ListenStage
  | scheduled
  | listening
  | over
deriving DecidableEq, Repr

/-- A `_start_listener`, with the generation of the store when it was started. -/
structure ListenAttempt where
  generation : Nat
  stage : ListenStage
deriving DecidableEq, Repr

/-- How an attempt ends: with a subscription, with an executor that will never push, with an
error that may pass, or with nothing, being cancelled. -/
inductive ListenVerdict
  | subscribed
  | unavailable
  | failed
  | nothing
deriving DecidableEq, Repr

/-- A `PostgresStore` as far as listening goes.  The state holds whether an executor is
published and a listener installed, not which. -/
structure ListenerState where
  generation : Nat
  executor : Bool
  listener : Bool
  /-- the attempt `listener_connecting` refers to -/
  connecting : Option Nat
  unavailable : Bool
  retryAt : Nat
  backoffMs : Nat
  attempts : List ListenAttempt
  /-- the generations of the connects in flight -/
  connects : List Nat
  /-- the attempts that calls of `close()` await -/
  closers : List Nat
  /-- the store was closed and not reopened since -/
  closed : Bool
  /-- an attempt of this generation found that its executor will never push -/
  refused : Bool
deriving DecidableEq, Repr

namespace ListenerState

/-- A store nobody has used. -/
def fresh : ListenerState where
  generation := 0
  executor := false
  listener := false
  connecting := none
  unavailable := false
  retryAt := 0
  backoffMs := listenerRetryMs
  attempts := []
  connects := []
  closers := []
  closed := false
  refused := false

/-- The attempt is in the given stage. -/
def inStage (s : ListenerState) (i : Nat) (stage : ListenStage) : Bool :=
  s.attempts[i]?.any fun a => decide (a.stage = stage)

/-- The attempt has started and is not over. -/
def inProgress (s : ListenerState) (i : Nat) : Bool :=
  s.attempts[i]?.any fun a => decide (a.stage ≠ .over)

/-- An attempt goes to another stage. -/
def setStage (s : ListenerState) (i : Nat) (a : ListenAttempt) (stage : ListenStage) :
    ListenerState :=
  { s with attempts := s.attempts.set i { a with stage := stage } }

/-! ## Attempts -/

/-- What an attempt leaves in the fields, its `finally` aside. -/
def record (s : ListenerState) (a : ListenAttempt) (nowMs : Nat) : ListenVerdict → ListenerState
  | .subscribed =>
      -- closed while subscribing: the subscription is given back
      if s.unavailable then s else { s with listener := true, backoffMs := listenerRetryMs }
  | .unavailable =>
      { s with
        unavailable := true
        refused := s.refused || decide (a.generation = s.generation) }
  | .failed =>
      { s with
        retryAt := nowMs + s.backoffMs
        backoffMs := min listenerRetryMaxMs (s.backoffMs * 2) }
  | .nothing => s

/-- The end of an attempt, with its `finally`. -/
def conclude (s : ListenerState) (i : Nat) (a : ListenAttempt) (nowMs : Nat)
    (verdict : ListenVerdict) :
    ListenerState :=
  { s.record a nowMs verdict with connecting := none }.setStage i a .over

/-- An attempt up to its first suspension.  Without an executor it returns at once; the turn says
whether `executor.listen` suspends or how the attempt ends without. -/
def firstTurn (provided : Bool) (s : ListenerState) (i : Nat) (a : ListenAttempt) (nowMs : Nat)
    (turn : Option ListenVerdict) : ListenerState :=
  if s.executor || provided then match turn with
    | none => s.setStage i a .listening
    | some verdict => s.conclude i a nowMs verdict
  else s.conclude i a nowMs .nothing

/-- `_listener_ready` would start an attempt. -/
def starts (s : ListenerState) (nowMs : Nat) : Bool :=
  !s.listener && !s.unavailable && s.connecting.isNone && decide (s.retryAt ≤ nowMs)

/-- A new attempt, which has yet to take its first step. -/
def newAttempt (s : ListenerState) : ListenAttempt where
  generation := s.generation
  stage := .scheduled

/-- `_listener_ready`. -/
def listenerReady (sdk : Sdk) (provided : Bool) (s : ListenerState) (nowMs : Nat)
    (turn : Option ListenVerdict) : ListenerState :=
  if s.starts nowMs then
    let i := s.attempts.length
    let begun := { s with attempts := s.attempts ++ [s.newAttempt] }
    match sdk with
    | .python => { begun with connecting := some i }
    -- the field is assigned when the call returns, after a `finally` that has run already
    | .node => { begun.firstTurn provided i s.newAttempt nowMs turn with connecting := some i }
  else s

/-! ## Opening and closing -/

/-- `_reset_listener_state` on an executor just published. -/
def reopen (s : ListenerState) : ListenerState :=
  { s with
    executor := true
    unavailable := false
    retryAt := 0
    backoffMs := listenerRetryMs
    closed := false
    refused := false }

/-- What `close()` does at once. -/
def shut (s : ListenerState) : ListenerState :=
  { s with
    generation := s.generation + 1
    unavailable := true
    listener := false
    closed := true }

/-- `close()` gives the executor up. -/
def giveUp (s : ListenerState) : ListenerState :=
  { s with executor := false, closed := true }

/-- A cancelled attempt that has yet to take its first step never takes it. -/
def cancelScheduled (s : ListenerState) (i : Nat) : ListenerState :=
  match s.attempts[i]? with
  | some a => if a.stage = .scheduled then s.setStage i a .over else s
  | none => s

/-- `close()` up to its first suspension. -/
def close (sdk : Sdk) (s : ListenerState) : ListenerState :=
  match sdk, s.connecting with
  | .node, _ | .python, none => s.shut.giveUp
  | .python, some i =>
      if s.inProgress i then { s.shut.cancelScheduled i with closers := i :: s.closers }
      else s.shut.giveUp

end ListenerState

/-- A label of the life cycle. -/
inductive ListenerStep
  | connect
  /-- a connect of the given generation is ready to publish -/
  | publish (generation nowMs : Nat) (turn : Option ListenVerdict)
  | connectFails (generation : Nat)
  /-- `claim_wake` or `task_done_wake` -/
  | wake (nowMs : Nat) (turn : Option ListenVerdict)
  /-- the first turn of a scheduled attempt -/
  | first (i nowMs : Nat) (turn : Option ListenVerdict)
  /-- `executor.listen` ends for an attempt -/
  | answer (i nowMs : Nat) (verdict : ListenVerdict)
  /-- an attempt is cancelled before its first turn -/
  | cancel (i : Nat)
  /-- the subscription is lost -/
  | lost
  | close
  /-- a `close()` runs on after the attempt it awaited -/
  | resume (i : Nat)
deriving DecidableEq, Repr

/-- The listener of a store, which has been given an executor or opens its own. -/
def listenerLife (sdk : Sdk) (provided : Bool) : Machine ListenerState ListenerStep := fun s l =>
  match l with
  | .connect =>
      if s.executor then some s else some { s with connects := s.generation :: s.connects }
  | .publish generation nowMs turn =>
      if generation ∈ s.connects then
        let left := { s with connects := s.connects.erase generation }
        some (if generation = s.generation then left.reopen.listenerReady sdk provided nowMs turn
          else left)
      else none
  | .connectFails generation =>
      if generation ∈ s.connects then some { s with connects := s.connects.erase generation }
      else none
  | .wake nowMs turn => some (s.listenerReady sdk provided nowMs turn)
  | .first i nowMs turn => match s.attempts[i]? with
    | some a =>
        if a.stage = .scheduled then some (s.firstTurn provided i a nowMs turn) else none
    | none => none
  | .answer i nowMs verdict => match s.attempts[i]? with
    | some a => if a.stage = .listening then some (s.conclude i a nowMs verdict) else none
    | none => none
  | .cancel i => if s.inStage i .scheduled then some (s.cancelScheduled i) else none
  | .lost => some { s with listener := false }
  | .close => some (s.close sdk)
  | .resume i =>
      if i ∈ s.closers ∧ s.inProgress i = false then
        some { s with closers := s.closers.erase i }.giveUp
      else none

/-- The attempt started before the last close. -/
def ListenerState.stale (s : ListenerState) (i : Nat) : Bool :=
  s.attempts[i]?.any fun a => decide (a.generation ≠ s.generation)

/-- What must not happen.  In Python: an attempt is cancelled before its first turn, by a close or
otherwise, or a connect publishes while a close awaits an attempt.  In TypeScript: an attempt ends
within the call that starts it, or one that started before a close finds, after the store has been
reopened, that its executor will never push. -/
def Undisturbed (sdk : Sdk) (provided : Bool) (s : ListenerState) (l : ListenerStep) : Prop :=
  match sdk, l with
  | .python, .close => s.connecting.all (fun i => !s.inStage i .scheduled) = true
  | .python, .cancel _ => False
  | .python, .publish generation _ _ => generation = s.generation → s.closers = []
  | .node, .wake nowMs turn =>
      s.starts nowMs = true → turn = none ∧ (s.executor || provided) = true
  | .node, .publish generation nowMs turn =>
      generation = s.generation → s.reopen.starts nowMs = true → turn = none
  | .node, .answer i _ verdict =>
      verdict = .unavailable → s.stale i = true → s.closed = true
  | _, _ => True

instance (sdk : Sdk) (provided : Bool) (s : ListenerState) (l : ListenerStep) :
    Decidable (Undisturbed sdk provided s l) :=
  match sdk, l with
  | .python, .close => inferInstanceAs (Decidable (_ = true))
  | .python, .cancel _ => inferInstanceAs (Decidable False)
  | .python, .publish _ _ _ => inferInstanceAs (Decidable (_ → _))
  | .node, .wake _ _ => inferInstanceAs (Decidable (_ → _ ∧ _))
  | .node, .publish _ _ _ => inferInstanceAs (Decidable (_ → _ → _))
  | .node, .answer _ _ _ => inferInstanceAs (Decidable (_ → _ → _))
  | .python, .connect | .python, .connectFails _ | .python, .wake _ _ | .python, .first _ _ _
  | .python, .answer _ _ _ | .python, .lost | .python, .resume _ | .node, .connect
  | .node, .connectFails _ | .node, .first _ _ _ | .node, .cancel _ | .node, .lost | .node, .close
  | .node, .resume _ => inferInstanceAs (Decidable True)

/-! ## The invariant -/

namespace ListenerState

variable {sdk : Sdk} {provided : Bool} {s s' : ListenerState} {i nowMs : Nat} {a : ListenAttempt}

/-- What the fields say about each other. -/
structure Orderly (sdk : Sdk) (s : ListenerState) : Prop where
  connecting : ∀ i, s.connecting = some i → s.inProgress i = true
  closed : s.closed = true → s.unavailable = true ∧ s.listener = false
  /-- an open store is off for good only by the verdict of its own executor -/
  unavailable : s.closed = false → s.refused = false → s.unavailable = false
  closers : s.closers ≠ [] → s.closed = true ∧ sdk = .python
  /-- in Python one attempt is in progress at a time, and a close awaits it -/
  alone : sdk = .python → ∀ (i : Nat) (a : ListenAttempt), s.attempts[i]? = some a →
    a.stage ≠ .over →
    s.connecting = some i ∧ (a.generation = s.generation ∨ i ∈ s.closers)
  /-- in TypeScript an attempt is past its first turn when the call that started it returns -/
  started : sdk = .node → ∀ (i : Nat) (a : ListenAttempt), s.attempts[i]? = some a →
    a.stage ≠ .scheduled

theorem Orderly.fresh (sdk : Sdk) : fresh.Orderly sdk where
  connecting := by
    intro i h
    cases h
  closed := by
    intro h
    cases h
  unavailable := fun _ _ => rfl
  closers := fun h => absurd rfl h
  alone := by
    intro _ i a h
    cases h
  started := by
    intro _ i a h
    cases h

theorem inProgress_of_getElem? (hi : s.attempts[i]? = some a) :
    s.inProgress i = decide (a.stage ≠ .over) := by
  rw [inProgress, hi, Option.any_some]

/-- An attempt leaves everything else as it is. -/
theorem record_eq (s : ListenerState) (a : ListenAttempt) (nowMs : Nat) (verdict : ListenVerdict) :
    (s.record a nowMs verdict).attempts = s.attempts ∧
      (s.record a nowMs verdict).closed = s.closed ∧
      (s.record a nowMs verdict).closers = s.closers := by
  cases verdict with
  | subscribed =>
      simp only [record]
      split <;> exact ⟨rfl, rfl, rfl⟩
  | unavailable => exact ⟨rfl, rfl, rfl⟩
  | failed => exact ⟨rfl, rfl, rfl⟩
  | nothing => exact ⟨rfl, rfl, rfl⟩

/-- A store that was closed keeps listening off. -/
theorem record_closed (h : s.unavailable = true ∧ s.listener = false) (a : ListenAttempt)
    (nowMs : Nat) (verdict : ListenVerdict) :
    (s.record a nowMs verdict).unavailable = true ∧
      (s.record a nowMs verdict).listener = false := by
  cases verdict with
  | subscribed =>
      simp only [record, if_pos h.1]
      exact h
  | unavailable => exact ⟨rfl, h.2⟩
  | failed => exact h
  | nothing => exact h

/-- An attempt of this generation turns listening off only with a verdict on its executor. -/
theorem record_unavailable {verdict : ListenVerdict} (h : s.refused = false → s.unavailable = false)
    (hverdict : verdict = .unavailable → a.generation = s.generation)
    (hrefused : (s.record a nowMs verdict).refused = false) :
    (s.record a nowMs verdict).unavailable = false := by
  cases verdict with
  | subscribed =>
      simp only [record] at hrefused ⊢
      split at hrefused
      · rename_i hoff
        rw [h hrefused] at hoff
        cases hoff
      · rename_i hon
        simp [hon]
  | unavailable =>
      simp [record, hverdict rfl] at hrefused
  | failed => exact h hrefused
  | nothing => exact h hrefused

/-- The end of an attempt, if it does not speak for an executor that is no longer the store's. -/
theorem Orderly.conclude (h : s.Orderly sdk) (hi : s.attempts[i]? = some a)
    (hstage : a.stage ≠ .over)
    {verdict : ListenVerdict}
    (hverdict : verdict = .unavailable → a.generation = s.generation ∨ s.closed = true) :
    (s.conclude i a nowMs verdict).Orderly sdk where
  connecting := by
    intro j hj
    cases hj
  closed := by
    intro hclosed
    have hclosed : s.closed = true := (record_eq s a nowMs verdict).2.1 ▸ hclosed
    exact record_closed (h.closed hclosed) a nowMs verdict
  unavailable := by
    intro hopen hrefused
    have hopen : s.closed = false := (record_eq s a nowMs verdict).2.1 ▸ hopen
    refine record_unavailable (h.unavailable hopen) (fun hoff => ?_) hrefused
    rcases hverdict hoff with hown | hclosed
    · exact hown
    · rw [hopen] at hclosed
      cases hclosed
  closers := by
    intro hclosers
    have hclosers : s.closers ≠ [] := (record_eq s a nowMs verdict).2.2 ▸ hclosers
    rcases h.closers hclosers with ⟨hclosed, hsdk⟩
    exact ⟨(record_eq s a nowMs verdict).2.1.trans hclosed, hsdk⟩
  alone := by
    intro hsdk j b hb hin
    have hmoved : (s.record a nowMs verdict).attempts[i]? = some a := by
      rw [(record_eq s a nowMs verdict).1]
      exact hi
    rcases cases_getElem?_set hb with ⟨-, rfl⟩ | ⟨hne, hold⟩
    · exact absurd rfl hin
    · have hold : s.attempts[j]? = some b := (record_eq s a nowMs verdict).1 ▸ hold
      have hfirst := (h.alone hsdk i a hi hstage).1
      have hsecond := (h.alone hsdk j b hold hin).1
      rw [hfirst] at hsecond
      exact absurd (Option.some.inj hsecond).symm hne
  started := by
    intro hsdk j b hb
    have hmoved : (s.record a nowMs verdict).attempts[i]? = some a := by
      rw [(record_eq s a nowMs verdict).1]
      exact hi
    rcases cases_getElem?_set hb with ⟨-, rfl⟩ | ⟨-, hold⟩
    · simp
    · exact h.started hsdk j b ((record_eq s a nowMs verdict).1 ▸ hold)

/-- An attempt in progress awaits its subscription. -/
theorem Orderly.setListening (h : s.Orderly sdk) (hi : s.attempts[i]? = some a)
    (hstage : a.stage ≠ .over) : (s.setStage i a .listening).Orderly sdk where
  connecting := by
    intro j hj
    have hold := h.connecting j hj
    by_cases hij : j = i
    · subst hij
      have hlt := (List.getElem?_eq_some_iff.mp hi).1
      have hmoved : (s.setStage j a .listening).attempts[j]? =
          some { a with stage := .listening } := by
        simp [setStage, hlt]
      rw [inProgress_of_getElem? hmoved]
      rfl
    · have hkept : (s.setStage i a .listening).attempts[j]? = s.attempts[j]? := by
        simp [setStage, Ne.symm hij]
      rw [inProgress, hkept]
      exact hold
  closed := h.closed
  unavailable := h.unavailable
  closers := h.closers
  alone := by
    intro hsdk j b hb hin
    rcases cases_getElem?_set hb with ⟨rfl, rfl⟩ | ⟨-, hold⟩
    · exact h.alone hsdk j a hi hstage
    · exact h.alone hsdk j b hold hin
  started := by
    intro hsdk j b hb
    rcases cases_getElem?_set hb with ⟨-, rfl⟩ | ⟨-, hold⟩
    · simp
    · exact h.started hsdk j b hold

theorem Orderly.firstTurn (h : s.Orderly sdk) (hi : s.attempts[i]? = some a)
    (hstage : a.stage ≠ .over) {turn : Option ListenVerdict}
    (hturn : turn = some .unavailable → a.generation = s.generation ∨ s.closed = true) :
    (s.firstTurn provided i a nowMs turn).Orderly sdk := by
  unfold ListenerState.firstTurn
  split
  · split
    · exact h.setListening hi hstage
    · exact h.conclude hi hstage fun hverdict => hturn (congrArg some hverdict)
  · exact h.conclude hi hstage (by simp)

/-- A call of `_listener_ready` that starts no attempt, or one that outlives the call, leaves
everything in order. -/
theorem Orderly.listenerReady (h : s.Orderly sdk) {turn : Option ListenVerdict}
    (hturn : sdk = .node → s.starts nowMs = true →
      turn = none ∧ (s.executor || provided) = true) :
    (s.listenerReady sdk provided nowMs turn).Orderly sdk := by
  unfold ListenerState.listenerReady
  split
  · rename_i hstarts
    have hnone : s.connecting = none := by
      simp only [ListenerState.starts, Bool.and_eq_true, Option.isNone_iff_eq_none] at hstarts
      exact hstarts.1.2
    cases sdk with
    | python =>
        refine ⟨?_, h.closed, h.unavailable, h.closers, fun hsdk j b hb hin => ?_,
          fun hsdk => by cases hsdk⟩
        · intro j hj
          cases hj
          simp [inProgress, newAttempt]
        · rcases cases_getElem?_concat hb with ⟨rfl, rfl⟩ | hold
          · exact ⟨rfl, Or.inl rfl⟩
          · have hcached := (h.alone hsdk j b hold hin).1
            rw [hnone] at hcached
            cases hcached
    | node =>
        rcases hturn rfl hstarts with ⟨rfl, hexec⟩
        simp only [ListenerState.firstTurn, hexec, if_true]
        refine ⟨?_, h.closed, h.unavailable, h.closers, (fun hsdk => by cases hsdk),
          fun hsdk j b hb => ?_⟩
        · intro j hj
          cases hj
          simp [inProgress, setStage]
        · simp only [setStage, List.set_append_right, Nat.le_refl, Nat.sub_self,
            List.set_cons_zero] at hb
          rcases List.mem_append.mp (List.mem_of_getElem? hb) with hold | hnew
          · rcases List.getElem?_of_mem hold with ⟨k, hk⟩
            exact h.started hsdk k b hk
          · rw [List.mem_singleton.mp hnew]
            simp
  · exact h

/-- A connect that publishes while no close awaits an attempt. -/
theorem Orderly.reopen (h : s.Orderly sdk) (hclosers : s.closers = []) :
    s.reopen.Orderly sdk where
  connecting := h.connecting
  closed := by
    intro hclosed
    cases hclosed
  unavailable := fun _ _ => rfl
  closers := fun h => absurd hclosers h
  alone := h.alone
  started := h.started

theorem Orderly.giveUp (h : s.Orderly sdk) (hoff : s.unavailable = true ∧ s.listener = false) :
    s.giveUp.Orderly sdk where
  connecting := h.connecting
  closed := fun _ => hoff
  unavailable := by
    intro hopen
    cases hopen
  closers := fun hclosers => ⟨rfl, (h.closers hclosers).2⟩
  alone := h.alone
  started := h.started

/-- A close that cancels no attempt before its first turn. -/
theorem Orderly.close (h : s.Orderly sdk)
    (hguard : sdk = .python → s.connecting.all (fun i => !s.inStage i .scheduled) = true) :
    (s.close sdk).Orderly sdk := by
  cases sdk with
  | node =>
      exact
        { connecting := h.connecting
          closed := fun _ => ⟨rfl, rfl⟩
          unavailable := fun hopen => by cases hopen
          closers := fun hclosers => ⟨rfl, (h.closers hclosers).2⟩
          alone := fun hsdk => by cases hsdk
          started := h.started }
  | python =>
      unfold ListenerState.close
      rcases hconn : s.connecting with _ | i
      · refine
          { connecting := h.connecting
            closed := fun _ => ⟨rfl, rfl⟩
            unavailable := fun hopen => by cases hopen
            closers := fun _ => ⟨rfl, rfl⟩
            alone := fun hsdk j b hb hin => ?_
            started := fun hsdk => by cases hsdk }
        have hold := (h.alone hsdk j b hb hin).1
        rw [hconn] at hold
        cases hold
      · have hprogress := h.connecting i hconn
        have hstarted := hguard rfl
        simp only [hconn, Option.all_some, Bool.not_eq_true', inStage] at hstarted
        -- the attempt has taken its first turn, so the cancellation reaches its `finally`
        have hkept : s.shut.cancelScheduled i = s.shut := by
          unfold cancelScheduled
          cases hi : s.attempts[i]? with
          | none => simp [shut, hi]
          | some a =>
              rw [hi, Option.any_some, decide_eq_false_iff_not] at hstarted
              simp [shut, hi, hstarted]
        simp only [hprogress, if_true, hkept]
        refine
          { connecting := h.connecting
            closed := fun _ => ⟨rfl, rfl⟩
            unavailable := fun hopen => by cases hopen
            closers := fun _ => ⟨rfl, rfl⟩
            alone := fun hsdk j b hb hin => ?_
            started := fun hsdk => by cases hsdk }
        have hold := (h.alone hsdk j b hb hin).1
        have hj : j = i := Option.some.inj (hold.symm.trans hconn)
        exact ⟨hold, Or.inr (hj ▸ List.mem_cons_self)⟩

/-- A close that runs on once the attempt it awaited is over. -/
theorem Orderly.resume (h : s.Orderly sdk) (hi : i ∈ s.closers) (hover : s.inProgress i = false) :
    ({ s with closers := s.closers.erase i }.giveUp).Orderly sdk := by
  have hclosed := (h.closers (List.ne_nil_of_mem hi)).1
  have hleft : ({ s with closers := s.closers.erase i } : ListenerState).Orderly sdk := by
    refine ⟨h.connecting, h.closed, h.unavailable, fun _ => h.closers (List.ne_nil_of_mem hi),
      fun hsdk j b hb hin => ?_, h.started⟩
    rcases h.alone hsdk j b hb hin with ⟨hconn, hown⟩
    refine ⟨hconn, hown.imp_right fun hj => ?_⟩
    have hne : j ≠ i := by
      rintro rfl
      have hb : s.attempts[j]? = some b := hb
      rw [inProgress_of_getElem? hb, decide_eq_false_iff_not] at hover
      exact hover hin
    exact (List.mem_erase_of_ne hne).mpr hj
  exact hleft.giveUp (h.closed hclosed)

/-- An attempt in progress is of this generation, or the store is closed. -/
theorem Orderly.own_or_closed (h : s.Orderly .python) (hi : s.attempts[i]? = some a)
    (hstage : a.stage ≠ .over) : a.generation = s.generation ∨ s.closed = true :=
  ((h.alone rfl i a hi hstage).2).imp_right fun hclosers =>
    (h.closers (List.ne_nil_of_mem hclosers)).1

/-- Every undisturbed step keeps the invariant. -/
theorem Orderly.of_step {l : ListenerStep} (h : s.Orderly sdk)
    (hguard : Undisturbed sdk provided s l) (hstep : listenerLife sdk provided s l = some s') :
    s'.Orderly sdk := by
  cases l with
  | connect =>
      simp only [listenerLife] at hstep
      split at hstep <;> cases hstep
      · exact h
      · exact ⟨h.connecting, h.closed, h.unavailable, h.closers, h.alone, h.started⟩
  | publish generation nowMs turn =>
      simp only [listenerLife] at hstep
      split at hstep
      · cases hstep
        have hleft : ({ s with connects := s.connects.erase generation } : ListenerState).Orderly
            sdk := ⟨h.connecting, h.closed, h.unavailable, h.closers, h.alone, h.started⟩
        split
        · rename_i hgen
          have hclosers : s.closers = [] := by
            cases sdk with
            | python => exact hguard hgen
            | node =>
                by_contra hne
                cases (h.closers hne).2
          refine (hleft.reopen hclosers).listenerReady fun hsdk hstarts => ?_
          subst hsdk
          exact ⟨hguard hgen hstarts, rfl⟩
        · exact hleft
      · cases hstep
  | connectFails generation =>
      simp only [listenerLife] at hstep
      split at hstep <;> cases hstep
      exact ⟨h.connecting, h.closed, h.unavailable, h.closers, h.alone, h.started⟩
  | wake nowMs turn =>
      cases hstep
      refine h.listenerReady fun hsdk hstarts => ?_
      subst hsdk
      exact hguard hstarts
  | first i nowMs turn =>
      simp only [listenerLife] at hstep
      split at hstep
      · rename_i a hi
        split at hstep
        · rename_i hscheduled
          cases hstep
          have hstage : a.stage ≠ .over := by simp [hscheduled]
          refine h.firstTurn hi hstage fun _ => ?_
          cases sdk with
          | python => exact h.own_or_closed hi hstage
          | node => exact absurd hscheduled (h.started rfl i a hi)
        · cases hstep
      · cases hstep
  | answer i nowMs verdict =>
      simp only [listenerLife] at hstep
      split at hstep
      · rename_i a hi
        split at hstep
        · rename_i hlistening
          cases hstep
          have hstage : a.stage ≠ .over := by simp [hlistening]
          refine h.conclude hi hstage fun hverdict => ?_
          cases sdk with
          | python => exact h.own_or_closed hi hstage
          | node =>
              by_cases hgen : a.generation = s.generation
              · exact Or.inl hgen
              · exact Or.inr (hguard hverdict (by simp [stale, hi, hgen]))
        · cases hstep
      · cases hstep
  | cancel i =>
      cases sdk with
      | python => cases hguard
      | node =>
          simp only [listenerLife] at hstep
          split at hstep
          · rename_i hscheduled
            rcases Option.any_eq_true _ _ |>.mp hscheduled with ⟨a, hi, hstage⟩
            exact absurd (of_decide_eq_true hstage) (h.started rfl i a hi)
          · cases hstep
  | lost =>
      cases hstep
      refine ⟨h.connecting, fun hclosed => ⟨(h.closed hclosed).1, rfl⟩, h.unavailable, h.closers,
        h.alone, h.started⟩
  | close =>
      cases hstep
      refine h.close fun hsdk => ?_
      subst hsdk
      exact hguard
  | resume i =>
      simp only [listenerLife] at hstep
      split at hstep
      · rename_i hresumes
        cases hstep
        exact h.resume hresumes.1 hresumes.2
      · cases hstep

end ListenerState

/-! ## The life cycle -/

/-- A wake call on a store without a listener leaves an attempt in progress. -/
theorem ListenerState.Orderly.wake {sdk : Sdk} {provided : Bool} {s s' : ListenerState}
    {nowMs : Nat} {turn : Option ListenVerdict} (h : s.Orderly sdk) (hopen : s.closed = false)
    (hrefused : s.refused = false) (hlistener : s.listener = false) (hretry : s.retryAt ≤ nowMs)
    (hguard : Undisturbed sdk provided s (.wake nowMs turn))
    (hstep : listenerLife sdk provided s (.wake nowMs turn) = some s') :
    ∃ i, s'.connecting = some i ∧ s'.inProgress i = true := by
  have horderly := h.of_step hguard hstep
  have hconnecting : ∃ i, s'.connecting = some i := by
    cases hstep
    unfold ListenerState.listenerReady
    split
    · cases sdk <;> exact ⟨_, rfl⟩
    · rename_i hstarts
      cases hconn : s.connecting with
      | some i => exact ⟨i, rfl⟩
      | none =>
          have hon := h.unavailable hopen hrefused
          simp [ListenerState.starts, hlistener, hon, hconn, hretry] at hstarts
  rcases hconnecting with ⟨i, hi⟩
  exact ⟨i, hi, horderly.connecting i hi⟩

/-- In an undisturbed run: the connecting field is set only while an attempt is in progress; a store
that was closed and not reopened has no listener; and a wake call on an open store whose executor
has not refused to listen, without a listener and at or after the retry time, leaves an attempt
in progress. -/
theorem listener_life {sdk : Sdk} {provided : Bool} {s : ListenerState}
    (hreach : (listenerLife sdk provided).Reachable (Undisturbed sdk provided) .fresh s) :
    (∀ i, s.connecting = some i → s.inProgress i = true) ∧
      (s.closed = true → s.listener = false) ∧
      ∀ nowMs turn s', s.closed = false → s.refused = false → s.listener = false →
        s.retryAt ≤ nowMs → Undisturbed sdk provided s (.wake nowMs turn) →
        listenerLife sdk provided s (.wake nowMs turn) = some s' →
        ∃ i, s'.connecting = some i ∧ s'.inProgress i = true := by
  have horderly : s.Orderly sdk :=
    hreach.invariant (fun _ _ _ h hguard hstep => h.of_step hguard hstep) (.fresh sdk)
  exact ⟨horderly.connecting, fun hclosed => (horderly.closed hclosed).2,
    fun _ _ _ hopen hrefused hlistener hretry hguard hstep =>
      horderly.wake hopen hrefused hlistener hretry hguard hstep⟩

/-- A store is closed while an attempt subscribes, and reopened before a wake call. -/
def reopenedListenerRun : List ListenerStep :=
  [.connect, .publish 0 0 none, .first 0 0 none, .close, .answer 0 5 .nothing, .resume 0, .connect,
    .publish 1 9 none]

/-- The wake call after the reopening finds the attempt that the connect started. -/
theorem listener_life_reopenedListenerRun :
    ∃ s s' : ListenerState, listenerLife .python false s (.wake 9 none) = some s' ∧
      ∃ i, s'.connecting = some i ∧ s'.inProgress i = true := by
  have hreach : (listenerLife .python false).Reachable (Undisturbed .python false) .fresh
      ((listenerLife .python false).drive .fresh reopenedListenerRun) :=
    Machine.reachable_of_admits (by decide)
  exact ⟨_, _, rfl, (listener_life hreach).2.2 9 none _ (by decide) (by decide) (by decide)
    (by decide) trivial rfl⟩

/-- In Python the store is closed before the attempt of its connect has taken its first turn; in
TypeScript a wake call comes before the store is connected.  Then it is opened again. -/
def stuckListenerRun : Sdk → List ListenerStep
  | .python => [.connect, .publish 0 0 none, .close, .resume 0, .connect, .publish 1 0 none]
  | .node => [.wake 0 none, .connect, .publish 0 0 none]

/-- The connecting field refers to an attempt that is over, on an open store whose executor can
listen, and no wake call ever starts another. -/
theorem listener_life_fails :
    (∃ s : ListenerState, (listenerLife .python false).Reachable anyStep .fresh s ∧
      (s.closed = false ∧ s.executor = true ∧ s.refused = false ∧ s.listener = false) ∧
      (s.connecting = some 0 ∧ s.inProgress 0 = false) ∧
      ∀ nowMs turn, listenerLife .python false s (.wake nowMs turn) = some s) ∧
    ∃ s : ListenerState, (listenerLife .node false).Reachable anyStep .fresh s ∧
      (s.closed = false ∧ s.executor = true ∧ s.refused = false ∧ s.listener = false) ∧
      (s.connecting = some 0 ∧ s.inProgress 0 = false) ∧
      ∀ nowMs turn, listenerLife .node false s (.wake nowMs turn) = some s := by
  have hdriven : ∀ sdk, (listenerLife sdk false).Reachable anyStep .fresh _ := fun sdk =>
    Machine.reachable_drive (listenerLife sdk false) .fresh (stuckListenerRun sdk)
      fun _ _ _ => trivial
  exact ⟨⟨_, hdriven .python, by decide, by decide, fun _ _ => rfl⟩,
    ⟨_, hdriven .node, by decide, by decide, fun _ _ => rfl⟩⟩

end CairnQ
