import CairnQ.PostgresStore.Listener
import Mathlib.Data.Finset.Basic
import Mathlib.Data.Finset.SDiff

/-!
# The wake channel

`claim_wake` and `task_done_wake` of the two `PostgresStore`s.  A notification for a queue
that some call has named is kept in a set until a `claim_wake` that names the queue consumes
it; to wake the calls that wait, Python sets one event shared by all of them and TypeScript
calls every waiter of a key.  A `claim_wake` that is woken looks at the set, and when nothing
of its own is there it waits again for the rest of its time.

What {lit}`asyncio.wait_for` does is part of the runtime.  Before Python 3.12 it makes the
wait a task, which starts at a later turn; in Python 3.10 the error it raises at the timeout
is not the one that the calls suppress.

Main results:

- Theorem `channelEffect_of_step`: what each step does to the channel.
- Theorem `Tidy.of_step`: while a `claim_wake` waits, the event is clear.
-/

namespace CairnQ

open Transition

/-! ## State -/

/-- `QUEUED_CHANNEL`. -/
def queuedChannel : String := "cairnq_queued"

/-- `DONE_CHANNEL`. -/
def doneChannel : String := "cairnq_done"

/-- What the stores run on, as far as a bounded wait differs. -/
inductive WakeRuntime
  | node
  | python310
  | python311
  /-- Python 3.12 and later -/
  | python312
deriving DecidableEq, Repr

namespace WakeRuntime

/-- The SDK that runs on it. -/
def sdk : WakeRuntime → Sdk
  | .node => .node
  | .python310 | .python311 | .python312 => .python

/-- A bounded wait is a task that starts at a later turn. -/
def deferred : WakeRuntime → Bool
  | .python310 | .python311 => true
  | .node | .python312 => false

/-- A timeout is raised through the calls: before 3.11 {lit}`asyncio.TimeoutError` is not
{lit}`TimeoutError`. -/
def raisesTimeout : WakeRuntime → Bool
  | .python310 => true
  | .node | .python311 | .python312 => false

theorem sdk_of_deferred {runtime : WakeRuntime} (h : runtime.deferred = true) :
    runtime.sdk = .python := by
  cases runtime with
  | node | python312 => cases h
  | python310 | python311 => rfl

end WakeRuntime

/-- What a call waits for. -/
inductive WakeKey
  | queued (queues : List String)
  | done (taskId : String)
deriving DecidableEq, Repr

/-- Where a call stands. -/
inductive WakePhase
  /-- in the sleep of the base class -/
  | polling
  /-- the task of its wait has yet to start -/
  | scheduled
  | waiting
  /-- its wait is over, and it is about to run -/
  | woken
  /-- the timer of its wait has fired, and it is about to run -/
  | expired
  | returned (consumed : Bool) (atMs : Nat)
  /-- it was cancelled, or its timeout was raised -/
  | raised
deriving DecidableEq, Repr

/-- A call of `claim_wake` or `task_done_wake`. -/
structure WakeCall where
  key : WakeKey
  deadline : Int
  phase : WakePhase
deriving DecidableEq, Repr

/-- The call goes on to another phase. -/
def WakeCall.goTo (call : WakeCall) (phase : WakePhase) : WakeCall :=
  { call with phase := phase }

/-- The call names the queue. -/
def WakeCall.names (call : WakeCall) (queue : String) : Prop :=
  match call.key with
  | .queued queues => queue ∈ queues
  | .done _ => False

/-- The call is waiting on the push channel, or was until a moment ago. -/
def WakeCall.onChannel (call : WakeCall) : Bool :=
  match call.phase with
  | .scheduled | .waiting | .woken | .expired => true
  | .polling | .returned _ _ | .raised => false

/-- A notification for a queue that some call had named, with the call that consumed it. -/
structure WakeDelivery where
  queue : String
  takenBy : Option Nat
deriving DecidableEq, Repr

/-- A call takes a notification of its own that nobody has taken. -/
def WakeDelivery.take (c : Nat) (queues : List String) (d : WakeDelivery) : WakeDelivery :=
  if d.takenBy = none ∧ d.queue ∈ queues then { d with takenBy := some c } else d

/-- A `PostgresStore` as far as waking goes.  {lit}`deliveries` only records what happened. -/
structure ChannelState where
  life : ListenerState
  wakeable : Finset String
  pending : Finset String
  /-- `_queued_event`; TypeScript has none, and leaves it alone -/
  queuedEvent : Bool
  calls : Nat → Option WakeCall
  deliveries : List WakeDelivery

/-! ## Operations -/

/-- The event of `_queued_event` reaches a call. -/
def WakeCall.hearQueued (call : WakeCall) : WakeCall :=
  match call.key, call.phase with
  | .queued _, .waiting => call.goTo .woken
  | _, _ => call

/-- The event of a `task_done_wake` is set, which nobody clears. -/
def WakeCall.hearDone (watched : String → Bool) (call : WakeCall) : WakeCall :=
  match call.key, call.phase with
  | .done taskId, .waiting | .done taskId, .scheduled =>
      if watched taskId then call.goTo .woken else call
  | _, _ => call

namespace ChannelState

/-- A store nobody has used. -/
def fresh : ChannelState where
  life := .fresh
  wakeable := ∅
  pending := ∅
  queuedEvent := false
  calls := fun _ => none
  deliveries := []

/-- The call comes back without its timer. -/
def awake (s : ChannelState) (call : WakeCall) : Bool :=
  match call.key, call.phase with
  | _, .woken | _, .expired => true
  | .queued _, .scheduled => s.queuedEvent
  | _, _ => false

/-- A call goes to another phase. -/
def setCall (s : ChannelState) (c : Nat) (call : WakeCall) : ChannelState :=
  { s with calls := fun c' => if c' = c then some call else s.calls c' }

/-- Something reaches every call. -/
def mapCalls (s : ChannelState) (f : WakeCall → WakeCall) : ChannelState :=
  { s with calls := fun c => (s.calls c).map f }

/-- `_queued_event.set()`, or a call of every waiter of `queued`. -/
def raiseQueued (runtime : WakeRuntime) (s : ChannelState) : ChannelState :=
  match runtime.sdk with
  | .node => s.mapCalls WakeCall.hearQueued
  | .python =>
      if s.queuedEvent then s
      else { s.mapCalls WakeCall.hearQueued with queuedEvent := true }

/-- `_release_waiters`. -/
def releaseWaiters (runtime : WakeRuntime) (s : ChannelState) : ChannelState :=
  (s.raiseQueued runtime).mapCalls (WakeCall.hearDone fun _ => true)

/-- `_register_wakeable`. -/
def registerWakeable (s : ChannelState) (queues : List String) : ChannelState :=
  { s with wakeable := s.wakeable ∪ queues.toFinset }

/-- A notification of a queue, which is kept only if some call has named the queue. -/
def addPending (s : ChannelState) (queue : String) : ChannelState :=
  if queue ∈ s.wakeable then
    { s with
      pending := insert queue s.pending
      deliveries := s.deliveries ++ [{ queue := queue, takenBy := none }] }
  else s

/-- `_on_notification`. -/
def onNotification (runtime : WakeRuntime) (s : ChannelState) (channel : String)
    (payload : Option String) : ChannelState :=
  match payload with
  | none | some "" => s
  | some payload =>
      if channel = queuedChannel then (s.addPending payload).raiseQueued runtime
      else if channel = doneChannel then
        s.mapCalls (WakeCall.hearDone fun taskId => decide (taskId = payload))
      else s

/-- A call finds a notification of its own, and takes with it all it names. -/
def consume (s : ChannelState) (c : Nat) (queues : List String) : ChannelState :=
  { s with
    pending := s.pending \ queues.toFinset
    deliveries := s.deliveries.map (WakeDelivery.take c queues) }

/-- Some queue of the list has been notified. -/
def hits (s : ChannelState) (queues : List String) : Bool :=
  queues.any fun q => decide (q ∈ s.pending)

/-- A call goes to wait: it clears the event, and its wait begins or is scheduled. -/
def rest (runtime : WakeRuntime) (s : ChannelState) (c : Nat) (call : WakeCall) : ChannelState :=
  { s with queuedEvent := false }.setCall c
    (call.goTo (if runtime.deferred then .scheduled else .waiting))

/-- What the loop of `claim_wake` does next: return with a notification, return because its
time is up, or wait. -/
def look (runtime : WakeRuntime) (s : ChannelState) (c : Nat) (call : WakeCall)
    (queues : List String) (nowMs : Nat) : ChannelState :=
  if s.hits queues then
    (s.consume c queues).setCall c (call.goTo (.returned true nowMs))
  else if call.deadline ≤ nowMs then
    s.setCall c (call.goTo (.returned false nowMs))
  else s.rest runtime c call

end ChannelState

/-- `close()` has to await the attempt that `listener_connecting` refers to. -/
def ListenerState.closeAwaits (sdk : Sdk) (s : ListenerState) : Bool :=
  decide (sdk = .python) && s.connecting.any s.inProgress

/-- What can happen. -/
inductive ChannelStep
  | claimWake (c : Nat) (queues : List String) (timeoutMs : Int) (nowMs : Nat)
      (turn : Option ListenVerdict)
  | taskDoneWake (c : Nat) (taskId : String) (timeoutMs : Int) (nowMs : Nat)
      (turn : Option ListenVerdict)
  /-- a claim session registers its queues -/
  | claimSession (queues : List String)
  | notification (channel : String) (payload : Option String)
  /-- the task of a wait starts -/
  | waitStarts (c : Nat)
  /-- the timer of a wait fires -/
  | timer (c : Nat)
  /-- a call runs on after its wait -/
  | resume (c nowMs : Nat)
  /-- the sleep of the base class is over -/
  | sleepEnds (c nowMs : Nat)
  | cancel (c : Nat)
  | lost
  | close
  /-- a `close()` runs on after the attempt it awaited -/
  | closeResumes (i : Nat)
  /-- anything else in the life of the listener -/
  | life (l : ListenerStep)
deriving DecidableEq, Repr

namespace ChannelState

/-- A call begins: on the channel if the listener is ready, in the sleep of the base class
otherwise. -/
def enter (runtime : WakeRuntime) (provided : Bool) (s : ChannelState) (c : Nat) (key : WakeKey)
    (timeoutMs : Int) (nowMs : Nat) (turn : Option ListenVerdict) : ChannelState :=
  let call : WakeCall := { key := key, deadline := nowMs + timeoutMs, phase := .polling }
  if s.life.listener then match key with
    | .queued queues => s.look runtime c call queues nowMs
    | .done _ => s.setCall c
        (call.goTo (if runtime.deferred then .scheduled else .waiting))
  else
    { s with life := s.life.listenerReady runtime.sdk provided nowMs turn }.setCall c call

/-- A call runs on after its wait. -/
def runOn (runtime : WakeRuntime) (s : ChannelState) (c : Nat) (call : WakeCall) (nowMs : Nat) :
    ChannelState :=
  match call.key with
  | .queued queues => s.look runtime c call queues nowMs
  | .done _ => s.setCall c (call.goTo (.returned false nowMs))

end ChannelState

/-- The wake channel of a store, which has been given an executor or opens its own. -/
def wakeChannel (runtime : WakeRuntime) (provided : Bool) : Machine ChannelState ChannelStep
  | s, .claimWake c queues timeoutMs nowMs turn => match s.calls c with
    | none => some
        ((s.registerWakeable queues).enter runtime provided c (.queued queues) timeoutMs nowMs turn)
    | some _ => none
  | s, .taskDoneWake c taskId timeoutMs nowMs turn => match s.calls c with
    | none => some (s.enter runtime provided c (.done taskId) timeoutMs nowMs turn)
    | some _ => none
  | s, .claimSession queues => some (s.registerWakeable queues)
  | s, .notification channel payload => some (s.onNotification runtime channel payload)
  | s, .waitStarts c => match s.calls c with
    | some call => match call.key, call.phase with
      | .queued _, .scheduled =>
          -- the wait of an event that is set is over at once
          some (s.setCall c (call.goTo (if s.queuedEvent then .woken else .waiting)))
      | .done _, .scheduled => some (s.setCall c (call.goTo .waiting))
      | _, _ => none
    | none => none
  | s, .timer c => match s.calls c with
    | some call => match call.phase with
      | .scheduled | .waiting => some (s.setCall c (call.goTo .expired))
      -- in TypeScript a waiter that is called clears its timer
      | .woken =>
          if runtime.sdk = .python then some (s.setCall c (call.goTo .expired)) else none
      | _ => none
    | none => none
  | s, .resume c nowMs => match s.calls c with
    | some call => match call.phase with
      | .woken => some (s.runOn runtime c call nowMs)
      | .expired =>
          some (if runtime.raisesTimeout then s.setCall c (call.goTo .raised)
            else s.runOn runtime c call nowMs)
      | _ => none
    | none => none
  | s, .sleepEnds c nowMs => match s.calls c with
    | some call =>
        if call.phase = .polling ∧ call.deadline ≤ nowMs then
          some (s.setCall c (call.goTo (.returned false nowMs)))
        else none
    | none => none
  | s, .cancel c => match s.calls c with
    | some call =>
        if runtime.sdk = .python ∧ (call.phase = .polling ∨ call.onChannel = true) then
          some (s.setCall c (call.goTo .raised))
        else none
    | none => none
  | s, .lost => some ({ s with life := { s.life with listener := false } }.releaseWaiters runtime)
  | s, .close =>
      let closed := { s with life := s.life.close runtime.sdk }
      -- Python releases the waiters after the await
      some (if s.life.closeAwaits runtime.sdk then closed else closed.releaseWaiters runtime)
  | s, .closeResumes i =>
      (listenerLife runtime.sdk provided s.life (.resume i)).map fun life =>
        { s with life := life }.releaseWaiters runtime
  | s, .life l => match l with
    | .wake _ _ | .lost | .close | .resume _ => none
    | l => (listenerLife runtime.sdk provided s.life l).map fun life => { s with life := life }

/-- The store connects and its listener comes up. -/
def listenerUp : List ChannelStep :=
  [.life .connect, .life (.publish 0 0 none), .life (.first 0 0 none),
    .life (.answer 0 0 .subscribed)]

/-! ## What each step does -/

/-- A look at the notifications: what the call names, until when, and the time of the look. -/
structure WakeLook where
  queues : List String
  deadline : Int
  nowMs : Nat
deriving DecidableEq, Repr

namespace ChannelState

variable {runtime : WakeRuntime} {provided : Bool} {s s' : ChannelState} {l : ChannelStep}
  {c c' : Nat} {call call' : WakeCall} {queue : String} {queues : List String} {nowMs : Nat}

/-- The look that a step takes. -/
def lookAt (runtime : WakeRuntime) (s : ChannelState) : ChannelStep → Option WakeLook
  | .claimWake _ queues timeoutMs nowMs _ =>
      if s.life.listener then
        some { queues := queues, deadline := nowMs + timeoutMs, nowMs := nowMs }
      else none
  | .resume c nowMs => match s.calls c with
    | some call => match call.key, call.phase with
      | .queued queues, .woken =>
          some { queues := queues, deadline := call.deadline, nowMs := nowMs }
      | .queued queues, .expired =>
          if runtime.raisesTimeout then none
          else some { queues := queues, deadline := call.deadline, nowMs := nowMs }
      | _, _ => none
    | none => none
  | _ => none

/-- The step makes a `claim_wake` wait, or wait again. -/
def clears (runtime : WakeRuntime) (s : ChannelState) (l : ChannelStep) : Bool :=
  (s.lookAt runtime l).any fun look =>
    !s.hits look.queues && decide ((look.nowMs : Int) < look.deadline)

/-- What a call that does not look at the notifications goes through. -/
inductive Move (s : ChannelState) (call : WakeCall) : WakePhase → Prop
  | expired (h : call.onChannel = true) : Move s call .expired
  | raised : Move s call .raised
  | done (atMs : Nat) (h : ∀ queues, call.key ≠ .queued queues) :
      Move s call (.returned false atMs)
  | slept (atMs : Nat) (h : call.deadline ≤ atMs) : Move s call (.returned false atMs)
  /-- its wait starts and is over at once -/
  | passed (h : s.queuedEvent = true) : Move s call .woken
  /-- its wait starts -/
  | waits (hphase : call.phase = .scheduled)
      (hevent : ∀ queues, call.key = .queued queues → s.queuedEvent = false) :
      Move s call .waiting

end ChannelState

/-- The listener has gone on by a step of its own, or not at all. -/
def ListenerState.Follows (runtime : WakeRuntime) (provided : Bool) (s s' : ListenerState) : Prop :=
  s' = s ∨ ∃ l, listenerLife runtime.sdk provided s l = some s'

/-- What a step does to the channel. -/
inductive ChannelEffect (runtime : WakeRuntime) (provided : Bool) (s : ChannelState)
    (l : ChannelStep) : ChannelState → Prop
  | aside (life : ListenerState) (wakeable : Finset String)
      (hlife : s.life.Follows runtime provided life)
      (hup : s.life.listener = true →
        life.listener = true ∨ s.life.closeAwaits runtime.sdk = true) :
      ChannelEffect runtime provided s l { s with life := life, wakeable := wakeable }
  | polls (c : Nat) (call : WakeCall) (life : ListenerState) (wakeable : Finset String)
      (hlife : s.life.Follows runtime provided life) (hnew : s.calls c = none)
      (hdown : s.life.listener = false) (hphase : call.phase = .polling) :
      ChannelEffect runtime provided s l
        ({ s with life := life, wakeable := wakeable }.setCall c call)
  | watches (c : Nat) (call : WakeCall) (hnew : s.calls c = none)
      (hkey : ∀ queues, call.key ≠ .queued queues) (hup : s.life.listener = true)
      (hphase : call.phase = if runtime.deferred then .scheduled else .waiting) :
      ChannelEffect runtime provided s l (s.setCall c call)
  | looks (c : Nat) (call : WakeCall) (queues : List String) (nowMs : Nat)
      (wakeable : Finset String) (hkey : call.key = .queued queues)
      (hold : s.calls c = none ∨
        s.calls c = some call ∧ (call.phase = .woken ∨ call.phase = .expired))
      (hlook : s.lookAt runtime l = some ⟨queues, call.deadline, nowMs⟩) :
      ChannelEffect runtime provided s l
        ({ s with wakeable := wakeable }.look runtime c call queues nowMs)
  | moves (c : Nat) (call : WakeCall) (phase : WakePhase) (hold : s.calls c = some call)
      (hphase : call.phase = .polling ∨ call.onChannel = true) (hmove : s.Move call phase) :
      ChannelEffect runtime provided s l (s.setCall c (call.goTo phase))
  | notified (channel : String) (payload : Option String) :
      ChannelEffect runtime provided s l (s.onNotification runtime channel payload)
  | released (life : ListenerState) (hlife : s.life.Follows runtime provided life) :
      ChannelEffect runtime provided s l ({ s with life := life }.releaseWaiters runtime)

namespace ChannelState

variable {runtime : WakeRuntime} {provided : Bool} {s s' : ChannelState} {l : ChannelStep}
  {c c' : Nat} {call call' : WakeCall} {queue : String} {queues : List String} {nowMs : Nat}

theorem listener_conclude {life : ListenerState} {a : ListenAttempt} {verdict : ListenVerdict}
    {i : Nat} (hup : life.listener = true) : (life.conclude i a nowMs verdict).listener = true := by
  cases verdict with
  | subscribed =>
      simp only [ListenerState.conclude, ListenerState.setStage, ListenerState.record]
      split
      · exact hup
      · rfl
  | unavailable | failed | nothing => exact hup

theorem listener_firstTurn {life : ListenerState} {a : ListenAttempt} {i : Nat}
    {turn : Option ListenVerdict} (hup : life.listener = true) :
    (life.firstTurn provided i a nowMs turn).listener = true := by
  unfold ListenerState.firstTurn
  split
  · cases turn with
    | none => exact hup
    | some verdict => exact listener_conclude hup
  · exact listener_conclude hup

/-- While there is a listener nobody starts an attempt. -/
theorem listenerReady_of_listener {sdk : Sdk} {life : ListenerState}
    {turn : Option ListenVerdict} (hup : life.listener = true) :
    life.listenerReady sdk provided nowMs turn = life := by
  have hstarts : life.starts nowMs = false := by
    simp only [ListenerState.starts, hup, Bool.not_true, Bool.false_and]
  rw [ListenerState.listenerReady, hstarts]
  rfl

/-- A listener goes away only when it is lost or the store closed. -/
theorem listener_of_life {sdk : Sdk} {life life' : ListenerState} {l : ListenerStep}
    (h : listenerLife sdk provided life l = some life') (hlost : l ≠ .lost) (hclose : l ≠ .close)
    (hup : life.listener = true) : life'.listener = true := by
  cases l with
  | lost => exact absurd rfl hlost
  | close => exact absurd rfl hclose
  | connect =>
      simp only [listenerLife] at h
      split at h <;> cases h <;> exact hup
  | publish generation nowMs turn =>
      simp only [listenerLife] at h
      split at h
      · cases h
        split
        · rw [listenerReady_of_listener]
          · exact hup
          · exact hup
        · exact hup
      · cases h
  | connectFails generation =>
      simp only [listenerLife, Option.ite_none_right_eq_some] at h
      cases h.2
      exact hup
  | wake nowMs turn =>
      cases h
      rw [listenerReady_of_listener hup]
      exact hup
  | first i nowMs turn =>
      cases hi : life.attempts[i]? with
      | none => simp only [listenerLife, hi, reduceCtorEq] at h
      | some a =>
          simp only [listenerLife, hi, Option.ite_none_right_eq_some, Option.some.injEq] at h
          rw [← h.2]
          exact listener_firstTurn hup
  | answer i nowMs verdict =>
      cases hi : life.attempts[i]? with
      | none => simp only [listenerLife, hi, reduceCtorEq] at h
      | some a =>
          simp only [listenerLife, hi, Option.ite_none_right_eq_some, Option.some.injEq] at h
          rw [← h.2]
          exact listener_conclude hup
  | cancel i =>
      simp only [listenerLife, Option.ite_none_right_eq_some, Option.some.injEq] at h
      rw [← h.2, ListenerState.cancelScheduled]
      split
      · split <;> exact hup
      · exact hup
  | resume i =>
      simp only [listenerLife, Option.ite_none_right_eq_some, Option.some.injEq] at h
      rw [← h.2]
      exact hup

/-- A step of `claim_wake`. -/
theorem channelEffect_of_claimWake {timeoutMs : Int} {turn : Option ListenVerdict}
    (hnew : s.calls c = none) :
    ChannelEffect runtime provided s (.claimWake c queues timeoutMs nowMs turn)
      ((s.registerWakeable queues).enter runtime provided c (.queued queues) timeoutMs nowMs
        turn) := by
  by_cases hup : s.life.listener = true
  · have henter : (s.registerWakeable queues).enter runtime provided c (.queued queues) timeoutMs
        nowMs turn = (s.registerWakeable queues).look runtime c
          { key := .queued queues, deadline := nowMs + timeoutMs, phase := .polling } queues
          nowMs := if_pos hup
    rw [henter]
    exact .looks c _ queues nowMs _ rfl (Or.inl hnew) (if_pos hup)
  · have henter : (s.registerWakeable queues).enter runtime provided c (.queued queues) timeoutMs
        nowMs turn = { s.registerWakeable queues with
          life := s.life.listenerReady runtime.sdk provided nowMs turn }.setCall c
            { key := .queued queues, deadline := nowMs + timeoutMs, phase := .polling } :=
      if_neg hup
    rw [henter]
    exact .polls c _ _ _ (Or.inr ⟨.wake nowMs turn, rfl⟩) hnew (Bool.eq_false_iff.mpr hup) rfl

theorem channelEffect_of_taskDoneWake {taskId : String} {timeoutMs : Int}
    {turn : Option ListenVerdict} (hnew : s.calls c = none) :
    ChannelEffect runtime provided s (.taskDoneWake c taskId timeoutMs nowMs turn)
      (s.enter runtime provided c (.done taskId) timeoutMs nowMs turn) := by
  unfold enter
  split
  · rename_i hup
    exact .watches c _ hnew (fun _ h => nomatch h) hup rfl
  · rename_i hup
    exact .polls c _ _ _ (Or.inr ⟨.wake nowMs turn, rfl⟩) hnew (Bool.eq_false_iff.mpr hup) rfl

theorem channelEffect_of_resume (hold : s.calls c = some call)
    (hphase : call.phase = .woken ∨ call.phase = .expired ∧ runtime.raisesTimeout = false) :
    ChannelEffect runtime provided s (.resume c nowMs) (s.runOn runtime c call nowMs) := by
  unfold runOn
  cases hkey : call.key with
  | queued queues =>
      refine .looks (s := s) c call queues nowMs s.wakeable hkey ?_ ?_
      · exact Or.inr ⟨hold, hphase.imp id And.left⟩
      · rcases hphase with hphase | ⟨hphase, hraise⟩
        · simp only [lookAt, hold, hkey, hphase]
        · simp only [lookAt, hold, hkey, hphase, hraise, Bool.false_eq_true, if_false]
  | done taskId =>
      refine .moves c call _ hold (Or.inr ?_) (.done nowMs fun queues h => ?_)
      · rcases hphase with hphase | ⟨hphase, _⟩ <;> rw [WakeCall.onChannel, hphase]
      · rw [hkey] at h
        cases h

theorem channelEffect_of_step (h : wakeChannel runtime provided s l = some s') :
    ChannelEffect runtime provided s l s' := by
  cases l with
  | claimWake c queues timeoutMs nowMs turn =>
      cases hcall : s.calls c with
      | some call => simp only [wakeChannel, hcall, reduceCtorEq] at h
      | none =>
          simp only [wakeChannel, hcall, Option.some.injEq] at h
          rw [← h]
          exact channelEffect_of_claimWake hcall
  | taskDoneWake c taskId timeoutMs nowMs turn =>
      cases hcall : s.calls c with
      | some call => simp only [wakeChannel, hcall, reduceCtorEq] at h
      | none =>
          simp only [wakeChannel, hcall, Option.some.injEq] at h
          rw [← h]
          exact channelEffect_of_taskDoneWake hcall
  | claimSession queues =>
      cases h
      exact .aside s.life _ (Or.inl rfl) Or.inl
  | notification channel payload =>
      cases h
      exact .notified channel payload
  | waitStarts c =>
      cases hcall : s.calls c with
      | none => simp only [wakeChannel, hcall, reduceCtorEq] at h
      | some call =>
          cases hphase : call.phase with
          | scheduled =>
              have hchannel : call.onChannel = true := by rw [WakeCall.onChannel, hphase]
              cases hkey : call.key with
              | queued queues =>
                  simp only [wakeChannel, hcall, hkey, hphase, Option.some.injEq] at h
                  rw [← h]
                  refine .moves c call _ hcall (Or.inr hchannel) ?_
                  by_cases hevent : s.queuedEvent = true
                  · rw [if_pos hevent]
                    exact .passed hevent
                  · rw [if_neg hevent]
                    exact .waits hphase fun _ _ => Bool.eq_false_iff.mpr hevent
              | done taskId =>
                  simp only [wakeChannel, hcall, hkey, hphase, Option.some.injEq] at h
                  rw [← h]
                  refine .moves c call _ hcall (Or.inr hchannel) (.waits hphase fun _ h' => ?_)
                  rw [hkey] at h'
                  cases h'
          | _ => cases hkey : call.key <;> simp [wakeChannel, hcall, hkey, hphase] at h
  | timer c =>
      cases hcall : s.calls c with
      | none => simp only [wakeChannel, hcall, reduceCtorEq] at h
      | some call =>
          have hmoves (hchannel : call.onChannel = true) :
              ChannelEffect runtime provided s (.timer c) (s.setCall c (call.goTo .expired)) :=
            .moves c call _ hcall (Or.inr hchannel) (.expired hchannel)
          cases hphase : call.phase with
          | scheduled | waiting =>
              simp only [wakeChannel, hcall, hphase, Option.some.injEq] at h
              rw [← h]
              exact hmoves (by rw [WakeCall.onChannel, hphase])
          | woken =>
              simp only [wakeChannel, hcall, hphase, Option.ite_none_right_eq_some,
                Option.some.injEq] at h
              rw [← h.2]
              exact hmoves (by rw [WakeCall.onChannel, hphase])
          | _ => simp [wakeChannel, hcall, hphase] at h
  | resume c nowMs =>
      cases hcall : s.calls c with
      | none => simp only [wakeChannel, hcall, reduceCtorEq] at h
      | some call =>
          cases hphase : call.phase with
          | woken =>
              simp only [wakeChannel, hcall, hphase, Option.some.injEq] at h
              rw [← h]
              exact channelEffect_of_resume hcall (Or.inl hphase)
          | expired =>
              simp only [wakeChannel, hcall, hphase, Option.some.injEq] at h
              rw [← h]
              by_cases hraise : runtime.raisesTimeout = true
              · rw [if_pos hraise]
                refine .moves c call _ hcall (Or.inr ?_) .raised
                rw [WakeCall.onChannel, hphase]
              · rw [if_neg hraise]
                exact channelEffect_of_resume hcall
                  (Or.inr ⟨hphase, Bool.eq_false_iff.mpr hraise⟩)
          | _ => simp [wakeChannel, hcall, hphase] at h
  | sleepEnds c nowMs =>
      cases hcall : s.calls c with
      | none => simp only [wakeChannel, hcall, reduceCtorEq] at h
      | some call =>
          simp only [wakeChannel, hcall, Option.ite_none_right_eq_some, Option.some.injEq] at h
          rcases h with ⟨⟨hphase, hdue⟩, rfl⟩
          exact .moves c call _ hcall (Or.inl hphase) (.slept nowMs hdue)
  | cancel c =>
      cases hcall : s.calls c with
      | none => simp only [wakeChannel, hcall, reduceCtorEq] at h
      | some call =>
          simp only [wakeChannel, hcall, Option.ite_none_right_eq_some, Option.some.injEq] at h
          rcases h with ⟨⟨_, hphase⟩, rfl⟩
          exact .moves c call _ hcall hphase .raised
  | lost =>
      cases h
      exact .released _ (Or.inr ⟨.lost, rfl⟩)
  | close =>
      simp only [wakeChannel, Option.some.injEq] at h
      rw [← h]
      split
      · rename_i hawaits
        exact .aside _ s.wakeable (Or.inr ⟨.close, rfl⟩) fun _ => Or.inr hawaits
      · exact .released _ (Or.inr ⟨.close, rfl⟩)
  | closeResumes i =>
      rcases Option.map_eq_some_iff.mp h with ⟨life, hlife, rfl⟩
      exact .released life (Or.inr ⟨_, hlife⟩)
  | life l =>
      cases l with
      | wake _ _ | lost | close | resume _ => cases h
      | _ =>
          rcases Option.map_eq_some_iff.mp h with ⟨life, hlife, rfl⟩
          exact .aside life s.wakeable (Or.inr ⟨_, hlife⟩) fun hup =>
            Or.inl (listener_of_life hlife nofun nofun hup)

/-! ## The operations, field by field -/

theorem take_queue (d : WakeDelivery) : (d.take c queues).queue = d.queue := by
  unfold WakeDelivery.take
  split <;> rfl

theorem take_of_mem {d : WakeDelivery} (hfree : d.takenBy = none) (hqueue : d.queue ∈ queues) :
    (d.take c queues).takenBy = some c := by
  rw [WakeDelivery.take, if_pos ⟨hfree, hqueue⟩]

theorem take_of_not_mem {d : WakeDelivery} (hqueue : d.queue ∉ queues) :
    d.take c queues = d :=
  if_neg fun h => hqueue h.2

theorem take_of_taken {d : WakeDelivery} (htaken : d.takenBy = some c') :
    d.take c queues = d := by
  refine if_neg fun h => ?_
  rw [htaken] at h
  cases h.1

/-- Who has taken a notification after a call took its own. -/
theorem takenBy_take {d : WakeDelivery} (h : (d.take c queues).takenBy = some c') :
    d.takenBy = some c' ∨ c' = c ∧ d.queue ∈ queues := by
  unfold WakeDelivery.take at h
  split at h
  · rename_i hfree
    exact Or.inr ⟨(Option.some.inj h).symm, hfree.2⟩
  · exact Or.inl h

theorem free_take {d : WakeDelivery} (h : (d.take c queues).takenBy = none) :
    d.takenBy = none ∧ d.queue ∉ queues := by
  unfold WakeDelivery.take at h
  split at h
  · cases h
  · rename_i hfree
    exact ⟨h, fun hqueue => hfree ⟨h, hqueue⟩⟩

theorem calls_setCall_self : (s.setCall c call).calls c = some call := if_pos rfl

theorem calls_setCall_ne (h : c' ≠ c) : (s.setCall c call).calls c' = s.calls c' := if_neg h

theorem calls_setCall (h : (s.setCall c call).calls c' = some call') :
    c' = c ∧ call' = call ∨ c' ≠ c ∧ s.calls c' = some call' := by
  by_cases hc : c' = c
  · rw [hc, calls_setCall_self] at h
    exact Or.inl ⟨hc, (Option.some.inj h).symm⟩
  · rw [calls_setCall_ne hc] at h
    exact Or.inr ⟨hc, h⟩

theorem hits_iff : s.hits queues = true ↔ ∃ q ∈ queues, q ∈ s.pending := by
  simp only [hits, List.any_eq_true, decide_eq_true_eq]

theorem hearQueued_of_waiting (hkey : call.key = .queued queues) (hphase : call.phase = .waiting) :
    call.hearQueued = call.goTo .woken := by
  simp only [WakeCall.hearQueued, hkey, hphase]

theorem hearQueued_of_not_waiting (h : call.phase ≠ .waiting) : call.hearQueued = call := by
  unfold WakeCall.hearQueued
  split
  · rename_i hphase
    exact absurd hphase h
  · rfl

theorem hearQueued_of_done {taskId : String} (h : call.key = .done taskId) :
    call.hearQueued = call := by
  unfold WakeCall.hearQueued
  split
  · rename_i hkey _
    rw [h] at hkey
    cases hkey
  · rfl

/-- A call that hears of something stays as it is or is woken from its wait. -/
def Hears (call call' : WakeCall) : Prop :=
  call' = call ∨ (call.phase = .waiting ∨ call.phase = .scheduled) ∧ call' = call.goTo .woken

theorem hears_queued (call : WakeCall) : Hears call call.hearQueued := by
  unfold WakeCall.hearQueued
  split
  · rename_i hphase
    exact Or.inr ⟨Or.inl hphase, rfl⟩
  · exact Or.inl rfl

theorem hears_done (watched : String → Bool) (call : WakeCall) :
    Hears call (call.hearDone watched) := by
  unfold WakeCall.hearDone
  split
  · rename_i hphase
    split
    · exact Or.inr ⟨Or.inl hphase, rfl⟩
    · exact Or.inl rfl
  · rename_i hphase
    split
    · exact Or.inr ⟨Or.inr hphase, rfl⟩
    · exact Or.inl rfl
  · exact Or.inl rfl

theorem Hears.key (h : Hears call call') : call'.key = call.key := by
  rcases h with rfl | ⟨_, rfl⟩ <;> rfl

/-- Whoever is not woken is as before. -/
theorem Hears.eq_of_ne (h : Hears call call') (hphase : call'.phase ≠ .woken) : call' = call := by
  rcases h with rfl | ⟨_, rfl⟩
  · rfl
  · exact absurd rfl hphase

/-- So after something has reached every call, whoever was not woken is as before. -/
theorem calls_of_hears {f : WakeCall → WakeCall} (hears : ∀ call, Hears call (f call))
    (hcalls : s'.calls c = (s.calls c).map f) (hcall : s'.calls c = some call)
    (hphase : call.phase ≠ .woken) : s.calls c = some call ∧ f call = call := by
  rw [hcalls, Option.map_eq_some_iff] at hcall
  rcases hcall with ⟨before, hbefore, rfl⟩
  have hsame := (hears before).eq_of_ne hphase
  rw [hsame]
  exact ⟨hbefore, hsame⟩

/-- Whoever does not wait hears nothing. -/
theorem Hears.eq_of_returned {consumed : Bool} (h : Hears call call')
    (hphase : call.phase = .returned consumed nowMs) : call' = call := by
  rcases h with rfl | ⟨hwaits, _⟩
  · rfl
  · rw [hphase] at hwaits
    rcases hwaits with h | h <;> cases h

/-! ## The event and the calls that wait -/

/-- What the event says about the calls. -/
structure Tidy (runtime : WakeRuntime) (s : ChannelState) : Prop where
  /-- while a `claim_wake` waits, the event is clear -/
  event : ∀ (c : Nat) (call : WakeCall) (queues : List String), s.calls c = some call →
    call.key = .queued queues → call.phase = .waiting → s.queuedEvent = false
  scheduled : ∀ (c : Nat) (call : WakeCall), s.calls c = some call → call.phase = .scheduled →
    runtime.deferred = true

theorem Tidy.fresh (runtime : WakeRuntime) : fresh.Tidy runtime where
  event := by
    intro c call queues h
    cases h
  scheduled := by
    intro c call h
    cases h

theorem Tidy.setCall (h : s.Tidy runtime)
    (hevent : ∀ queues, call.key = .queued queues → call.phase = .waiting →
      s.queuedEvent = false)
    (hscheduled : call.phase = .scheduled → runtime.deferred = true) :
    (s.setCall c call).Tidy runtime where
  event := by
    intro c' call' queues hcall hkey hphase
    rcases calls_setCall hcall with ⟨_, rfl⟩ | ⟨_, hold⟩
    · exact hevent queues hkey hphase
    · exact h.event c' call' queues hold hkey hphase
  scheduled := by
    intro c' call' hcall hphase
    rcases calls_setCall hcall with ⟨_, rfl⟩ | ⟨_, hold⟩
    · exact hscheduled hphase
    · exact h.scheduled c' call' hold hphase

theorem Tidy.rest (h : s.Tidy runtime) : (s.rest runtime c call).Tidy runtime := by
  have hclear : { s with queuedEvent := false }.Tidy runtime :=
    { event := fun _ _ _ _ _ _ => rfl, scheduled := h.scheduled }
  refine hclear.setCall (fun _ _ _ => rfl) fun hphase => ?_
  by_cases hdeferred : runtime.deferred = true
  · exact hdeferred
  · rw [if_neg hdeferred] at hphase
    cases hphase

theorem Tidy.look (h : s.Tidy runtime) : (s.look runtime c call queues nowMs).Tidy runtime := by
  unfold ChannelState.look
  split
  · have hconsumed : (s.consume c queues).Tidy runtime :=
      { event := h.event, scheduled := h.scheduled }
    exact hconsumed.setCall (fun _ _ hphase => nomatch hphase) fun hphase => nomatch hphase
  · split
    · exact h.setCall (fun _ _ hphase => nomatch hphase) fun hphase => nomatch hphase
    · exact h.rest

/-- Every call that waits hears the event. -/
theorem calls_raiseQueued (h : s.Tidy runtime) (c : Nat) :
    (s.raiseQueued runtime).calls c = (s.calls c).map WakeCall.hearQueued := by
  unfold raiseQueued
  split
  · rfl
  · split
    · rename_i hset
      cases hcall : s.calls c with
      | none => rfl
      | some call =>
          have hsame : call.hearQueued = call := by
            cases hkey : call.key with
            | done taskId => exact hearQueued_of_done hkey
            | queued queues =>
                refine hearQueued_of_not_waiting fun hphase => ?_
                have hclear := h.event c call queues hcall hkey hphase
                rw [hset] at hclear
                cases hclear
          rw [Option.map_some, hsame]
    · rfl

theorem queuedEvent_raiseQueued (h : runtime.sdk = .python) :
    (s.raiseQueued runtime).queuedEvent = true := by
  simp only [raiseQueued, h]
  split
  · assumption
  · rfl

/-- Waking leaves everything but the event and the calls alone. -/
theorem frame_raiseQueued : (s.raiseQueued runtime).pending = s.pending ∧
    (s.raiseQueued runtime).deliveries = s.deliveries ∧
    (s.raiseQueued runtime).life = s.life := by
  unfold raiseQueued
  split
  · exact ⟨rfl, rfl, rfl⟩
  · split <;> exact ⟨rfl, rfl, rfl⟩

/-- No `claim_wake` waits once the event has been set. -/
theorem not_waiting_raiseQueued (h : s.Tidy runtime)
    (hcall : (s.raiseQueued runtime).calls c = some call) (hkey : call.key = .queued queues) :
    call.phase ≠ .waiting := by
  intro hphase
  have hsame := (calls_of_hears hears_queued (calls_raiseQueued h c) hcall
    (by rw [hphase]; decide)).2
  rw [hearQueued_of_waiting hkey hphase] at hsame
  rw [← hsame] at hphase
  cases hphase

theorem Tidy.raiseQueued (h : s.Tidy runtime) : (s.raiseQueued runtime).Tidy runtime where
  event := fun _ _ _ hcall hkey hphase => absurd hphase (not_waiting_raiseQueued h hcall hkey)
  scheduled := by
    intro c call hcall hphase
    have hbefore := (calls_of_hears hears_queued (calls_raiseQueued h c) hcall
      (by rw [hphase]; decide)).1
    exact h.scheduled c call hbefore hphase

theorem Tidy.hearDone (h : s.Tidy runtime) (watched : String → Bool) :
    (s.mapCalls (WakeCall.hearDone watched)).Tidy runtime where
  event := by
    intro c call queues hcall hkey hphase
    have hbefore := (calls_of_hears (hears_done watched) rfl hcall (by rw [hphase]; decide)).1
    exact h.event c call queues hbefore hkey hphase
  scheduled := by
    intro c call hcall hphase
    have hbefore := (calls_of_hears (hears_done watched) rfl hcall (by rw [hphase]; decide)).1
    exact h.scheduled c call hbefore hphase

theorem Tidy.addPending (h : s.Tidy runtime) : (s.addPending queue).Tidy runtime := by
  unfold ChannelState.addPending
  split
  · exact { event := h.event, scheduled := h.scheduled }
  · exact h

theorem Tidy.onNotification {channel : String} {payload : Option String} (h : s.Tidy runtime) :
    (s.onNotification runtime channel payload).Tidy runtime := by
  unfold ChannelState.onNotification
  split
  · exact h
  · exact h
  · split
    · exact h.addPending.raiseQueued
    · split
      · exact h.hearDone _
      · exact h

theorem Tidy.move {phase : WakePhase} (h : s.Tidy runtime) (hmove : s.Move call phase) :
    (s.setCall c (call.goTo phase)).Tidy runtime := by
  cases hmove with
  | waits hphase hevent =>
      exact h.setCall (fun queues hkey _ => hevent queues hkey) fun h' => nomatch h'
  | expired _ | raised | done _ _ | slept _ _ | passed _ =>
      exact h.setCall (fun _ _ h' => nomatch h') fun h' => nomatch h'

theorem Tidy.of_step (h : s.Tidy runtime) (hstep : wakeChannel runtime provided s l = some s') :
    s'.Tidy runtime := by
  cases channelEffect_of_step hstep with
  | aside life wakeable _ _ => exact { event := h.event, scheduled := h.scheduled }
  | polls c call life wakeable _ _ _ hphase =>
      have haside : { s with life := life, wakeable := wakeable }.Tidy runtime :=
        { event := h.event, scheduled := h.scheduled }
      refine haside.setCall (fun _ _ h' => ?_) fun h' => ?_
      · rw [hphase] at h'
        cases h'
      · rw [hphase] at h'
        cases h'
  | watches c call _ hkey _ hphase =>
      refine h.setCall (fun queues h' _ => absurd h' (hkey queues)) fun h' => ?_
      by_cases hdeferred : runtime.deferred = true
      · exact hdeferred
      · rw [hphase, if_neg hdeferred] at h'
        cases h'
  | looks c call queues nowMs wakeable _ _ _ =>
      have haside : { s with wakeable := wakeable }.Tidy runtime :=
        { event := h.event, scheduled := h.scheduled }
      exact haside.look
  | moves c call phase _ _ hmove => exact h.move hmove
  | notified channel payload => exact h.onNotification
  | released life _ =>
      have haside : { s with life := life }.Tidy runtime :=
        { event := h.event, scheduled := h.scheduled }
      exact haside.raiseQueued.hearDone _

end ChannelState

end CairnQ
