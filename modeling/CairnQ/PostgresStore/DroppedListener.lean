import CairnQ.PostgresStore.WakeChannel

/-!
# The dropped listener

What becomes of the calls that wait on the wake channel when the subscription is lost or the
store closed.  The drop wakes them all, through the same broadcast that a notification uses;
a `task_done_wake` then returns, while a `claim_wake` looks at the notifications and may go
round its loop, which does not ask again whether there is a listener.

Main results:

- Theorem `Attached.of_step`: whoever sleeps on the channel has a listener, as long as no
  `claim_wake` goes to wait without one.
- Theorem `dropped_listener`: so a drop leaves nobody behind.
- Theorem `dropped_listener_fails`: in both SDKs it leaves a call that goes round its loop.
-/

namespace CairnQ

open Transition

/-! ## The attempts -/

namespace ListenerState

variable {provided : Bool} {s s' : ListenerState} {l : ListenerStep} {i nowMs : Nat}
  {a : ListenAttempt}

/-- In Python one attempt is in progress at a time, and none while there is a listener. -/
def Sole (s : ListenerState) : Prop :=
  ∀ (i : Nat) (a : ListenAttempt), s.attempts[i]? = some a → a.stage ≠ .over →
    s.connecting = some i ∧ s.listener = false

theorem Sole.fresh : fresh.Sole := by
  intro i a h
  cases h

theorem Sole.conclude {verdict : ListenVerdict} (h : s.Sole) (hi : s.attempts[i]? = some a)
    (hstage : a.stage ≠ .over) : (s.conclude i a nowMs verdict).Sole := by
  intro j b hb hin
  rcases cases_getElem?_set hb with ⟨_, rfl⟩ | ⟨hne, hold⟩
  · exact absurd rfl hin
  · have hold : s.attempts[j]? = some b := (record_eq s a nowMs verdict).1 ▸ hold
    have hfirst := (h i a hi hstage).1
    have hsecond := (h j b hold hin).1
    rw [hfirst] at hsecond
    exact absurd (Option.some.inj hsecond).symm hne

theorem Sole.setStage {stage : ListenStage} (h : s.Sole) (hi : s.attempts[i]? = some a)
    (hstage : a.stage ≠ .over) : (s.setStage i a stage).Sole := by
  intro j b hb hin
  rcases cases_getElem?_set hb with ⟨rfl, _⟩ | ⟨_, hold⟩
  · exact h j a hi hstage
  · exact h j b hold hin

theorem Sole.firstTurn {turn : Option ListenVerdict} (h : s.Sole) (hi : s.attempts[i]? = some a)
    (hstage : a.stage ≠ .over) : (s.firstTurn provided i a nowMs turn).Sole := by
  unfold ListenerState.firstTurn
  split
  · cases turn with
    | none => exact h.setStage hi hstage
    | some verdict => exact h.conclude hi hstage
  · exact h.conclude hi hstage

theorem Sole.listenerReady {turn : Option ListenVerdict} (h : s.Sole) :
    (s.listenerReady .python provided nowMs turn).Sole := by
  unfold ListenerState.listenerReady
  split
  · rename_i hstarts
    simp only [starts, Bool.and_eq_true, Bool.not_eq_true', Option.isNone_iff_eq_none] at hstarts
    intro j b hb hin
    rcases cases_getElem?_concat hb with ⟨hlast, _⟩ | hold
    · exact ⟨congrArg some hlast.symm, hstarts.1.1.1⟩
    · have hbusy := (h j b hold hin).1
      rw [hstarts.1.2] at hbusy
      cases hbusy
  · exact h

theorem Sole.cancelScheduled (h : s.Sole) : (s.cancelScheduled i).Sole := by
  unfold ListenerState.cancelScheduled
  split
  · rename_i a hi
    split
    · rename_i hstage
      exact h.setStage hi (by rw [hstage]; decide)
    · exact h
  · exact h

theorem Sole.shut (h : s.Sole) : s.shut.Sole :=
  fun i a hi hin => ⟨(h i a hi hin).1, rfl⟩

theorem Sole.close (h : s.Sole) : (s.close .python).Sole := by
  unfold ListenerState.close
  split
  · exact h.shut
  · exact h.shut
  · split
    · exact h.shut.cancelScheduled
    · exact h.shut

theorem Sole.of_step (h : s.Sole) (hstep : listenerLife .python provided s l = some s') :
    s'.Sole := by
  cases l with
  | connect =>
      simp only [listenerLife] at hstep
      split at hstep <;> cases hstep <;> exact h
  | publish generation nowMs turn =>
      simp only [listenerLife] at hstep
      split at hstep
      · cases hstep
        split
        · exact Sole.listenerReady h
        · exact h
      · cases hstep
  | connectFails generation =>
      simp only [listenerLife, Option.ite_none_right_eq_some] at hstep
      cases hstep.2
      exact h
  | wake nowMs turn =>
      cases hstep
      exact h.listenerReady
  | first i nowMs turn =>
      cases hi : s.attempts[i]? with
      | none => simp only [listenerLife, hi, reduceCtorEq] at hstep
      | some a =>
          simp only [listenerLife, hi, Option.ite_none_right_eq_some, Option.some.injEq] at hstep
          rcases hstep with ⟨hstage, rfl⟩
          exact h.firstTurn hi (by rw [hstage]; decide)
  | answer i nowMs verdict =>
      cases hi : s.attempts[i]? with
      | none => simp only [listenerLife, hi, reduceCtorEq] at hstep
      | some a =>
          simp only [listenerLife, hi, Option.ite_none_right_eq_some, Option.some.injEq] at hstep
          rcases hstep with ⟨hstage, rfl⟩
          exact h.conclude hi (by rw [hstage]; decide)
  | cancel i =>
      simp only [listenerLife, Option.ite_none_right_eq_some, Option.some.injEq] at hstep
      rcases hstep with ⟨_, rfl⟩
      exact h.cancelScheduled
  | lost =>
      cases hstep
      exact fun i a hi hin => ⟨(h i a hi hin).1, rfl⟩
  | close =>
      cases hstep
      exact h.close
  | resume i =>
      simp only [listenerLife, Option.ite_none_right_eq_some, Option.some.injEq] at hstep
      rcases hstep with ⟨_, rfl⟩
      exact h

/-- A close that awaits an attempt finds no listener. -/
theorem Sole.closeAwaits (h : s.Sole) {sdk : Sdk} (hawaits : s.closeAwaits sdk = true) :
    s.listener = false := by
  simp only [ListenerState.closeAwaits, Bool.and_eq_true, Option.any_eq_true] at hawaits
  rcases hawaits with ⟨_, i, _, hin⟩
  simp only [inProgress, Option.any_eq_true, decide_eq_true_eq] at hin
  rcases hin with ⟨a, hi, hstage⟩
  exact (h i a hi hstage).2

end ListenerState

/-! ## Those who wait -/

namespace ChannelState

variable {runtime : WakeRuntime} {provided : Bool} {s s' : ChannelState} {l : ChannelStep}
  {c c' : Nat} {call call' : WakeCall} {queue : String} {queues : List String} {nowMs : Nat}

theorem Sole.of_follows (h : s.life.Sole) (hsdk : runtime.sdk = .python) {life : ListenerState}
    (hlife : s.life.Follows runtime provided life) : life.Sole := by
  rcases hlife with rfl | ⟨l', hstep⟩
  · exact h
  · rw [hsdk] at hstep
    exact h.of_step hstep

/-- Whoever sleeps on the channel has a listener. -/
structure Attached (runtime : WakeRuntime) (s : ChannelState) : Prop where
  tidy : s.Tidy runtime
  sole : runtime.sdk = .python → s.life.Sole
  sleeps : ∀ (c : Nat) (call : WakeCall), s.calls c = some call → call.phase = .waiting →
    s.life.listener = true
  /-- a wait that has yet to start has a listener, or will find the event set -/
  starts : ∀ (c : Nat) (call : WakeCall), s.calls c = some call → call.phase = .scheduled →
    s.life.listener = true ∨ (∃ queues, call.key = .queued queues) ∧ s.queuedEvent = true

theorem Attached.fresh (runtime : WakeRuntime) : fresh.Attached runtime where
  tidy := Tidy.fresh runtime
  sole := fun _ => ListenerState.Sole.fresh
  sleeps := by
    intro c call h
    cases h
  starts := by
    intro c call h
    cases h

/-- A `claim_wake` goes to wait only while there is a listener. -/
def HasListener (runtime : WakeRuntime) (s : ChannelState) (l : ChannelStep) : Prop :=
  s.clears runtime l = true → s.life.listener = true

instance (runtime : WakeRuntime) (s : ChannelState) (l : ChannelStep) :
    Decidable (HasListener runtime s l) :=
  inferInstanceAs (Decidable (_ → _))

/-- The listener may come up, and may go away when nobody sleeps on the channel. -/
theorem Attached.aside (h : s.Attached runtime) {life : ListenerState}
    (wakeable : Finset String) (hlife : s.life.Follows runtime provided life)
    (hup : s.life.listener = true → life.listener = true ∨
      s.life.closeAwaits runtime.sdk = true) :
    { s with life := life, wakeable := wakeable }.Attached runtime := by
  have hkept (hlistener : s.life.listener = true) : life.listener = true := by
    rcases hup hlistener with hup | hawaits
    · exact hup
    · have hsdk : runtime.sdk = .python := by
        simp only [ListenerState.closeAwaits, Bool.and_eq_true, decide_eq_true_eq] at hawaits
        exact hawaits.1
      rw [(h.sole hsdk).closeAwaits hawaits] at hlistener
      cases hlistener
  exact {
    tidy := { event := h.tidy.event, scheduled := h.tidy.scheduled }
    sole := fun hsdk => Sole.of_follows (h.sole hsdk) hsdk hlife
    sleeps := fun c call hcall hphase => hkept (h.sleeps c call hcall hphase)
    starts := fun c call hcall hphase => (h.starts c call hcall hphase).imp hkept id }

/-- Putting a call in a phase that has a listener, or needs none. -/
theorem Attached.setCall (h : s.Attached runtime) (htidy : (s.setCall c call).Tidy runtime)
    (hsleeps : call.phase = .waiting → s.life.listener = true)
    (hstarts : call.phase = .scheduled → s.life.listener = true) :
    (s.setCall c call).Attached runtime where
  tidy := htidy
  sole := h.sole
  sleeps := by
    intro c' call' hcall hphase
    rcases calls_setCall hcall with ⟨_, rfl⟩ | ⟨_, hbefore⟩
    · exact hsleeps hphase
    · exact h.sleeps c' call' hbefore hphase
  starts := by
    intro c' call' hcall hphase
    rcases calls_setCall hcall with ⟨_, rfl⟩ | ⟨_, hbefore⟩
    · exact Or.inl (hstarts hphase)
    · exact h.starts c' call' hbefore hphase

theorem Attached.move {phase : WakePhase} (h : s.Attached runtime)
    (hold : s.calls c = some call) (hmove : s.Move call phase) :
    (s.setCall c (call.goTo phase)).Attached runtime := by
  have htidy := h.tidy.move hmove (c := c)
  cases hmove with
  | waits hscheduled hevent =>
      refine h.setCall htidy (fun _ => ?_) fun h' => nomatch h'
      rcases h.starts c call hold hscheduled with hup | ⟨⟨queues, hkey⟩, hset⟩
      · exact hup
      · rw [hevent queues hkey] at hset
        cases hset
  | expired _ | raised | done _ _ | slept _ _ | passed _ =>
      exact h.setCall htidy (fun h' => nomatch h') fun h' => nomatch h'

/-- A look, which goes to wait only while there is a listener. -/
theorem Attached.look (h : s.Attached runtime)
    (hlistener : s.hits queues = false → (nowMs : Int) < call.deadline → s.life.listener = true) :
    (s.look runtime c call queues nowMs).Attached runtime := by
  have htidy : (s.look runtime c call queues nowMs).Tidy runtime := h.tidy.look
  unfold ChannelState.look at htidy ⊢
  split at htidy
  · rename_i hhits
    rw [if_pos hhits]
    have hconsumed : (s.consume c queues).Attached runtime :=
      { tidy := { event := h.tidy.event, scheduled := h.tidy.scheduled }
        sole := h.sole, sleeps := h.sleeps, starts := h.starts }
    exact hconsumed.setCall htidy (fun h' => nomatch h') fun h' => nomatch h'
  · rename_i hmiss
    rw [if_neg hmiss]
    split at htidy
    · rename_i hdue
      rw [if_pos hdue]
      exact h.setCall htidy (fun h' => nomatch h') fun h' => nomatch h'
    · rename_i hearly
      rw [if_neg hearly]
      have hup := hlistener (Bool.eq_false_iff.mpr hmiss) (Int.not_le.mp hearly)
      exact {
        tidy := htidy
        sole := h.sole
        sleeps := fun _ _ _ _ => hup
        starts := fun _ _ _ _ => Or.inl hup }

/-- The event wakes whoever waits for a queue. -/
theorem Attached.raiseQueued (h : s.Attached runtime) :
    (s.raiseQueued runtime).Attached runtime where
  tidy := h.tidy.raiseQueued
  sole := by
    rw [frame_raiseQueued.2.2]
    exact h.sole
  sleeps := by
    intro c call hcall hphase
    have hbefore := (calls_of_hears hears_queued (calls_raiseQueued h.tidy c) hcall
      (by rw [hphase]; decide)).1
    rw [frame_raiseQueued.2.2]
    exact h.sleeps c call hbefore hphase
  starts := by
    intro c call hcall hphase
    have hbefore := (calls_of_hears hears_queued (calls_raiseQueued h.tidy c) hcall
      (by rw [hphase]; decide)).1
    have hdeferred := h.tidy.scheduled c call hbefore hphase
    rw [frame_raiseQueued.2.2]
    exact (h.starts c call hbefore hphase).imp id fun hkey =>
      ⟨hkey.1, queuedEvent_raiseQueued (WakeRuntime.sdk_of_deferred hdeferred)⟩

theorem Attached.hearDone (h : s.Attached runtime) (watched : String → Bool) :
    (s.mapCalls (WakeCall.hearDone watched)).Attached runtime where
  tidy := h.tidy.hearDone watched
  sole := h.sole
  sleeps := by
    intro c call hcall hphase
    have hbefore := (calls_of_hears (hears_done watched) rfl hcall (by rw [hphase]; decide)).1
    exact h.sleeps c call hbefore hphase
  starts := by
    intro c call hcall hphase
    have hbefore := (calls_of_hears (hears_done watched) rfl hcall (by rw [hphase]; decide)).1
    exact h.starts c call hbefore hphase

theorem Attached.addPending (h : s.Attached runtime) : (s.addPending queue).Attached runtime := by
  unfold ChannelState.addPending
  split
  · exact { tidy := { event := h.tidy.event, scheduled := h.tidy.scheduled }
            sole := h.sole, sleeps := h.sleeps, starts := h.starts }
  · exact h

theorem Attached.onNotification {channel : String} {payload : Option String}
    (h : s.Attached runtime) : (s.onNotification runtime channel payload).Attached runtime := by
  unfold ChannelState.onNotification
  split
  · exact h
  · exact h
  · split
    · exact h.addPending.raiseQueued
    · split
      · exact h.hearDone _
      · exact h

theorem hearDone_of_done {taskId : String} (hkey : call.key = .done taskId)
    (hphase : call.phase = .waiting ∨ call.phase = .scheduled) :
    call.hearDone (fun _ => true) = call.goTo .woken := by
  rcases hphase with hphase | hphase
  · simp only [WakeCall.hearDone, hkey, hphase, if_true]
  · simp only [WakeCall.hearDone, hkey, hphase, if_true]

/-- Releasing the waiters leaves nobody asleep. -/
theorem released_calls (htidy : s.Tidy runtime)
    (hcall : (s.releaseWaiters runtime).calls c = some call) :
    call.phase ≠ .waiting ∧ (call.phase = .scheduled →
      (∃ queues, call.key = .queued queues) ∧ (s.releaseWaiters runtime).queuedEvent = true) := by
  have hqueued (hsame : call.hearDone (fun _ => true) = call)
      (hphase : call.phase = .waiting ∨ call.phase = .scheduled) :
      ∃ queues, call.key = .queued queues := by
    cases hkey : call.key with
    | queued queues => exact ⟨queues, rfl⟩
    | done taskId =>
        rw [hearDone_of_done hkey hphase] at hsame
        rw [← hsame] at hphase
        rcases hphase with h | h <;> cases h
  constructor
  · intro hphase
    have hbefore := calls_of_hears (hears_done _) rfl hcall (by rw [hphase]; decide)
    rcases hqueued hbefore.2 (Or.inl hphase) with ⟨queues, hkey⟩
    exact not_waiting_raiseQueued htidy hbefore.1 hkey hphase
  · intro hphase
    have hbefore := calls_of_hears (hears_done _) rfl hcall (by rw [hphase]; decide)
    have hdeferred := htidy.raiseQueued.scheduled c call hbefore.1 hphase
    exact ⟨hqueued hbefore.2 (Or.inr hphase),
      queuedEvent_raiseQueued (WakeRuntime.sdk_of_deferred hdeferred)⟩

/-- So the listener may be gone once they are released. -/
theorem Attached.released (h : s.Attached runtime) {life : ListenerState}
    (hlife : s.life.Follows runtime provided life) :
    ({ s with life := life }.releaseWaiters runtime).Attached runtime := by
  have htidy : { s with life := life }.Tidy runtime :=
    { event := h.tidy.event, scheduled := h.tidy.scheduled }
  exact {
    tidy := htidy.raiseQueued.hearDone _
    sole := by
      intro hsdk
      have hsame : ({ s with life := life }.releaseWaiters runtime).life = life :=
        frame_raiseQueued.2.2
      rw [hsame]
      exact Sole.of_follows (h.sole hsdk) hsdk hlife
    sleeps := fun _ _ hcall hphase => absurd hphase (released_calls htidy hcall).1
    starts := fun _ _ hcall hphase => Or.inr ((released_calls htidy hcall).2 hphase) }

/-- Every step keeps the invariant in which no `claim_wake` goes to wait without a listener. -/
theorem Attached.of_step (h : s.Attached runtime) (hguard : HasListener runtime s l)
    (hstep : wakeChannel runtime provided s l = some s') : s'.Attached runtime := by
  cases channelEffect_of_step hstep with
  | aside life wakeable hlife hup => exact h.aside wakeable hlife hup
  | polls c call life wakeable hlife _ hdown hphase =>
      have haside := h.aside wakeable hlife fun hup => by
        rw [hdown] at hup
        cases hup
      have hne {phase : WakePhase} (hother : .polling ≠ phase) : call.phase ≠ phase := by
        rw [hphase]
        exact hother
      exact haside.setCall
        (haside.tidy.setCall (fun _ _ h' => absurd h' (hne nofun)) fun h' => absurd h' (hne nofun))
        (fun h' => absurd h' (hne nofun)) fun h' => absurd h' (hne nofun)
  | watches c call _ _ hup _ =>
      exact h.setCall (Tidy.of_step h.tidy hstep) (fun _ => hup) fun _ => hup
  | looks c call queues nowMs wakeable _ _ hlook =>
      have hsame : s.life.Follows runtime provided s.life := Or.inl rfl
      have haside := h.aside wakeable hsame Or.inl
      refine haside.look fun hmiss hearly => hguard ?_
      have hmiss' : s.hits queues = false := hmiss
      rw [clears, hlook, Option.any_some, hmiss', Bool.not_false, Bool.true_and, decide_eq_true_eq]
      exact hearly
  | moves c call phase hold _ hmove => exact h.move hold hmove
  | notified channel payload => exact h.onNotification
  | released life hlife => exact h.released hlife

/-- Nothing is about to run. -/
def Quiescent (s : ChannelState) : Prop :=
  ∀ (c : Nat) (call : WakeCall), s.calls c = some call → s.awake call = false

/-- Without a listener whoever is on the channel is about to leave it. -/
theorem Attached.awake (h : s.Attached runtime) (hdown : s.life.listener = false)
    (hcall : s.calls c = some call) (hchannel : call.onChannel = true) : s.awake call = true := by
  cases hphase : call.phase with
  | woken | expired => simp only [ChannelState.awake, hphase]
  | waiting =>
      have hup := h.sleeps c call hcall hphase
      rw [hdown] at hup
      cases hup
  | scheduled =>
      rcases h.starts c call hcall hphase with hup | ⟨⟨queues, hkey⟩, hset⟩
      · rw [hdown] at hup
        cases hup
      · simp only [ChannelState.awake, hkey, hphase]
        exact hset
  | polling | returned _ _ | raised => simp [WakeCall.onChannel, hphase] at hchannel

end ChannelState

section Results

variable {runtime : WakeRuntime} {provided : Bool} {s : ChannelState}

/-- A drop strands nobody in a run in which no `claim_wake` goes to wait without a listener:
whoever is on the channel is about to run, and once all have run nobody is. -/
theorem dropped_listener
    (hreach : (wakeChannel runtime provided).Reachable (ChannelState.HasListener runtime) .fresh s)
    (hdown : s.life.listener = false) :
    (∀ (c : Nat) (call : WakeCall), s.calls c = some call → call.onChannel = true →
      s.awake call = true) ∧
    (s.Quiescent → ∀ (c : Nat) (call : WakeCall), s.calls c = some call →
      call.onChannel = false) := by
  have hattached : s.Attached runtime :=
    hreach.invariant (fun _ _ _ hkept hguard hstep => hkept.of_step hguard hstep)
      (ChannelState.Attached.fresh runtime)
  have hawake : ∀ (c : Nat) (call : WakeCall), s.calls c = some call → call.onChannel = true →
      s.awake call = true := fun _ _ hcall hchannel => hattached.awake hdown hcall hchannel
  refine ⟨hawake, fun hquiet c call hcall => ?_⟩
  by_contra hchannel
  have hasleep := hquiet c call hcall
  rw [hawake c call hcall (Bool.not_eq_false _ ▸ hchannel)] at hasleep
  cases hasleep

/-- The listener is lost while two calls wait, one of which has been notified. -/
def lostWait : List ChannelStep :=
  listenerUp ++ [.claimWake 0 ["mail"] 1000 0 none, .taskDoneWake 1 "t" 1000 0 none,
    .notification queuedChannel (some "mail"), .lost, .resume 0 5]

theorem lostWait_hasListener : (wakeChannel .python312 false).admits
    (ChannelState.HasListener .python312) .fresh lostWait = true := by
  decide

theorem dropped_listener_lostWait :
    ((wakeChannel .python312 false).drive .fresh lostWait).awake
      { key := .done "t", deadline := 1000, phase := .woken } = true :=
  (dropped_listener (Machine.reachable_of_admits lostWait_hasListener) rfl).1 1 _ rfl rfl

/-- The listener is lost while a call waits, which then waits again. -/
def strandedWait : List ChannelStep :=
  listenerUp ++ [.claimWake 0 ["mail"] 1000 0 none, .lost, .resume 0 5]

/-- In a state that a run without conditions reaches, a call sleeps without a listener. -/
theorem stranded_of_calls {call : WakeCall} (hreach :
      (wakeChannel runtime provided).Reachable anyStep .fresh s)
    (hdown : s.life.listener = false) (hcall : s.calls 0 = some call)
    (hothers : ∀ c, s.calls (c + 1) = none) (hphase : call.phase = .waiting) :
    ¬ ∀ s, (wakeChannel runtime provided).Reachable anyStep .fresh s →
      s.life.listener = false → s.Quiescent →
      ∀ (c : Nat) (call : WakeCall), s.calls c = some call → call.onChannel = false := by
  intro h
  have hquiet : s.Quiescent := by
    intro c other hother
    cases c with
    | zero =>
        rw [hcall] at hother
        cases hother
        simp only [ChannelState.awake, hphase]
    | succ c =>
        rw [hothers c] at hother
        cases hother
  have hgone := h s hreach hdown hquiet 0 call hcall
  rw [WakeCall.onChannel, hphase] at hgone
  cases hgone

/-- In both SDKs a `claim_wake` that goes round its loop waits for a listener that is gone. -/
theorem dropped_listener_fails :
    (¬ ∀ s, (wakeChannel .python312 false).Reachable anyStep .fresh s →
      s.life.listener = false → s.Quiescent →
      ∀ (c : Nat) (call : WakeCall), s.calls c = some call → call.onChannel = false) ∧
    ¬ ∀ s, (wakeChannel .node false).Reachable anyStep .fresh s →
      s.life.listener = false → s.Quiescent →
      ∀ (c : Nat) (call : WakeCall), s.calls c = some call → call.onChannel = false := by
  have hreach (runtime : WakeRuntime) := Machine.reachable_drive (g := anyStep)
    (wakeChannel runtime false) .fresh strandedWait fun _ _ _ => trivial
  constructor
  · exact stranded_of_calls (hreach .python312) rfl rfl (fun _ => rfl) rfl
  · exact stranded_of_calls (hreach .node) rfl rfl (fun _ => rfl) rfl

end Results

end CairnQ
