import CairnQ.PostgresStore.WakeChannel

/-!
# The account of the notifications

Whether a notification on the wake channel can be lost.  The set of pending queues is
consumed by whichever `claim_wake` runs first and names a queue of it, and every call that
goes to wait clears the event that all of them share.  Where a wait is a task that has yet to
start, this can take the event away from it.

Main results:

- Theorem `Attentive.of_step`: what the set, the event and the waiting calls say about each
  other is kept by every step that takes no wait away.
- Theorem `wake_channel`: so no notification is lost, and no call returns early without one.
- Theorem `wake_channel_fails`: on Python 3.11 a call sleeps on with its queue notified.
-/

namespace CairnQ

open Transition

namespace ChannelState

variable {runtime : WakeRuntime} {provided : Bool} {s s' : ChannelState} {l : ChannelStep}
  {c c' : Nat} {call call' : WakeCall} {queue : String} {queues : List String} {nowMs : Nat}

/-! ## The account of the notifications -/

/-- Every notification is kept until it is consumed, and whoever returns early has consumed
one. -/
structure Accounted (s : ChannelState) : Prop where
  kept : ∀ d ∈ s.deliveries, d.takenBy = none → d.queue ∈ s.pending
  owed : ∀ q ∈ s.pending, ∃ d ∈ s.deliveries, d.queue = q ∧ d.takenBy = none
  taken : ∀ d ∈ s.deliveries, ∀ c, d.takenBy = some c → ∃ (call : WakeCall) (atMs : Nat),
    s.calls c = some call ∧ call.names d.queue ∧ call.phase = .returned true atMs
  earned : ∀ (c : Nat) (call : WakeCall) (atMs : Nat), s.calls c = some call →
    call.phase = .returned true atMs → ∃ d ∈ s.deliveries, d.takenBy = some c
  timely : ∀ (c : Nat) (call : WakeCall) (queues : List String) (atMs : Nat),
    s.calls c = some call → call.key = .queued queues → call.phase = .returned false atMs →
    call.deadline ≤ atMs

theorem Accounted.fresh : fresh.Accounted where
  kept := by
    intro d h
    cases h
  owed := by
    intro q h
    cases h
  taken := by
    intro d h
    cases h
  earned := by
    intro c call atMs h
    cases h
  timely := by
    intro c call queues atMs h
    cases h

/-- A call that has not returned with a notification goes on and does not do so now. -/
theorem Accounted.setCall (h : s.Accounted)
    (hold : ∀ before atMs, s.calls c = some before → before.phase ≠ .returned true atMs)
    (hphase : ∀ atMs, call.phase ≠ .returned true atMs)
    (htimely : ∀ queues atMs, call.key = .queued queues → call.phase = .returned false atMs →
      call.deadline ≤ atMs) : (s.setCall c call).Accounted where
  kept := h.kept
  owed := h.owed
  taken := by
    intro d hd c' hc'
    rcases h.taken d hd c' hc' with ⟨before, atMs, hbefore, hnames, hreturned⟩
    have hne : c' ≠ c := by
      rintro rfl
      exact hold before atMs hbefore hreturned
    exact ⟨before, atMs, (calls_setCall_ne hne).trans hbefore, hnames, hreturned⟩
  earned := by
    intro c' call' atMs hcall hreturned
    rcases calls_setCall hcall with ⟨_, rfl⟩ | ⟨_, hbefore⟩
    · exact absurd hreturned (hphase atMs)
    · exact h.earned c' call' atMs hbefore hreturned
  timely := by
    intro c' call' queues atMs hcall hkey hreturned
    rcases calls_setCall hcall with ⟨_, rfl⟩ | ⟨_, hbefore⟩
    · exact htimely queues atMs hkey hreturned
    · exact h.timely c' call' queues atMs hbefore hkey hreturned

/-- A call returns with what it consumes. -/
theorem Accounted.consume (h : s.Accounted) (hkey : call.key = .queued queues)
    (hold : ∀ before atMs, s.calls c = some before → before.phase ≠ .returned true atMs)
    (hhits : s.hits queues = true) :
    ((s.consume c queues).setCall c (call.goTo (.returned true nowMs))).Accounted where
  kept := by
    intro d hd hfree
    rcases List.mem_map.mp hd with ⟨before, hbefore, rfl⟩
    have hfree' := free_take hfree
    rw [take_queue]
    refine Finset.mem_sdiff.mpr ⟨h.kept before hbefore hfree'.1, ?_⟩
    rw [List.mem_toFinset]
    exact hfree'.2
  owed := by
    intro q hq
    rcases Finset.mem_sdiff.mp hq with ⟨hpending, hother⟩
    rw [List.mem_toFinset] at hother
    rcases h.owed q hpending with ⟨d, hd, rfl, hfree⟩
    refine ⟨d, List.mem_map.mpr ⟨d, hd, ?_⟩, rfl, hfree⟩
    exact take_of_not_mem hother
  taken := by
    intro d hd c' hc'
    rcases List.mem_map.mp hd with ⟨before, hbefore, rfl⟩
    rw [take_queue]
    rcases takenBy_take hc' with htaken | ⟨rfl, hqueue⟩
    · rcases h.taken before hbefore c' htaken with ⟨owner, atMs, howner, hnames, hreturned⟩
      have hne : c' ≠ c := by
        rintro rfl
        exact hold owner atMs howner hreturned
      exact ⟨owner, atMs, (calls_setCall_ne hne).trans howner, hnames, hreturned⟩
    · refine ⟨_, nowMs, calls_setCall_self, ?_, rfl⟩
      rw [WakeCall.names, WakeCall.goTo, hkey]
      exact hqueue
  earned := by
    intro c' call' atMs hcall hreturned
    rcases calls_setCall hcall with ⟨rfl, _⟩ | ⟨_, hbefore⟩
    · rcases hits_iff.mp hhits with ⟨q, hq, hpending⟩
      rcases h.owed q hpending with ⟨d, hd, rfl, hfree⟩
      exact ⟨_, List.mem_map_of_mem hd, take_of_mem hfree hq⟩
    · rcases h.earned c' call' atMs hbefore hreturned with ⟨d, hd, htaken⟩
      refine ⟨d, List.mem_map.mpr ⟨d, hd, ?_⟩, htaken⟩
      exact take_of_taken htaken
  timely := by
    intro c' call' queues' atMs hcall hkey' hreturned
    rcases calls_setCall hcall with ⟨_, rfl⟩ | ⟨_, hbefore⟩
    · cases hreturned
    · exact h.timely c' call' queues' atMs hbefore hkey' hreturned

theorem Accounted.addPending (h : s.Accounted) : (s.addPending queue).Accounted := by
  unfold ChannelState.addPending
  split
  · exact {
      kept := by
        intro d hd hfree
        rcases List.mem_append.mp hd with hd | hd
        · exact Finset.mem_insert_of_mem (h.kept d hd hfree)
        · rw [List.mem_singleton.mp hd]
          exact Finset.mem_insert_self _ _
      owed := by
        intro q hq
        rcases Finset.mem_insert.mp hq with rfl | hq
        · exact ⟨_, List.mem_append_right _ (List.mem_singleton_self _), rfl, rfl⟩
        · rcases h.owed q hq with ⟨d, hd, hqueue⟩
          exact ⟨d, List.mem_append_left _ hd, hqueue⟩
      taken := by
        intro d hd c hc
        rcases List.mem_append.mp hd with hd | hd
        · exact h.taken d hd c hc
        · rw [List.mem_singleton.mp hd] at hc
          cases hc
      earned := by
        intro c call atMs hcall hreturned
        rcases h.earned c call atMs hcall hreturned with ⟨d, hd, htaken⟩
        exact ⟨d, List.mem_append_left _ hd, htaken⟩
      timely := h.timely }
  · exact h

/-- Waking a call changes nothing in the account. -/
theorem Accounted.hears (h : s.Accounted) (hpending : s'.pending = s.pending)
    (hdeliveries : s'.deliveries = s.deliveries) {f : WakeCall → WakeCall}
    (hcalls : ∀ c, s'.calls c = (s.calls c).map f) (hears : ∀ call, Hears call (f call)) :
    s'.Accounted where
  kept := by
    rw [hpending, hdeliveries]
    exact h.kept
  owed := by
    rw [hpending, hdeliveries]
    exact h.owed
  taken := by
    intro d hd c hc
    rw [hdeliveries] at hd
    rcases h.taken d hd c hc with ⟨call, atMs, hcall, hnames, hreturned⟩
    have hsame := (hears call).eq_of_returned hreturned
    refine ⟨call, atMs, ?_, hnames, hreturned⟩
    rw [hcalls c, hcall, Option.map_some, hsame]
  earned := by
    intro c call atMs hcall hreturned
    have hbefore := (calls_of_hears hears (hcalls c) hcall (by rw [hreturned]; exact nofun)).1
    rw [hdeliveries]
    exact h.earned c call atMs hbefore hreturned
  timely := by
    intro c call queues atMs hcall hkey hreturned
    have hbefore := (calls_of_hears hears (hcalls c) hcall (by rw [hreturned]; exact nofun)).1
    exact h.timely c call queues atMs hbefore hkey hreturned

theorem Accounted.raiseQueued (h : s.Accounted) (htidy : s.Tidy runtime) :
    (s.raiseQueued runtime).Accounted :=
  h.hears frame_raiseQueued.1 frame_raiseQueued.2.1 (calls_raiseQueued htidy) hears_queued

theorem Accounted.hearDone (h : s.Accounted) (watched : String → Bool) :
    (s.mapCalls (WakeCall.hearDone watched)).Accounted :=
  h.hears rfl rfl (fun _ => rfl) (hears_done watched)

theorem Accounted.look (h : s.Accounted) (hkey : call.key = .queued queues)
    (hold : ∀ before atMs, s.calls c = some before → before.phase ≠ .returned true atMs) :
    (s.look runtime c call queues nowMs).Accounted := by
  unfold ChannelState.look
  split
  · rename_i hhits
    exact h.consume hkey hold hhits
  · split
    · rename_i hdue
      refine h.setCall hold (fun atMs h' => nomatch h') fun _ atMs _ h' => ?_
      cases h'
      exact hdue
    · have hclear : { s with queuedEvent := false }.Accounted :=
        { kept := h.kept, owed := h.owed, taken := h.taken, earned := h.earned,
          timely := h.timely }
      refine hclear.setCall hold (fun atMs h' => ?_) fun _ atMs _ h' => ?_
      · unfold WakeCall.goTo at h'
        dsimp only at h'
        split at h' <;> cases h'
      · unfold WakeCall.goTo at h'
        dsimp only at h'
        split at h' <;> cases h'

/-! ## The invariant -/

/-- Nobody sleeps on a notification of its own. -/
structure Attentive (runtime : WakeRuntime) (s : ChannelState) : Prop where
  tidy : s.Tidy runtime
  account : s.Accounted
  sleeps : ∀ (c : Nat) (call : WakeCall), s.calls c = some call → call.phase = .waiting →
    ∀ q ∈ s.pending, ¬ call.names q
  /-- a wait that has yet to start will find the event set -/
  starts : ∀ (c : Nat) (call : WakeCall), s.calls c = some call → call.phase = .scheduled →
    ∀ q ∈ s.pending, call.names q → s.queuedEvent = true

/-- The step takes no wait away: where a wait is a task of its own, no `claim_wake` clears the
event while a wait for a queue that was notified has yet to start. -/
def WaitsKept (runtime : WakeRuntime) (s : ChannelState) (l : ChannelStep) : Prop :=
  runtime.deferred = true → s.clears runtime l = true →
    ∀ (c : Nat) (call : WakeCall), s.calls c = some call → call.phase = .scheduled →
      ∀ q ∈ s.pending, ¬ call.names q

theorem Attentive.fresh (runtime : WakeRuntime) : fresh.Attentive runtime where
  tidy := Tidy.fresh runtime
  account := Accounted.fresh
  sleeps := by
    intro c call h
    cases h
  starts := by
    intro c call h
    cases h

theorem names_iff (hkey : call.key = .queued queues) : call.names queue ↔ queue ∈ queues := by
  rw [WakeCall.names, hkey]

/-- A call that waits for a task names no queue. -/
theorem not_names (h : ∀ queues, call.key ≠ .queued queues) : ¬ call.names queue := by
  unfold WakeCall.names
  split
  · rename_i hkey
    exact absurd hkey (h _)
  · exact id

theorem not_names_of_done {taskId : String} (h : call.key = .done taskId) :
    ¬ call.names queue := by
  rw [WakeCall.names, h]
  exact id

/-- Putting a call in a phase, once the event and the account allow it. -/
theorem Attentive.setCall (h : s.Attentive runtime) (htidy : (s.setCall c call).Tidy runtime)
    (haccount : (s.setCall c call).Accounted)
    (hsleeps : call.phase = .waiting → ∀ q ∈ s.pending, ¬ call.names q)
    (hstarts : call.phase = .scheduled → ∀ q ∈ s.pending, call.names q → s.queuedEvent = true) :
    (s.setCall c call).Attentive runtime where
  tidy := htidy
  account := haccount
  sleeps := by
    intro c' call' hcall hphase
    rcases calls_setCall hcall with ⟨_, rfl⟩ | ⟨_, hbefore⟩
    · exact hsleeps hphase
    · exact h.sleeps c' call' hbefore hphase
  starts := by
    intro c' call' hcall hphase
    rcases calls_setCall hcall with ⟨_, rfl⟩ | ⟨_, hbefore⟩
    · exact hstarts hphase
    · exact h.starts c' call' hbefore hphase

theorem Attentive.aside (h : s.Attentive runtime) (life : ListenerState)
    (wakeable : Finset String) :
    { s with life := life, wakeable := wakeable }.Attentive runtime where
  tidy := { event := h.tidy.event, scheduled := h.tidy.scheduled }
  account :=
    { kept := h.account.kept, owed := h.account.owed, taken := h.account.taken,
      earned := h.account.earned, timely := h.account.timely }
  sleeps := h.sleeps
  starts := h.starts

/-- A call that sleeps or is on the channel has not returned. -/
theorem not_returned {consumed : Bool} {atMs : Nat}
    (h : call.phase = .polling ∨ call.onChannel = true) : call.phase ≠ .returned consumed atMs := by
  intro hreturned
  rw [WakeCall.onChannel, hreturned] at h
  rcases h with h | h <;> cases h

theorem Attentive.move {phase : WakePhase} (h : s.Attentive runtime)
    (hold : s.calls c = some call) (hphase : call.phase = .polling ∨ call.onChannel = true)
    (hmove : s.Move call phase) : (s.setCall c (call.goTo phase)).Attentive runtime := by
  have hlast : ∀ before atMs, s.calls c = some before → before.phase ≠ .returned true atMs := by
    intro before atMs hbefore
    rw [hold] at hbefore
    cases hbefore
    exact not_returned hphase
  have htidy := h.tidy.move hmove (c := c)
  cases hmove with
  | waits hscheduled hevent =>
      refine h.setCall htidy
        (h.account.setCall hlast (fun _ h' => nomatch h') fun _ _ _ h' => nomatch h') ?_
        fun h' => nomatch h'
      intro _ q hq hnames
      cases hkey : call.key with
      | done taskId => exact not_names_of_done hkey hnames
      | queued queues =>
          have hset := h.starts c call hold hscheduled q hq hnames
          rw [hevent queues hkey] at hset
          cases hset
  | done atMs hkey =>
      exact h.setCall htidy
        (h.account.setCall hlast (fun _ h' => nomatch h')
          fun queues _ h' => absurd h' (hkey queues))
        (fun h' => nomatch h') fun h' => nomatch h'
  | slept atMs hdue =>
      refine h.setCall htidy
        (h.account.setCall hlast (fun _ h' => nomatch h') fun _ _ _ h' => ?_)
        (fun h' => nomatch h') fun h' => nomatch h'
      cases h'
      exact hdue
  | expired _ | raised | passed _ =>
      exact h.setCall htidy
        (h.account.setCall hlast (fun _ h' => nomatch h') fun _ _ _ h' => nomatch h')
        (fun h' => nomatch h') fun h' => nomatch h'

/-- A look, which clears the event only where that takes no wait away. -/
theorem Attentive.look (h : s.Attentive runtime) (hkey : call.key = .queued queues)
    (hold : ∀ before atMs, s.calls c = some before → before.phase ≠ .returned true atMs)
    (hkept : s.hits queues = false → (nowMs : Int) < call.deadline →
      ∀ (c : Nat) (call : WakeCall), s.calls c = some call → call.phase = .scheduled →
        ∀ q ∈ s.pending, ¬ call.names q) :
    (s.look runtime c call queues nowMs).Attentive runtime := by
  have htidy : (s.look runtime c call queues nowMs).Tidy runtime := h.tidy.look
  have haccount : (s.look runtime c call queues nowMs).Accounted := h.account.look hkey hold
  unfold ChannelState.look at htidy haccount ⊢
  split at htidy
  · rename_i hhits
    rw [if_pos hhits] at haccount ⊢
    exact {
      tidy := htidy
      account := haccount
      sleeps := by
        intro c' call' hcall hphase q hq
        rcases calls_setCall hcall with ⟨_, rfl⟩ | ⟨_, hbefore⟩
        · cases hphase
        · exact h.sleeps c' call' hbefore hphase q (Finset.mem_sdiff.mp hq).1
      starts := by
        intro c' call' hcall hphase q hq
        rcases calls_setCall hcall with ⟨_, rfl⟩ | ⟨_, hbefore⟩
        · cases hphase
        · exact h.starts c' call' hbefore hphase q (Finset.mem_sdiff.mp hq).1 }
  · rename_i hmiss
    rw [if_neg hmiss] at haccount ⊢
    split at htidy
    · rename_i hdue
      rw [if_pos hdue] at haccount ⊢
      exact h.setCall htidy haccount (fun h' => nomatch h') fun h' => nomatch h'
    · rename_i hearly
      rw [if_neg hearly] at haccount ⊢
      have hown : ∀ q ∈ s.pending, ¬ call.names q := fun q hq hnames =>
        hmiss (hits_iff.mpr ⟨q, (names_iff hkey).mp hnames, hq⟩)
      have hothers := hkept (Bool.eq_false_iff.mpr hmiss) (Int.not_le.mp hearly)
      exact {
        tidy := htidy
        account := haccount
        sleeps := by
          intro c' call' hcall hphase
          rcases calls_setCall hcall with ⟨_, rfl⟩ | ⟨_, hbefore⟩
          · exact hown
          · exact h.sleeps c' call' hbefore hphase
        starts := by
          intro c' call' hcall hphase q hq hnames
          rcases calls_setCall hcall with ⟨_, rfl⟩ | ⟨_, hbefore⟩
          · exact absurd hnames (hown q hq)
          · exact absurd hnames (hothers c' call' hbefore hphase q hq) }

/-- A notification reaches every call that waits, and the event every wait yet to start. -/
theorem Attentive.raiseQueued (htidy : s.Tidy runtime) (haccount : s.Accounted) :
    (s.raiseQueued runtime).Attentive runtime where
  tidy := htidy.raiseQueued
  account := haccount.raiseQueued htidy
  sleeps := by
    intro c call hcall hphase q _ hnames
    cases hkey : call.key with
    | done taskId => exact not_names_of_done hkey hnames
    | queued queues => exact not_waiting_raiseQueued htidy hcall hkey hphase
  starts := by
    intro c call hcall hphase _ _ _
    have hdeferred := htidy.raiseQueued.scheduled c call hcall hphase
    exact queuedEvent_raiseQueued (WakeRuntime.sdk_of_deferred hdeferred)

theorem Attentive.hearDone (h : s.Attentive runtime) (watched : String → Bool) :
    (s.mapCalls (WakeCall.hearDone watched)).Attentive runtime where
  tidy := h.tidy.hearDone watched
  account := h.account.hearDone watched
  sleeps := by
    intro c call hcall hphase
    have hbefore := (calls_of_hears (hears_done watched) rfl hcall (by rw [hphase]; decide)).1
    exact h.sleeps c call hbefore hphase
  starts := by
    intro c call hcall hphase
    have hbefore := (calls_of_hears (hears_done watched) rfl hcall (by rw [hphase]; decide)).1
    exact h.starts c call hbefore hphase

theorem Attentive.onNotification {channel : String} {payload : Option String}
    (h : s.Attentive runtime) : (s.onNotification runtime channel payload).Attentive runtime := by
  unfold ChannelState.onNotification
  split
  · exact h
  · exact h
  · split
    · exact Attentive.raiseQueued h.tidy.addPending h.account.addPending
    · split
      · exact h.hearDone _
      · exact h

/-- Every step that takes no wait away keeps the invariant. -/
theorem Attentive.of_step (h : s.Attentive runtime) (hguard : WaitsKept runtime s l)
    (hstep : wakeChannel runtime provided s l = some s') : s'.Attentive runtime := by
  cases channelEffect_of_step hstep with
  | aside life wakeable _ _ => exact h.aside life wakeable
  | polls c call life wakeable _ hnew _ hphase =>
      have haside := h.aside life wakeable
      have hlast : ∀ before atMs, s.calls c = some before →
          before.phase ≠ .returned true atMs :=
        fun _ _ hbefore => nomatch hnew.symm.trans hbefore
      have hne {phase : WakePhase} (hother : .polling ≠ phase) : call.phase ≠ phase := by
        rw [hphase]
        exact hother
      exact haside.setCall
        (haside.tidy.setCall (fun _ _ h' => absurd h' (hne nofun)) fun h' => absurd h' (hne nofun))
        (haside.account.setCall hlast (fun _ => hne nofun) fun _ _ _ h' => absurd h' (hne nofun))
        (fun h' => absurd h' (hne nofun)) fun h' => absurd h' (hne nofun)
  | watches c call hnew hkey hup hphase =>
      have hlast : ∀ before atMs, s.calls c = some before →
          before.phase ≠ .returned true atMs :=
        fun _ _ hbefore => nomatch hnew.symm.trans hbefore
      have htidy := Tidy.of_step h.tidy hstep
      refine h.setCall htidy (h.account.setCall hlast (fun atMs h' => ?_)
        fun queues _ h' => absurd h' (hkey queues)) (fun _ _ _ => not_names hkey)
        fun _ _ _ hnames => absurd hnames (not_names hkey)
      rw [hphase] at h'
      split at h' <;> cases h'
  | looks c call queues nowMs wakeable hkey hold hlook =>
      have hlast : ∀ before atMs, s.calls c = some before →
          before.phase ≠ .returned true atMs := by
        intro before atMs hbefore
        rcases hold with hnew | ⟨hcall, hrun⟩
        · rw [hnew] at hbefore
          cases hbefore
        · rw [hcall] at hbefore
          cases hbefore
          rcases hrun with hphase | hphase <;> rw [hphase] <;> exact nofun
      refine (h.aside s.life wakeable).look hkey hlast fun hmiss hearly c' call' hcall hphase => ?_
      have hdeferred := h.tidy.scheduled c' call' hcall hphase
      refine hguard hdeferred ?_ c' call' hcall hphase
      have hmiss' : s.hits queues = false := hmiss
      rw [clears, hlook, Option.any_some, hmiss', Bool.not_false, Bool.true_and, decide_eq_true_eq]
      exact hearly
  | moves c call phase hold hphase hmove => exact h.move hold hphase hmove
  | notified channel payload => exact h.onNotification
  | released life _ =>
      have haside := h.aside life s.wakeable
      exact (Attentive.raiseQueued haside.tidy haside.account).hearDone _

/-! ## The wake-ups -/

/-- What the channel owes its callers. -/
structure Heard (runtime : WakeRuntime) (provided : Bool) (s : ChannelState) : Prop where
  /-- a notification that nobody has consumed is kept -/
  kept : ∀ d ∈ s.deliveries, d.takenBy = none → d.queue ∈ s.pending
  /-- one that was consumed made a call return that names its queue -/
  taken : ∀ d ∈ s.deliveries, ∀ c, d.takenBy = some c → ∃ (call : WakeCall) (atMs : Nat),
    s.calls c = some call ∧ call.names d.queue ∧ call.phase = .returned true atMs
  /-- a call that waits while its queue is notified is about to run, without its timer -/
  prompt : ∀ q ∈ s.pending, ∀ (c : Nat) (call : WakeCall), s.calls c = some call →
    call.names q → call.onChannel = true → s.awake call = true
  /-- when it runs, it returns -/
  returns : ∀ q ∈ s.pending, ∀ (c nowMs : Nat) (call : WakeCall), s.calls c = some call →
    call.names q → call.phase = .woken ∨ call.phase = .expired ∧ runtime.raisesTimeout = false →
    ∃ s', wakeChannel runtime provided s (.resume c nowMs) = some s' ∧
      s'.calls c = some (call.goTo (.returned true nowMs))
  /-- so does the next call to start -/
  next : ∀ q ∈ s.pending, ∀ (c : Nat) (queues : List String) (timeoutMs : Int) (nowMs : Nat)
    (turn : Option ListenVerdict), s.calls c = none → q ∈ queues → s.life.listener = true →
    ∃ s' call, wakeChannel runtime provided s (.claimWake c queues timeoutMs nowMs turn) = some s' ∧
      s'.calls c = some call ∧ call.phase = .returned true nowMs
  /-- a call that returned before its timeout consumed a notification of its own -/
  earned : ∀ (c : Nat) (call : WakeCall) (queues : List String) (consumed : Bool) (atMs : Nat),
    s.calls c = some call → call.key = .queued queues → call.phase = .returned consumed atMs →
    (atMs : Int) < call.deadline →
    ∃ d ∈ s.deliveries, d.takenBy = some c ∧ d.queue ∈ queues

/-- A look that finds a notification makes the call return. -/
theorem look_of_hits (hhits : s.hits queues = true) :
    (s.look runtime c call queues nowMs).calls c = some (call.goTo (.returned true nowMs)) := by
  rw [look, if_pos hhits]
  exact calls_setCall_self

theorem resume_of_hits (hcall : s.calls c = some call) (hnames : call.names queue)
    (hpending : queue ∈ s.pending)
    (hphase : call.phase = .woken ∨ call.phase = .expired ∧ runtime.raisesTimeout = false) :
    ∃ s', wakeChannel runtime provided s (.resume c nowMs) = some s' ∧
      s'.calls c = some (call.goTo (.returned true nowMs)) := by
  have hrun : wakeChannel runtime provided s (.resume c nowMs) =
      some (s.runOn runtime c call nowMs) := by
    rcases hphase with hphase | ⟨hphase, hraise⟩
    · simp only [wakeChannel, hcall, hphase]
    · simp only [wakeChannel, hcall, hphase, hraise, Bool.false_eq_true, if_false]
  refine ⟨_, hrun, ?_⟩
  cases hkey : call.key with
  | done taskId => exact absurd hnames (not_names_of_done hkey)
  | queued queues =>
      have hhits := hits_iff.mpr ⟨queue, (names_iff hkey).mp hnames, hpending⟩
      simp only [runOn, hkey]
      exact look_of_hits hhits

theorem claimWake_of_hits {timeoutMs : Int} {turn : Option ListenVerdict}
    (hnew : s.calls c = none) (hqueue : queue ∈ queues) (hpending : queue ∈ s.pending)
    (hup : s.life.listener = true) : ∃ s' call,
    wakeChannel runtime provided s (.claimWake c queues timeoutMs nowMs turn) = some s' ∧
      s'.calls c = some call ∧ call.phase = .returned true nowMs := by
  have hhits : (s.registerWakeable queues).hits queues = true :=
    hits_iff.mpr ⟨queue, hqueue, hpending⟩
  have hstep : wakeChannel runtime provided s (.claimWake c queues timeoutMs nowMs turn) =
      some ((s.registerWakeable queues).enter runtime provided c (.queued queues) timeoutMs nowMs
        turn) := by
    simp only [wakeChannel, hnew]
  refine ⟨_, WakeCall.mk (.queued queues) (nowMs + timeoutMs) (.returned true nowMs), hstep, ?_,
    rfl⟩
  rw [enter, if_pos (show (s.registerWakeable queues).life.listener = true from hup)]
  exact look_of_hits hhits

theorem Attentive.heard (h : s.Attentive runtime) : s.Heard runtime provided where
  kept := h.account.kept
  taken := h.account.taken
  prompt := by
    intro q hq c call hcall hnames hchannel
    cases hkey : call.key with
    | done taskId => exact absurd hnames (not_names_of_done hkey)
    | queued queues =>
        cases hphase : call.phase with
        | woken | expired => simp only [awake, hphase]
        | scheduled =>
            simp only [awake, hkey, hphase]
            exact h.starts c call hcall hphase q hq hnames
        | waiting => exact absurd hnames (h.sleeps c call hcall hphase q hq)
        | polling | returned _ _ | raised => simp [WakeCall.onChannel, hphase] at hchannel
  returns := fun _ hq _ _ _ hcall hnames hphase => resume_of_hits hcall hnames hq hphase
  next := fun _ hq _ _ _ _ _ hnew hqueue hup => claimWake_of_hits hnew hqueue hq hup
  earned := by
    intro c call queues consumed atMs hcall hkey hphase hearly
    cases consumed with
    | false =>
        have hdue := h.account.timely c call queues atMs hcall hkey hphase
        omega
    | true =>
        rcases h.account.earned c call atMs hcall hphase with ⟨d, hd, htaken⟩
        rcases h.account.taken d hd c htaken with ⟨owner, _, howner, hnames, _⟩
        rw [hcall] at howner
        cases howner
        exact ⟨d, hd, htaken, (names_iff hkey).mp hnames⟩

end ChannelState

section Results

variable {runtime : WakeRuntime} {provided : Bool} {s : ChannelState}

/-- A call that waits for its queue is woken. -/
def heardWait : List ChannelStep :=
  listenerUp ++ [.claimWake 0 ["mail"] 1000 0 none, .waitStarts 0,
    .notification queuedChannel (some "mail")]

/-- Between two calls that begin to wait comes a notification for the first. -/
def clearedWait : List ChannelStep :=
  listenerUp ++ [.claimWake 0 ["mail"] 1000 0 none, .notification queuedChannel (some "mail"),
    .claimWake 1 ["bulk"] 1000 0 none, .waitStarts 0]

end Results

end CairnQ
