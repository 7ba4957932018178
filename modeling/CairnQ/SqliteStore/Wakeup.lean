import CairnQ.SqliteStore.GroupCommit

/-!
# The flusher and the last check of the queue

Who drains the pending queue.  A write that is queued starts a flusher unless one is
running, and a flusher ends when it finds the queue empty.  A write is lost from sight
when it arrives after that last check and still sees the flusher.

The Python flusher clears its flag in the step of the check.  The TypeScript flusher
returns from {lit}`drain`, and a callback of the promise clears the field a microtask
later; what arrives in between waits for the next write.

Main results:

- Theorem `no_lost_wakeup`: when no write arrives between the check and the callback,
  every unanswered write has a flusher that will check the queue again.
- Theorem `lost_wakeup`: a run of the TypeScript store in which a write is left behind.
-/

namespace CairnQ

open Relational Transition

variable {D W R : Type} {apply : Int → W → D → D × R} {start : D}

/-! ## The flusher -/

/-- Where the flusher is, as the event loop sees it. -/
inductive Flusher
  /-- no flusher -/
  | none
  /-- Python: the task is created and has not run -/
  | scheduled
  /-- in the queue for the lock of the store -/
  | waiting
  /-- in `flush`, or on the way of its error to `_with_lock`, `withLock` -/
  | flushing
  /-- TypeScript: `flush` has returned, and the promises up to `drain` are being resolved -/
  | settling
  /-- asleep until the next attempt -/
  | backoff
  /-- TypeScript: `drain` has returned, and the `.finally` callback is queued -/
  | drained
  deriving DecidableEq, Repr

/-- The store with its flusher.  `flushing` is `_flushing`, or whether `flusher` is set. -/
structure WakeState (apply : Int → W → D → D × R) (start : D) where
  store : FlushState apply start
  flushing : Bool
  flusher : Flusher

/-- Steps of the event loop and of other connections. -/
inductive WakeStep (D W : Type)
  | fetch (write : W)
  | external (change : D → D)
  /-- the task of the flusher runs for the first time -/
  | start
  /-- the lock is free for the flusher -/
  | acquire
  | succeed (nowMs : Int)
  | fail (e : SqliteError) (inTransaction : Bool)
  | resume
  | retry
  /-- the timer of the backoff fires -/
  | wake
  | strand
  /-- `drain` goes on after a turn -/
  | check
  /-- the `.finally` callback runs -/
  | clear

/-- The steps of the flusher itself, of its statements and of its timer. -/
def WakeStep.OfFlusher : WakeStep D W → Prop
  | .fetch _ => False
  | .external _ => False
  | _ => True

namespace WakeState

/-- A store before its first write. -/
def fresh (apply : Int → W → D → D × R) (start : D) : WakeState apply start where
  store := .fresh apply start
  flushing := false
  flusher := .none

/-- The flusher queues for the lock. -/
def enqueue (s : WakeState apply start) : WakeState apply start :=
  { s with flusher := .waiting }

/-- The field of the flusher is cleared. -/
def clear (s : WakeState apply start) : WakeState apply start :=
  { s with flushing := false, flusher := .none }

/-- The flusher ends: the Python one clears its flag at once, the TypeScript one leaves that to
the callback. -/
def exit (sdk : Sdk) (s : WakeState apply start) : WakeState apply start :=
  match sdk with
  | .python => s.clear
  | .node => { s with flusher := .drained }

/-- `while self._pending`, `while (this.pending.length)`. -/
def check (sdk : Sdk) (s : WakeState apply start) : WakeState apply start :=
  match s.store.pending with
  | [] => s.exit sdk
  | _ :: _ => s.enqueue

/-- `_schedule_flush`, `scheduleFlush`: the task of the Python flusher runs later, `drain` runs up
to its first wait. -/
def scheduleFlush (sdk : Sdk) (s : WakeState apply start) : WakeState apply start :=
  if s.flushing then s
  else
    match sdk with
    | .python => { s with flushing := true, flusher := .scheduled }
    | .node => { s with flushing := true }.check .node

/-- After a step of `flush`: when it has returned, the Python flusher checks the queue at once and
the TypeScript flusher after the promises in between. -/
def afterFlush (sdk : Sdk) (s : WakeState apply start) : WakeState apply start :=
  match s.store.phase with
  | .between =>
      match sdk with
      | .python => s.check .python
      | .node => { s with flusher := .settling }
  | _ => s

/-- After the queue was rejected: the Python flusher ends, `drain` goes back to its loop. -/
def afterStrand (sdk : Sdk) (s : WakeState apply start) : WakeState apply start :=
  match sdk with
  | .python => s.exit .python
  | .node => s.check .node

/-- A step of the store while the flusher is where it has to be. -/
def stepStore (sdk : Sdk) (s : WakeState apply start) (flusher : Flusher) (l : FlushStep D W) :
    Option (WakeState apply start) :=
  if s.flusher = flusher then
    (CairnQ.flushing sdk apply start s.store l).map fun store => { s with store := store }
  else none

/-- A move of the flusher alone. -/
def moveFlusher (s : WakeState apply start) (flusher : Flusher)
    (move : WakeState apply start → WakeState apply start) : Option (WakeState apply start) :=
  if s.flusher = flusher then some (move s) else none

end WakeState

/-- The store, its flusher and the event loop. -/
def waking (sdk : Sdk) (apply : Int → W → D → D × R) (start : D) :
    Machine (WakeState apply start) (WakeStep D W)
  | s, .fetch write =>
      (s.stepStore sdk s.flusher (.fetch write)).map fun s => s.scheduleFlush sdk
  | s, .external change => s.stepStore sdk s.flusher (.external change)
  | s, .start => s.moveFlusher .scheduled (WakeState.check sdk)
  | s, .acquire => (s.stepStore sdk .waiting .turn).map fun s => { s with flusher := .flushing }
  | s, .succeed nowMs => (s.stepStore sdk .flushing (.succeed nowMs)).map fun s => s.afterFlush sdk
  | s, .fail e inTransaction =>
      (s.stepStore sdk .flushing (.fail e inTransaction)).map fun s => s.afterFlush sdk
  | s, .resume => (s.stepStore sdk .flushing .resume).map fun s => s.afterFlush sdk
  | s, .retry => (s.stepStore sdk .flushing .retry).map fun s => { s with flusher := .backoff }
  | s, .wake => s.moveFlusher .backoff WakeState.enqueue
  | s, .strand => (s.stepStore sdk .flushing .strand).map fun s => s.afterStrand sdk
  | s, .check => s.moveFlusher .settling (WakeState.check sdk)
  | s, .clear => s.moveFlusher .drained WakeState.clear

/-! ## What one step keeps -/

/-- The store is where the flusher expects it. -/
def Flusher.Fits (sdk : Sdk) (store : FlushState apply start) : Flusher → Prop
  | .none => store.phase = .between ∧ store.pending = []
  | .drained => sdk = .node ∧ store.phase = .between ∧ store.pending = []
  | .settling => store.phase = .between
  | .flushing => store.phase ≠ .between ∧ store.unanswered ≠ []
  | _ => store.phase = .between ∧ store.pending ≠ []

/-- What holds of the store and its flusher in every guarded run. -/
structure WakeInvariant (sdk : Sdk) (s : WakeState apply start) : Prop where
  /-- the flag is up for as long as there is a flusher -/
  flag : s.flushing = true ↔ s.flusher ≠ .none
  fits : s.flusher.Fits sdk s.store

theorem WakeInvariant.fresh (sdk : Sdk) : WakeInvariant sdk (WakeState.fresh apply start) where
  flag := by simp [WakeState.fresh]
  fits := ⟨rfl, rfl⟩

variable {sdk : Sdk} {s s' : WakeState apply start}

/-- A flusher has its flag up. -/
theorem WakeInvariant.up (h : WakeInvariant sdk s) (hflusher : s.flusher ≠ .none) :
    s.flushing = true :=
  h.flag.mpr hflusher

/-- A step of `flush` either ends the turn or leaves it with its writes. -/
theorem FlushCase.between_or_unanswered {s s' : FlushState apply start} (h : FlushCase s s')
    (hphase : s.phase ≠ .between) (hunanswered : s.unanswered ≠ []) :
    s'.phase = .between ∨ s'.phase ≠ .between ∧ s'.unanswered ≠ [] := by
  cases h with
  | accepted write =>
      right
      rw [unanswered_fetch]
      exact ⟨hphase, by simp⟩
  | external change hopen => exact Or.inr ⟨hphase, hunanswered⟩
  | startedSingle only hbetween hpending => exact absurd hbetween hphase
  | startedBatch hbetween => exact absurd hbetween hphase
  | executedSingle only nowMs hsingle
  | began hsingle
  | executed _ _ _ _ _ hsingle _
  | failed _ _ _ _ _ hsingle _
  | committed _ _ _ hsingle _ =>
      right
      simp only [FlushState.unanswered, hsingle] at hunanswered ⊢
      exact ⟨by simp, by simpa using hunanswered⟩
  | putBack e habort => exact Or.inr ⟨by simp, hunanswered⟩
  | rejectedSingle only e hsingle => exact Or.inl rfl
  | rejectedAll writes rest e habort hwrites => exact Or.inl rfl
  | resolvedSingle only rows hsingle => exact Or.inl rfl
  | resolvedBatch batch out hcommitted => exact Or.inl rfl
  | retried e hraised => exact Or.inl rfl

/-- A write is queued behind those that are queued already. -/
theorem fetch_cases {s s' : FlushState apply start} {write : W}
    (h : flushing sdk apply start s (.fetch write) = some s') : s' = s.fetch write := by
  simp only [flushing] at h
  split at h
  · exact (Option.some.inj h).symm
  · cases h

theorem stepStore_cases {flusher : Flusher} {l : FlushStep D W}
    (h : s.stepStore sdk flusher l = some s') :
    s.flusher = flusher ∧ ∃ store, flushing sdk apply start s.store l = some store ∧
      s' = { s with store := store } := by
  unfold WakeState.stepStore at h
  split at h
  · rename_i hflusher
    rcases Option.map_eq_some_iff.mp h with ⟨store, hstore, rfl⟩
    exact ⟨hflusher, store, hstore, rfl⟩
  · cases h

theorem moveFlusher_cases {flusher : Flusher} {move : WakeState apply start → WakeState apply start}
    (h : s.moveFlusher flusher move = some s') : s.flusher = flusher ∧ s' = move s := by
  unfold WakeState.moveFlusher at h
  split at h
  · rename_i hflusher
    exact ⟨hflusher, (Option.some.inj h).symm⟩
  · cases h

theorem turn_cases {s s' : FlushState apply start}
    (h : flushing sdk apply start s .turn = some s') :
    s'.phase ≠ .between ∧ s'.unanswered ≠ [] := by
  simp only [flushing, FlushState.startTurn] at h
  split at h
  · rename_i hpending
    cases h
    exact ⟨by simp, by simp [FlushState.unanswered, hpending]⟩
  · rename_i hpending
    cases h
    exact ⟨by simp, by simp [FlushState.unanswered, hpending]⟩
  · cases h

theorem retry_cases {s s' : FlushState apply start}
    (h : flushing sdk apply start s .retry = some s') :
    s'.phase = .between ∧ s'.pending = s.unanswered := by
  simp only [flushing, FlushState.retry] at h
  split at h
  · rename_i e hphase
    split at h
    · cases h
      exact ⟨rfl, by simp only [FlushState.unanswered, hphase]⟩
    · cases h
  · cases h

theorem strand_cases {s s' : FlushState apply start}
    (h : flushing sdk apply start s .strand = some s') :
    s'.phase = .between ∧ s'.pending = [] := by
  simp only [flushing, FlushState.strand] at h
  split at h
  · cases h
    exact ⟨rfl, rfl⟩
  · cases h

/-- The check of a flusher that is up, between two turns. -/
theorem WakeInvariant.of_check (hflag : s.flushing = true) (hphase : s.store.phase = .between) :
    WakeInvariant sdk (s.check sdk) := by
  unfold WakeState.check
  split
  · rename_i hpending
    cases sdk with
    | python => exact ⟨by simp [WakeState.exit, WakeState.clear], hphase, hpending⟩
    | node => exact ⟨by simp [WakeState.exit, hflag], rfl, hphase, hpending⟩
  · rename_i hpending
    exact ⟨by simp [WakeState.enqueue, hflag], hphase, by simp [WakeState.enqueue, hpending]⟩

/-- A step of `flush`, before what the flusher makes of it. -/
theorem WakeInvariant.of_flush (h : WakeInvariant sdk s) (hflusher : s.flusher = .flushing)
    {l : FlushStep D W} {store : FlushState apply start}
    (hstore : flushing sdk apply start s.store l = some store) :
    WakeInvariant sdk ({ s with store := store }.afterFlush sdk) := by
  have hfits := h.fits
  have hflag := h.up (by simp [hflusher])
  rw [hflusher] at hfits
  have hstep := (flushStep_cases hstore).between_or_unanswered hfits.1 hfits.2
  unfold WakeState.afterFlush
  rcases hstep with hphase | ⟨hphase, hunanswered⟩
  · simp only [hphase]
    cases sdk with
    | python => exact WakeInvariant.of_check hflag hphase
    | node => exact ⟨by simp [hflag], hphase⟩
  · split
    · rename_i hbetween
      exact absurd hbetween hphase
    · exact ⟨h.flag, by simpa only [hflusher] using ⟨hphase, hunanswered⟩⟩

/-- A write that arrives under a flusher is in its way. -/
theorem Flusher.Fits.fetch {flusher : Flusher} {store : FlushState apply start}
    (h : flusher.Fits sdk store) (write : W) (hup : flusher ≠ .none)
    (hwindow : sdk = .python ∨ flusher ≠ .drained) : flusher.Fits sdk (store.fetch write) := by
  have hqueued : (store.fetch write).pending ≠ [] := by simp [FlushState.fetch]
  cases flusher with
  | none => exact absurd rfl hup
  | drained =>
      rcases hwindow with rfl | hne
      · cases h.1
      · exact absurd rfl hne
  | settling => exact h
  | flushing => exact ⟨h.1, by rw [unanswered_fetch]; simp⟩
  | scheduled => exact ⟨h.1, hqueued⟩
  | waiting => exact ⟨h.1, hqueued⟩
  | backoff => exact ⟨h.1, hqueued⟩

/-- A write arrives, and the store sees to it that there is a flusher. -/
theorem WakeInvariant.of_fetch (h : WakeInvariant sdk s) (write : W)
    (hwindow : sdk = .python ∨ s.flusher ≠ .drained) :
    WakeInvariant sdk ({ s with store := s.store.fetch write }.scheduleFlush sdk) := by
  have hfits := h.fits
  unfold WakeState.scheduleFlush
  by_cases hup : s.flushing
  · rw [if_pos hup]
    exact ⟨h.flag, hfits.fetch write (h.flag.mp hup) hwindow⟩
  · have hnone : s.flusher = .none := by simpa [hup] using h.flag
    rw [hnone] at hfits
    rw [if_neg hup]
    cases sdk with
    | python => exact ⟨by simp, hfits.1, by simp [FlushState.fetch]⟩
    | node => exact WakeInvariant.of_check rfl hfits.1

/-! ## Every step -/

/-- No write is queued between the last check of {lit}`drain` and the callback that clears the
field; on the Python store any write may arrive at any time. -/
def OutsideExitWindow (sdk : Sdk) (s : WakeState apply start) : WakeStep D W → Prop
  | .fetch _ => sdk = .python ∨ s.flusher ≠ .drained
  | _ => True

theorem WakeInvariant.of_step {l : WakeStep D W} (h : WakeInvariant sdk s)
    (hguard : OutsideExitWindow sdk s l) (hstep : waking sdk apply start s l = some s') :
    WakeInvariant sdk s' := by
  have hfits := h.fits
  cases l with
  | fetch write =>
      rcases Option.map_eq_some_iff.mp hstep with ⟨mid, hmid, rfl⟩
      rcases stepStore_cases hmid with ⟨-, store, hstore, rfl⟩
      rw [fetch_cases hstore]
      exact h.of_fetch write hguard
  | external change =>
      rcases stepStore_cases hstep with ⟨-, store, hstore, rfl⟩
      simp only [flushing] at hstore
      split at hstore
      · cases hstore
      · cases hstore
        refine ⟨h.flag, ?_⟩
        cases hflusher : s.flusher <;> rw [hflusher] at hfits <;> exact hfits
  | start =>
      rcases moveFlusher_cases hstep with ⟨hflusher, rfl⟩
      rw [hflusher] at hfits
      exact WakeInvariant.of_check (h.up (by simp [hflusher])) hfits.1
  | acquire =>
      rcases Option.map_eq_some_iff.mp hstep with ⟨mid, hmid, rfl⟩
      rcases stepStore_cases hmid with ⟨hflusher, store, hstore, rfl⟩
      exact ⟨by simp [h.up, hflusher], turn_cases hstore⟩
  | succeed nowMs =>
      rcases Option.map_eq_some_iff.mp hstep with ⟨mid, hmid, rfl⟩
      rcases stepStore_cases hmid with ⟨hflusher, store, hstore, rfl⟩
      exact h.of_flush hflusher hstore
  | fail e inTransaction =>
      rcases Option.map_eq_some_iff.mp hstep with ⟨mid, hmid, rfl⟩
      rcases stepStore_cases hmid with ⟨hflusher, store, hstore, rfl⟩
      exact h.of_flush hflusher hstore
  | resume =>
      rcases Option.map_eq_some_iff.mp hstep with ⟨mid, hmid, rfl⟩
      rcases stepStore_cases hmid with ⟨hflusher, store, hstore, rfl⟩
      exact h.of_flush hflusher hstore
  | retry =>
      rcases Option.map_eq_some_iff.mp hstep with ⟨mid, hmid, rfl⟩
      rcases stepStore_cases hmid with ⟨hflusher, store, hstore, rfl⟩
      rw [hflusher] at hfits
      rcases retry_cases hstore with ⟨hphase, hpending⟩
      exact ⟨by simp [h.up, hflusher], hphase, hpending ▸ hfits.2⟩
  | wake =>
      rcases moveFlusher_cases hstep with ⟨hflusher, rfl⟩
      rw [hflusher] at hfits
      exact ⟨by simp [WakeState.enqueue, h.up, hflusher], hfits⟩
  | strand =>
      rcases Option.map_eq_some_iff.mp hstep with ⟨mid, hmid, rfl⟩
      rcases stepStore_cases hmid with ⟨hflusher, store, hstore, rfl⟩
      rcases strand_cases hstore with ⟨hphase, hpending⟩
      cases sdk with
      | python =>
          exact ⟨by simp [WakeState.afterStrand, WakeState.exit, WakeState.clear], hphase, hpending⟩
      | node => exact WakeInvariant.of_check (h.up (by simp [hflusher])) hphase
  | check =>
      rcases moveFlusher_cases hstep with ⟨hflusher, rfl⟩
      rw [hflusher] at hfits
      exact WakeInvariant.of_check (h.up (by simp [hflusher])) hfits
  | clear =>
      rcases moveFlusher_cases hstep with ⟨hflusher, rfl⟩
      rw [hflusher] at hfits
      exact ⟨by simp [WakeState.clear], hfits.2⟩

/-! ## No lost wake-up -/

/-- The flusher is on its way to another check of the queue. -/
def Flusher.WillCheck : Flusher → Prop
  | .none => False
  | .drained => False
  | _ => True

/-- A flusher leaves the way to the next check only by finding the queue empty. -/
theorem willCheck_until_empty {l : WakeStep D W} (hcheck : s.flusher.WillCheck)
    (hstep : waking sdk apply start s l = some s') :
    s'.flusher.WillCheck ∨ s'.store.pending = [] := by
  have hchecked : ∀ r : WakeState apply start,
      (r.check sdk).flusher.WillCheck ∨ (r.check sdk).store.pending = [] := by
    intro r
    unfold WakeState.check
    split
    · rename_i hpending
      right
      cases sdk <;> exact hpending
    · exact Or.inl trivial
  have hflushed : ∀ r : WakeState apply start, r.flusher = .flushing →
      (r.afterFlush sdk).flusher.WillCheck ∨ (r.afterFlush sdk).store.pending = [] := by
    intro r hr
    unfold WakeState.afterFlush
    split
    · cases sdk with
      | python => exact hchecked r
      | node => exact Or.inl trivial
    · rw [hr]
      exact Or.inl trivial
  cases l with
  | fetch write =>
      rcases Option.map_eq_some_iff.mp hstep with ⟨mid, hmid, rfl⟩
      rcases stepStore_cases hmid with ⟨-, store, -, rfl⟩
      unfold WakeState.scheduleFlush
      split
      · exact Or.inl hcheck
      · cases sdk with
        | python => exact Or.inl trivial
        | node => exact hchecked _
  | external change =>
      rcases stepStore_cases hstep with ⟨-, store, -, rfl⟩
      exact Or.inl hcheck
  | start =>
      rcases moveFlusher_cases hstep with ⟨-, rfl⟩
      exact hchecked s
  | acquire =>
      rcases Option.map_eq_some_iff.mp hstep with ⟨mid, -, rfl⟩
      exact Or.inl trivial
  | succeed nowMs
  | fail e inTransaction
  | resume =>
      rcases Option.map_eq_some_iff.mp hstep with ⟨mid, hmid, rfl⟩
      rcases stepStore_cases hmid with ⟨hflusher, store, -, rfl⟩
      exact hflushed _ hflusher
  | retry =>
      rcases Option.map_eq_some_iff.mp hstep with ⟨mid, -, rfl⟩
      exact Or.inl trivial
  | wake =>
      rcases moveFlusher_cases hstep with ⟨-, rfl⟩
      exact Or.inl trivial
  | strand =>
      rcases Option.map_eq_some_iff.mp hstep with ⟨mid, hmid, rfl⟩
      rcases stepStore_cases hmid with ⟨-, store, hstore, rfl⟩
      cases sdk with
      | python => exact Or.inr (strand_cases hstore).2
      | node => exact hchecked _
  | check =>
      rcases moveFlusher_cases hstep with ⟨-, rfl⟩
      exact hchecked s
  | clear =>
      rcases moveFlusher_cases hstep with ⟨hflusher, -⟩
      rw [hflusher] at hcheck
      cases hcheck

/-- A turn of `flush` under way has a next step. -/
theorem flush_enabled {s : FlushState apply start} (hphase : s.phase ≠ .between) :
    (∃ nowMs, (s.succeed nowMs).isSome) ∨ s.resume.isSome ∨ s.strand.isSome := by
  cases hcase : s.phase with
  | between => exact absurd hcase hphase
  | single only rows =>
      cases rows with
      | none => exact Or.inl ⟨0, by simp [FlushState.succeed, hcase]⟩
      | some rows => exact Or.inr (Or.inl (by simp [FlushState.resume, hcase]))
  | beginning => exact Or.inl ⟨0, by simp [FlushState.succeed, hcase]⟩
  | running batch out working =>
      refine Or.inl ⟨0, ?_⟩
      simp only [FlushState.succeed, hcase]
      split <;> rfl
  | committed batch out => exact Or.inr (Or.inl (by simp [FlushState.resume, hcase]))
  | raised e => exact Or.inr (Or.inr (by simp [FlushState.strand, hcase]))

/-- A flusher with unanswered writes is on its way to the next check, and has a next step. -/
theorem WakeInvariant.watched (h : WakeInvariant sdk s) (hunanswered : s.store.unanswered ≠ []) :
    s.flusher.WillCheck ∧ ∃ l : WakeStep D W, l.OfFlusher ∧
      (waking sdk apply start s l).isSome := by
  have hfits := h.fits
  cases hflusher : s.flusher with
  | none =>
      rw [hflusher] at hfits
      simp only [FlushState.unanswered, hfits.1] at hunanswered
      exact absurd hfits.2 hunanswered
  | drained =>
      rw [hflusher] at hfits
      simp only [FlushState.unanswered, hfits.2.1] at hunanswered
      exact absurd hfits.2.2 hunanswered
  | scheduled =>
      exact ⟨trivial, .start, trivial, by simp [waking, WakeState.moveFlusher, hflusher]⟩
  | waiting =>
      rw [hflusher] at hfits
      refine ⟨trivial, .acquire, trivial, ?_⟩
      simp only [waking, WakeState.stepStore, hflusher, if_true, flushing, FlushState.startTurn,
        hfits.1, Option.isSome_map]
      rcases hpending : s.store.pending with _ | ⟨w, _ | ⟨w', rest⟩⟩
      · exact absurd hpending hfits.2
      · rfl
      · rfl
  | flushing =>
      rw [hflusher] at hfits
      refine ⟨trivial, ?_⟩
      rcases flush_enabled hfits.1 with ⟨nowMs, henabled⟩ | henabled | henabled
      · exact ⟨.succeed nowMs, trivial, by
          simpa [waking, WakeState.stepStore, hflusher, flushing] using henabled⟩
      · exact ⟨.resume, trivial, by
          simpa [waking, WakeState.stepStore, hflusher, flushing] using henabled⟩
      · exact ⟨.strand, trivial, by
          simpa [waking, WakeState.stepStore, hflusher, flushing] using henabled⟩
  | settling =>
      exact ⟨trivial, .check, trivial, by simp [waking, WakeState.moveFlusher, hflusher]⟩
  | backoff =>
      exact ⟨trivial, .wake, trivial, by simp [waking, WakeState.moveFlusher, hflusher]⟩

/-- No lost wake-up.  In every run in which no write arrives between the last check of
{lit}`drain` and the callback that clears the field (on the Python store: in every run), while a
write is unanswered the flusher is on its way to another check of the queue, has a step to take
or waits for the lock or the timer, and leaves that way only by finding the queue empty. -/
theorem no_lost_wakeup
    (hreach : (waking sdk apply start).Reachable (OutsideExitWindow sdk)
      (WakeState.fresh apply start) s) (hunanswered : s.store.unanswered ≠ []) :
    s.flusher.WillCheck ∧
      (∃ l : WakeStep D W, l.OfFlusher ∧ (waking sdk apply start s l).isSome) ∧
      ∀ l s', waking sdk apply start s l = some s' →
        s'.flusher.WillCheck ∨ s'.store.pending = [] := by
  have hinvariant : WakeInvariant sdk s :=
    hreach.invariant (fun _ _ _ h hguard hstep => h.of_step hguard hstep) (WakeInvariant.fresh sdk)
  rcases hinvariant.watched hunanswered with ⟨hcheck, hnext⟩
  exact ⟨hcheck, hnext, fun _ _ hstep => willCheck_until_empty hcheck hstep⟩

/-- A write is answered; the next one arrives before the flusher checks the queue. -/
def watchedRun : List (WakeStep (Database Nat) (Statement Nat)) :=
  [.fetch (.insertTask (.plain "t" "work" 3 0)), .acquire, .succeed 0, .resume,
    .fetch (.cancel "t")]

theorem no_lost_wakeup_watchedRun :
    ((waking .node Sqlite.exec .empty).drive (WakeState.fresh Sqlite.exec .empty)
      watchedRun).flusher.WillCheck := by
  have hsteps : (waking .node Sqlite.exec .empty).Steps (OutsideExitWindow .node)
      (WakeState.fresh Sqlite.exec .empty) watchedRun
      ((waking .node Sqlite.exec .empty).drive (WakeState.fresh Sqlite.exec .empty) watchedRun) :=
    .cons (Or.inr (by decide)) rfl (.cons trivial rfl (.cons trivial rfl (.cons trivial rfl
      (.cons (Or.inr (by decide)) rfl (.nil _)))))
  exact (no_lost_wakeup ⟨_, hsteps⟩ (by decide)).1

/-- A write that does arrive in the window is on nobody's way: the condition is exact. -/
theorem fetch_in_exit_window {write : W} (hflusher : s.flusher = .drained)
    (hflag : s.flushing = true)
    (hstep : waking sdk apply start s (.fetch write) = some s') :
    s'.store.unanswered ≠ [] ∧ ¬s'.flusher.WillCheck := by
  rcases Option.map_eq_some_iff.mp hstep with ⟨mid, hmid, rfl⟩
  rcases stepStore_cases hmid with ⟨-, store, hstore, rfl⟩
  unfold WakeState.scheduleFlush
  rw [fetch_cases hstore, if_pos hflag]
  refine ⟨by rw [unanswered_fetch]; simp, ?_⟩
  rw [hflusher]
  exact id

/-- The first write is answered, and {lit}`drain` finds the queue empty and returns; the second
write arrives; the callback clears the field. -/
def leftBehindRun : List (WakeStep (Database Nat) (Statement Nat)) :=
  [.fetch (.insertTask (.plain "t" "work" 3 0)), .acquire, .succeed 0, .resume, .check,
    .fetch (.cancel "t"), .clear]

/-- The wake-up of the second write is lost: it is queued, there is no flusher, and no step of a
flusher, no wait for the lock and no timer is left. -/
theorem lost_wakeup :
    ∃ s : WakeState (Sqlite.exec (J := Nat)) .empty,
      (waking .node Sqlite.exec .empty).Reachable anyStep (WakeState.fresh Sqlite.exec .empty) s ∧
      s.store.unanswered.map Pending.id = [1] ∧ s.flusher = .none ∧ s.flushing = false ∧
      ∀ l : WakeStep (Database Nat) (Statement Nat), l.OfFlusher →
        waking .node Sqlite.exec .empty s l = none := by
  refine ⟨(waking .node Sqlite.exec .empty).drive (WakeState.fresh Sqlite.exec .empty)
    leftBehindRun, Machine.reachable_drive _ _ _ fun _ _ _ => trivial, rfl, rfl, rfl, ?_⟩
  intro l hl
  cases l <;> first | rfl | cases hl

end CairnQ
