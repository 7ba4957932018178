import CairnQ.Transition.Machine

/-!
# Closing and reopening

The open and close life cycle of the Python `SQLiteStore` over a file.  Connecting is
lazy, so a store goes through any number of cycles: every operation may connect,
any number of `close()` calls may overlap, share the task that runs `_do_close`, or be
cancelled while they wait for it.

Three fields carry this.  `_closing` is raised by every `close()` and lowered by the
task; `_closed` holds the task and is cleared by the callers that waited for it;
`_conn` is published by a connect that holds the init lock and taken by the task.

Main results:

- Theorem `Sound.of_step`: what the fields say about each other is kept by every step
  but a `close()` that finds a finished task or comes after the connection was taken.
- Theorem `close_sound`: so without such calls the store refuses operations only while
  it is being closed, and a `close()` returns with its connection closed.
- Theorem `refuses_of_finished`: a `close()` that finds a finished task leaves the store
  refusing with no task to end that.
-/

namespace CairnQ

open Transition

/-! ## State -/

/-- A task that runs `_do_close`: it is scheduled, awaits the flusher it took, the store
lock, or `conn.close()`, or is done. -/
inductive CloseTask
  | scheduled
  | flushing
  | locking
  | shutting (conn : Nat)
  | done (failed : Bool)
deriving DecidableEq, Repr

/-- The task has not finished yet. -/
def CloseTask.running : CloseTask → Bool
  | .done _ => false
  | _ => true

/-- Where a `close()` call stands: it awaits the shielded task, or the task is done and
its `finally` has yet to run, or it is over. -/
inductive CloserPhase
  | waiting
  | released (failed : Bool)
  | returned
  | raised
deriving DecidableEq, Repr

/-- A `close()` call, with the connection that was open when it was made. -/
structure Closer where
  conn : Option Nat
  phase : CloserPhase
deriving DecidableEq, Repr

/-- The connect that holds the init lock: it opens a connection for the generation it
read, or checks the protocol version on the one it published. -/
inductive ConnectPhase
  | opening (generation : Nat)
  | checking
deriving DecidableEq, Repr

/-- A `SQLiteStore` and the calls on it.  Connections are numbered as they are opened. -/
structure StoreLife where
  closing : Bool
  closed : Option CloseTask
  conn : Option Nat
  generation : Nat
  connecting : Option ConnectPhase
  /-- connects that wait for the init lock -/
  waiting : Nat
  opened : Nat
  /-- the connections `_do_close` has closed -/
  shut : List Nat
  closers : List Closer
deriving DecidableEq, Repr

namespace StoreLife

/-- A store nobody has used. -/
def fresh : StoreLife where
  closing := false
  closed := none
  conn := none
  generation := 0
  connecting := none
  waiting := 0
  opened := 0
  shut := []
  closers := []

/-- A `_do_close` is scheduled or runs. -/
def closeRunning (s : StoreLife) : Bool :=
  s.closed.any CloseTask.running

/-! ## Steps -/

/-- The end of `_do_close`: its `finally`, and the callbacks of those who await it. -/
def finish (s : StoreLife) (failed : Bool) : StoreLife :=
  { s with
    closing := false
    closed := some (.done failed)
    closers := s.closers.map fun c =>
      if c.phase = .waiting then { c with phase := .released failed } else c }

/-- `_do_close` once the flusher is out of the way. -/
def afterFlush (s : StoreLife) : StoreLife :=
  if s.conn.isSome then { s with closed := some .locking } else s.finish false

/-- The `finally` of `close()`: drop the task if it is done. -/
def dropDone (s : StoreLife) : StoreLife :=
  { s with closed := s.closed.filter CloseTask.running }

/-- One `close()` call goes to another phase. -/
def setCloser (s : StoreLife) (i : Nat) (c : Closer) (phase : CloserPhase) : StoreLife :=
  { s with closers := s.closers.set i { c with phase := phase } }

/-- How a call ends when the task it awaited is done. -/
def outcome (failed : Bool) : CloserPhase :=
  if failed then .raised else .returned

/-- `close()` up to its first suspension; with a task that is done there is none. -/
def close (s : StoreLife) : StoreLife :=
  let called := { s with closing := true }
  match s.closed with
  | none =>
      { called with
        closed := some .scheduled
        closers := s.closers ++ [{ conn := s.conn, phase := .waiting }] }
  | some (.done failed) =>
      { called with
        closed := none
        closers := s.closers ++ [{ conn := s.conn, phase := outcome failed }] }
  | some _ => { called with closers := s.closers ++ [{ conn := s.conn, phase := .waiting }] }

/-- `connect()` once its connection is open: publish it and start on the version check, or
shut it down if the store was closed meanwhile. -/
def publish (s : StoreLife) (generation : Nat) : StoreLife :=
  if generation ≠ s.generation then { s with connecting := none, opened := s.opened + 1 }
  else
    -- `protocol_version` passes `_ensure`, which refuses while the store is being closed
    { s with
      conn := some s.opened
      connecting := if s.closing then none else some .checking
      opened := s.opened + 1 }

end StoreLife

/-- A label of the life cycle. -/
inductive LifeStep
  /-- a `close()` call -/
  | close
  /-- the first turn of `_do_close`, with a flusher to await or none -/
  | begin (flusher : Bool)
  | flushed
  /-- `_do_close` gets the store lock and takes the connection -/
  | locked
  | shut (failed : Bool)
  /-- a `close()` call runs on after the task it awaited -/
  | wake (i : Nat)
  /-- a `close()` call is cancelled -/
  | cancel (i : Nat)
  /-- `_ensure` of an operation, or `connect()` -/
  | connect
  /-- a connect gets the init lock -/
  | grant
  | opened
  | openFails
  /-- the version check ends, either way -/
  | checked
deriving DecidableEq, Repr

/-- The life cycle of a store. -/
def storeLife : Machine StoreLife LifeStep := fun s l =>
  match l with
  | .close => some s.close
  | .begin flusher => match s.closed with
    | some .scheduled =>
        let begun := { s with generation := s.generation + 1 }
        some (if flusher then { begun with closed := some .flushing } else begun.afterFlush)
    | _ => none
  | .flushed => match s.closed with
    | some .flushing => some s.afterFlush
    | _ => none
  | .locked => match s.closed, s.conn with
    | some .locking, some conn => some { s with conn := none, closed := some (.shutting conn) }
    | some .locking, none => some (s.finish true)
    | _, _ => none
  | .shut failed => match s.closed with
    | some (.shutting conn) =>
        some (if failed then s.finish true else { s with shut := conn :: s.shut }.finish false)
    | _ => none
  | .wake i => match s.closers[i]? with
    | some c => match c.phase with
      | .released failed => some (s.dropDone.setCloser i c (StoreLife.outcome failed))
      | _ => none
    | none => none
  | .cancel i => match s.closers[i]? with
    | some c => match c.phase with
      | .waiting | .released _ => some (s.dropDone.setCloser i c .raised)
      | _ => none
    | none => none
  | .connect =>
      -- `StoreClosed`, or there is a connection already
      if s.closing ∨ s.conn.isSome then some s else some { s with waiting := s.waiting + 1 }
  | .grant =>
      if s.connecting = none ∧ 0 < s.waiting then
        some { s with
          waiting := s.waiting - 1
          connecting := if s.conn.isSome then none else some (.opening s.generation) }
      else none
  | .opened => match s.connecting with
    | some (.opening generation) => some (s.publish generation)
    | _ => none
  | .openFails => match s.connecting with
    | some (.opening _) => some { s with connecting := none }
    | _ => none
  | .checked =>
      if s.connecting = some .checking then some { s with connecting := none } else none

/-! ## The invariant -/

namespace StoreLife

/-- The running task will close the connection, or has. -/
def WillShut (s : StoreLife) (conn : Nat) : Prop :=
  match s.closed with
  | some .scheduled | some .flushing | some .locking => s.conn = some conn
  | some (.shutting taken) => taken = conn
  | _ => False

/-- What a call may rely on, as far as it has come. -/
def Promised (s : StoreLife) (c : Closer) : Prop :=
  ∀ conn, c.conn = some conn → match c.phase with
    | .waiting => s.WillShut conn
    | .released false | .returned => conn ∈ s.shut
    | .released true | .raised => True

/-- What the fields say about each other. -/
structure Sound (s : StoreLife) : Prop where
  /-- operations are refused exactly while a task runs -/
  closing : s.closing = s.closeRunning
  /-- a connect opens a connection only where there is none -/
  opening : ∀ generation, s.connecting = some (.opening generation) → s.conn = none
  promised : ∀ c ∈ s.closers, s.Promised c

theorem Sound.fresh : Sound fresh where
  closing := rfl
  opening := by
    intro generation h
    cases h
  promised := by
    intro c hc
    cases hc

variable {s s' : StoreLife} {c : Closer}

/-- A promise holds on when what the task will close or has closed only grows. -/
theorem Promised.mono (h : s.Promised c)
    (hwill : c.phase = .waiting → ∀ conn, s.WillShut conn → s'.WillShut conn)
    (hshut : ∀ conn ∈ s.shut, conn ∈ s'.shut) : s'.Promised c := by
  intro conn hconn
  have hold := h conn hconn
  cases hphase : c.phase with
  | waiting =>
      rw [hphase] at hold
      exact hwill hphase conn hold
  | released failed =>
      rw [hphase] at hold
      cases failed with
      | false => exact hshut conn hold
      | true => trivial
  | returned =>
      rw [hphase] at hold
      exact hshut conn hold
  | raised => trivial

/-- A call that ends without an exception may rely on what it could rely on before. -/
theorem Promised.outcome {failed : Bool} (h : s.Promised c) (hphase : c.phase = .released failed) :
    s.Promised { c with phase := outcome failed } := by
  intro conn hconn
  have hold := h conn hconn
  rw [hphase] at hold
  cases failed with
  | false => exact hold
  | true => trivial

/-- The end of `_do_close` keeps its promises: what it was to close is closed by now. -/
theorem Sound.finish {failed : Bool} (h : ∀ c ∈ s.closers, s'.Promised c)
    (hopening : ∀ generation, s'.connecting = some (.opening generation) → s'.conn = none)
    (hclosers : s'.closers = s.closers)
    (hshut : failed = false → ∀ conn, s'.WillShut conn → conn ∈ s'.shut) :
    (s'.finish failed).Sound where
  closing := rfl
  opening := hopening
  promised := by
    intro c hc
    rcases List.mem_map.mp hc with ⟨c₀, hc₀, rfl⟩
    rw [hclosers] at hc₀
    intro conn hconn
    by_cases hwaiting : c₀.phase = .waiting
    · rw [if_pos hwaiting] at hconn ⊢
      cases failed with
      | true => trivial
      | false =>
          have hwill := h c₀ hc₀ conn hconn
          rw [hwaiting] at hwill
          exact hshut rfl conn hwill
    · rw [if_neg hwaiting] at hconn ⊢
      have hkept : (s'.finish failed).Promised c₀ :=
        (h c₀ hc₀).mono (fun h => absurd h hwaiting) fun _ h => h
      exact hkept conn hconn

theorem Sound.afterFlush (h : s.Sound) (hrunning : s.closeRunning = true)
    (hwill : ∀ conn, s.WillShut conn → s.conn = some conn) : s.afterFlush.Sound := by
  unfold StoreLife.afterFlush
  split
  · refine ⟨?_, h.opening, fun c hc => (h.promised c hc).mono (fun _ => hwill) fun _ h => h⟩
    rw [h.closing, hrunning]
    rfl
  · rename_i hnone
    refine Sound.finish h.promised h.opening rfl fun _ conn hconn => ?_
    rw [hwill conn hconn] at hnone
    exact absurd rfl hnone

theorem closeRunning_dropDone (s : StoreLife) : s.dropDone.closeRunning = s.closeRunning := by
  unfold closeRunning StoreLife.dropDone
  cases s.closed with
  | none => rfl
  | some task => cases task <;> rfl

theorem willShut_dropDone (s : StoreLife) (conn : Nat) :
    s.dropDone.WillShut conn ↔ s.WillShut conn := by
  unfold WillShut StoreLife.dropDone
  cases s.closed with
  | none => exact Iff.rfl
  | some task => cases task <;> exact Iff.rfl

/-- Clearing a finished task changes nothing a call relies on. -/
theorem Sound.dropDone (h : s.Sound) : s.dropDone.Sound where
  closing := by
    rw [closeRunning_dropDone]
    exact h.closing
  opening := h.opening
  promised := fun c hc =>
    (h.promised c hc).mono (fun _ conn => (willShut_dropDone s conn).mpr) fun _ h => h

/-- A call that is over or about to be may change its phase to one it may have. -/
theorem Sound.setCloser (h : s.Sound) {i : Nat} {phase : CloserPhase}
    (hpromised : s.Promised { c with phase := phase }) : (s.setCloser i c phase).Sound where
  closing := h.closing
  opening := h.opening
  promised := by
    intro c' hc'
    rcases List.mem_or_eq_of_mem_set hc' with hold | rfl
    · exact h.promised c' hold
    · exact hpromised

end StoreLife

/-- There is no task, or one that has yet to take the connection that is open, if one is. -/
def StoreLife.taskOpen (s : StoreLife) : Bool :=
  match s.closed with
  | some (.done _) => false
  | some (.shutting _) => s.conn.isNone
  | _ => true

/-- A `close()` call finds no task, or one that will take the connection that is open. -/
def FindsOpenTask (s : StoreLife) (l : LifeStep) : Prop :=
  l = .close → s.taskOpen = true

instance (s : StoreLife) (l : LifeStep) : Decidable (FindsOpenTask s l) :=
  inferInstanceAs (Decidable (_ → _))

namespace StoreLife

variable {s s' : StoreLife}

theorem Sound.close (h : s.Sound) (hguard : FindsOpenTask s .close) : s.close.Sound := by
  have hfinds := hguard rfl
  unfold taskOpen at hfinds
  have hnew : ∀ {t : StoreLife}, t.closers = s.closers ++ [{ conn := s.conn, phase := .waiting }] →
      (∀ conn, s.WillShut conn → t.WillShut conn) → (∀ conn ∈ s.shut, conn ∈ t.shut) →
      (∀ conn, s.conn = some conn → t.WillShut conn) → ∀ c ∈ t.closers, t.Promised c := by
    intro t hclosers hwill hshut hopen c hc
    rw [hclosers, List.mem_append, List.mem_singleton] at hc
    rcases hc with hc | rfl
    · exact (h.promised c hc).mono (fun _ => hwill) hshut
    · exact hopen
  unfold StoreLife.close
  cases hclosed : s.closed with
  | none =>
      refine ⟨rfl, h.opening, hnew rfl ?_ (fun _ h => h) fun _ h => h⟩
      intro conn hconn
      simp [WillShut, hclosed] at hconn
  | some task =>
      rw [hclosed] at hfinds
      cases task with
      | done failed => cases hfinds
      | shutting taken =>
          refine ⟨?_, h.opening, hnew rfl (fun conn hwill => ?_) (fun _ h => h)
            fun conn hconn => ?_⟩
          · simp [closeRunning, CloseTask.running]
          · simpa [WillShut, hclosed] using hwill
          · rw [hconn] at hfinds
            cases hfinds
      | scheduled | flushing | locking =>
          refine ⟨?_, h.opening, hnew rfl (fun conn hwill => ?_) (fun _ h => h)
            fun conn hconn => ?_⟩
          · simp [closeRunning, CloseTask.running]
          · simpa [WillShut, hclosed] using hwill
          · simpa [WillShut, hclosed] using hconn

/-- A connect that gives the init lock back changes nothing a call relies on. -/
theorem Sound.leaveInitLock (h : s.Sound) (opened : Nat) :
    ({ s with connecting := none, opened := opened } : StoreLife).Sound where
  closing := h.closing
  opening := by
    intro generation hopening
    cases hopening
  promised := h.promised

/-- Publishing a connection keeps the promises: there was none to be closed. -/
theorem Sound.publish {generation : Nat} (h : s.Sound)
    (hopening : s.connecting = some (.opening generation)) : (s.publish generation).Sound := by
  have hnone := h.opening generation hopening
  unfold StoreLife.publish
  split
  · exact h.leaveInitLock _
  · refine ⟨h.closing, ?_, fun c hc => (h.promised c hc).mono (fun _ conn hwill => ?_) fun _ h => h⟩
    · intro g hg
      split at hg <;> cases hg
    · unfold WillShut at hwill ⊢
      rcases hclosed : s.closed with _ | task
      · simp [hclosed] at hwill
      · cases task <;> simp_all

/-- Every step keeps the invariant, but a `close()` that finds no open task. -/
theorem Sound.of_step {l : LifeStep} (h : s.Sound) (hguard : FindsOpenTask s l)
    (hstep : storeLife s l = some s') : s'.Sound := by
  cases l with
  | close =>
      cases hstep
      exact h.close hguard
  | begin flusher =>
      simp only [storeLife] at hstep
      split at hstep
      · rename_i hscheduled
        cases hstep
        have hbegun : ({ s with generation := s.generation + 1 } : StoreLife).Sound :=
          ⟨h.closing, h.opening, h.promised⟩
        split
        · refine ⟨?_, h.opening, fun c hc => (h.promised c hc).mono (fun _ conn hwill => ?_)
            fun _ h => h⟩
          · rw [h.closing]
            simp [closeRunning, hscheduled, CloseTask.running]
          · simpa [WillShut, hscheduled] using hwill
        · refine hbegun.afterFlush ?_ fun conn hwill => ?_
          · simp [closeRunning, hscheduled, CloseTask.running]
          · simpa [WillShut, hscheduled] using hwill
      · cases hstep
  | flushed =>
      simp only [storeLife] at hstep
      split at hstep
      · rename_i hflushing
        cases hstep
        refine h.afterFlush ?_ fun conn hwill => ?_
        · simp [closeRunning, hflushing, CloseTask.running]
        · simpa [WillShut, hflushing] using hwill
      · cases hstep
  | locked =>
      simp only [storeLife] at hstep
      split at hstep
      · rename_i conn hlocking hconn
        cases hstep
        refine ⟨?_, fun _ _ => rfl, fun c hc => (h.promised c hc).mono (fun _ conn' hwill => ?_)
          fun _ h => h⟩
        · rw [h.closing]
          simp [closeRunning, hlocking, CloseTask.running]
        · simp only [WillShut, hlocking, hconn] at hwill
          exact Option.some.inj hwill
      · cases hstep
        exact Sound.finish h.promised h.opening rfl (by simp)
      · cases hstep
  | shut failed =>
      simp only [storeLife] at hstep
      split at hstep
      · rename_i taken htaken
        cases hstep
        split
        · exact Sound.finish h.promised h.opening rfl (by simp)
        · refine Sound.finish (fun c hc => (h.promised c hc).mono (fun _ _ hwill => hwill)
            fun _ h => List.mem_cons_of_mem _ h) h.opening rfl fun _ conn hwill => ?_
          simp only [WillShut, htaken] at hwill
          exact hwill ▸ List.mem_cons_self
      · cases hstep
  | wake i =>
      simp only [storeLife] at hstep
      split at hstep
      · rename_i c hc
        split at hstep
        · rename_i failed hphase
          cases hstep
          have hmem := List.mem_of_getElem? hc
          exact h.dropDone.setCloser ((h.dropDone.promised c hmem).outcome hphase)
        · cases hstep
      · cases hstep
  | cancel i =>
      simp only [storeLife] at hstep
      split at hstep
      · split at hstep
        · cases hstep
          exact h.dropDone.setCloser fun _ _ => trivial
        · cases hstep
          exact h.dropDone.setCloser fun _ _ => trivial
        · cases hstep
      · cases hstep
  | connect =>
      simp only [storeLife] at hstep
      split at hstep
      · cases hstep
        exact h
      · cases hstep
        exact ⟨h.closing, h.opening, h.promised⟩
  | grant =>
      simp only [storeLife] at hstep
      split at hstep
      · cases hstep
        refine ⟨h.closing, ?_, h.promised⟩
        intro g hg
        simp only at hg ⊢
        split at hg
        · cases hg
        · rename_i hnone
          simpa using hnone
      · cases hstep
  | opened =>
      simp only [storeLife] at hstep
      split at hstep
      · rename_i generation hopening
        cases hstep
        exact h.publish hopening
      · cases hstep
  | openFails =>
      simp only [storeLife] at hstep
      split at hstep
      · cases hstep
        exact h.leaveInitLock s.opened
      · cases hstep
  | checked =>
      simp only [storeLife] at hstep
      split at hstep
      · cases hstep
        exact h.leaveInitLock s.opened
      · cases hstep

end StoreLife

/-! ## The life cycle -/

/-- In a run in which every `close()` finds no task or one that has yet to take the connection that
is open: the store refuses operations only while a `_do_close` is scheduled or runs, and a
`close()` that returns has the connection closed that was open at the call. -/
theorem close_sound {s : StoreLife} (hreach : storeLife.Reachable FindsOpenTask .fresh s) :
    (s.closeRunning = false → s.closing = false) ∧
      ∀ c ∈ s.closers, c.phase = .returned → ∀ conn, c.conn = some conn → conn ∈ s.shut := by
  have hsound : s.Sound :=
    hreach.invariant (fun _ _ _ h hguard hstep => h.of_step hguard hstep) .fresh
  refine ⟨fun hidle => hsound.closing.trans hidle, fun c hc hreturned conn hconn => ?_⟩
  have hpromised := hsound.promised c hc conn hconn
  rwa [hreturned] at hpromised

/-- Two calls share a close, one of them is cancelled, and the store is used and closed again. -/
def sharedCloseRun : List LifeStep :=
  [.connect, .grant, .opened, .checked, .close, .close, .begin true, .cancel 0, .flushed, .locked,
    .shut false, .wake 1, .connect, .grant, .opened, .checked, .close, .begin false, .locked,
    .shut false, .wake 2]

theorem close_sound_sharedCloseRun :
    let s := storeLife.drive .fresh sharedCloseRun
    (s.closeRunning = false → s.closing = false) ∧
      ∀ c ∈ s.closers, c.phase = .returned → ∀ conn, c.conn = some conn → conn ∈ s.shut :=
  close_sound (Machine.reachable_of_admits (by decide))

/-- A `close()` that finds a finished task leaves the store refusing, with no task to end that. -/
theorem refuses_of_finished {s s' : StoreLife} {failed : Bool}
    (hclosed : s.closed = some (.done failed)) (hstep : storeLife s .close = some s') :
    s'.closing = true ∧ s'.closeRunning = false := by
  cases hstep
  simp [StoreLife.close, hclosed, StoreLife.closeRunning]

/-- The only caller of a close is cancelled; the store is used again and closed again. -/
def cancelledCloseRun : List LifeStep :=
  [.connect, .grant, .opened, .checked, .close, .begin false, .cancel 0, .locked, .shut false,
    .connect, .grant, .opened, .checked, .close]

/-- The second close returns at once: its connection is open, and the store refuses every operation
from then on. -/
theorem close_sound_fails :
    ∃ s : StoreLife, storeLife.Reachable anyStep .fresh s ∧
      (s.closeRunning = false ∧ s.closing = true) ∧
      s.closers[1]? = some { conn := some 1, phase := .returned } ∧
      1 ∉ s.shut ∧ s.conn = some 1 :=
  ⟨_, Machine.reachable_drive _ _ cancelledCloseRun fun _ _ _ => trivial, by decide⟩

end CairnQ
