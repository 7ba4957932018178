import CairnQ.Protocol.Execution
import CairnQ.Transition.Machine
import CairnQ.Transition.History
import CairnQ.Transition.Slots

/-!
# Closing under way

One `close()` of a SQLite store among the operations that passed its check.  An operation
may wait in four places: in the queue of the store lock, for its statistics refresh or for
its own turn; in the backoff after a lost write lock, with the lock free; between its
refresh and its own turn; and in the pending queue, for the flusher.  `close()` waits for
the flusher it finds, then for its turn on the lock, and takes the connection away.

The lock is the queue: its head holds it.  What a turn does on the connection is one step,
except for a transaction, whose body runs while others move.  A turn of the flusher commits
or refuses some writes from the front of the pending queue; those behind arrived during it.

Main results:

- Theorem `moves_of_step`: what a step can do.
- Theorem `Books.of_moves`: every step keeps the books, that is every operation is in the
  queue of the lock, in the pending queue and in the log as its phase has it.
-/

namespace CairnQ

open Transition

variable {D W R : Type}

/-! ## State -/

/-- What an operation does on the connection: one read, one write through the group commit, or
a transaction. -/
inductive AccessKind
  | read
  | write
  | transaction
deriving DecidableEq, Repr

/-- How an operation ends: with rows, with `StoreClosed`, with an error of its own statements,
or with the error of a connection that is gone. -/
inductive AccessOutcome (R : Type)
  | rows (rows : R)
  | storeClosed
  | sqlError
  | connectionGone
deriving DecidableEq, Repr

/-- Where an operation stands. -/
inductive AccessPhase (R : Type)
  /-- inside `connect()`, not past the check -/
  | connecting
  /-- its statistics refresh is in the queue of the lock -/
  | refreshing
  /-- its refresh is over, and it has not gone on -/
  | refreshed
  /-- its own turn is in the queue of the lock -/
  | queued
  /-- its transaction is open -/
  | inside
  /-- it lost the write lock and sleeps -/
  | backoff
  /-- its write waits for the flusher -/
  | pending
  | ended (outcome : AccessOutcome R)
deriving DecidableEq, Repr

namespace AccessPhase

/-- The operation is in the queue of the lock. -/
def inQueue : AccessPhase R → Bool
  | .refreshing | .queued | .inside => true
  | _ => false

def isPending : AccessPhase R → Bool
  | .pending => true
  | _ => false

/-- The operation waits where neither the lock nor a flusher gets to it. -/
def parked : AccessPhase R → Bool
  | .refreshed | .backoff => true
  | _ => false

/-- The operation is in neither queue and has not ended. -/
def free : AccessPhase R → Bool
  | .connecting | .refreshed | .backoff => true
  | _ => false

/-- The operation ended with rows. -/
def returned : AccessPhase R → Bool
  | .ended (.rows _) => true
  | _ => false

/-- The operation passed the check and has not ended. -/
def unfinished : AccessPhase R → Bool
  | .connecting | .ended _ => false
  | _ => true

theorem of_free {phase : AccessPhase R} (h : phase.free = true) :
    phase.inQueue = false ∧ phase.isPending = false ∧ phase.returned = false := by
  cases phase <;> first | exact ⟨rfl, rfl, rfl⟩ | cases h

theorem of_inQueue {phase : AccessPhase R} (h : phase.inQueue = true) :
    phase.isPending = false ∧ phase.returned = false := by
  cases phase <;> first | exact ⟨rfl, rfl⟩ | cases h

end AccessPhase

/-- An operation and what it does to the tables. -/
structure Access (W R : Type) where
  kind : AccessKind
  work : W
  phase : AccessPhase R
deriving DecidableEq, Repr

/-- An entry of the queue of the lock. -/
inductive Ticket
  | access (i : Nat)
  | flush
  | close
deriving DecidableEq, Repr

/-- Where the flusher is: there is none, its task has not run, it is in the queue of the lock,
it sleeps, it is about to check the pending queue, or it has returned and the callback that
clears the field is queued. -/
inductive FlusherStage
  | none
  | scheduled
  | waiting
  | backoff
  | settling
  | drained
deriving DecidableEq, Repr

/-- Where `close()` is: its task is scheduled, it waits for the flusher it found (which may have
ended), is in the queue of the lock, closes the connection it took, had its turn and is about
to take the connection, or is over. -/
inductive CloseStage
  | uncalled
  | scheduled
  | flushing (ended : Bool)
  | locking
  | shutting
  | released
  | done
deriving DecidableEq, Repr

/-- A store with an open connection, and one `close()`. -/
structure ClosingStore (apply : Int → W → D → D × R) (start : D) where
  conn : Bool
  queue : List Ticket
  pending : List Nat
  flusher : FlusherStage
  close : CloseStage
  accesses : List (Access W R)
  store : History apply start

/-- What a turn meets: its statements succeed, one fails, the write lock is lost with or without
budget for another attempt, or a flush commits writes with the time of each that succeeded. -/
inductive TurnVerdict
  | succeeds (nowMs : Int)
  | fails
  | busy (again : Bool)
  | commits (results : List (Option Int))
deriving DecidableEq, Repr

/-- A label. -/
inductive CloseStep (D W : Type)
  /-- an operation comes to the check; its refresh may be due -/
  | access (kind : AccessKind) (work : W) (due : Bool)
  /-- `connect()` returns to an operation -/
  | connected (i : Nat) (due : Bool)
  /-- another connection commits a change -/
  | external (change : D → D)
  | close
  /-- the first turn of `_do_close` -/
  | begin
  /-- `close()` goes on after the flusher -/
  | flushed
  /-- the head of the queue of the lock has its turn -/
  | turn (verdict : TurnVerdict)
  /-- the connection is closed -/
  | shut
  /-- an operation goes on after its refresh -/
  | resume (i : Nat)
  /-- the timer of an operation fires -/
  | wake (i : Nat)
  /-- the flusher checks the pending queue -/
  | check
  /-- the callback clears the field of the flusher -/
  | clear
  /-- the timer of the flusher fires -/
  | wakeFlusher

namespace ClosingStore

variable {apply : Int → W → D → D × R} {start : D}

/-- A store with an open connection and operations that wait in `connect()`. -/
def opened (apply : Int → W → D → D × R) (start : D) (waiting : List (AccessKind × W)) :
    ClosingStore apply start where
  conn := true
  queue := []
  pending := []
  flusher := .none
  close := .uncalled
  accesses := waiting.map fun w => ⟨w.1, w.2, .connecting⟩
  store := .empty

/-- `_closing`, `closing`. -/
def closing (s : ClosingStore apply start) : Bool :=
  match s.close with
  | .uncalled | .done => false
  | _ => true

/-! ## Moves -/

/-- An operation goes to another phase. -/
def setPhase (s : ClosingStore apply start) (i : Nat) (a : Access W R) (phase : AccessPhase R) :
    ClosingStore apply start :=
  { s with accesses := s.accesses.set i { a with phase := phase } }

/-- An entry joins the queue of the lock. -/
def enqueue (s : ClosingStore apply start) (ticket : Ticket) : ClosingStore apply start :=
  { s with queue := s.queue ++ [ticket] }

/-- The work of an operation takes effect, and its caller gets the rows. -/
def perform (s : ClosingStore apply start) (i : Nat) (a : Access W R) (nowMs : Int) :
    ClosingStore apply start :=
  { s.setPhase i a (.ended (.rows (s.store.answer a.work nowMs))) with
    store := s.store.perform i a.work nowMs }

/-- The flusher queues for the lock. -/
def queueFlusher (s : ClosingStore apply start) : ClosingStore apply start :=
  { s.enqueue .flush with flusher := .waiting }

/-- The flusher is over, and a `close()` that awaits it may go on. -/
def finishFlusher (s : ClosingStore apply start) : ClosingStore apply start :=
  { s with
    flusher := .none
    close := match s.close with
      | .flushing _ => .flushing true
      | stage => stage }

/-- `while self._pending`, `while (this.pending.length)`; at the end the Python flusher clears
its flag at once, the TypeScript one leaves that to a callback. -/
def check (sdk : Sdk) (s : ClosingStore apply start) : ClosingStore apply start :=
  match s.pending, sdk with
  | [], .python => s.finishFlusher
  | [], .node => { s with flusher := .drained }
  | _ :: _, _ => s.queueFlusher

/-- `_schedule_flush`, `scheduleFlush`. -/
def scheduleFlush (sdk : Sdk) (s : ClosingStore apply start) : ClosingStore apply start :=
  match s.flusher, sdk with
  | .none, .python => { s with flusher := .scheduled }
  | .none, .node => s.queueFlusher
  | _, _ => s

/-- A write joins the pending queue. -/
def queueWrite (s : ClosingStore apply start) (i : Nat) : ClosingStore apply start :=
  { s with pending := s.pending ++ [i] }

/-- An operation past its refresh: a write joins the pending queue, any other the lock. -/
def join (sdk : Sdk) (s : ClosingStore apply start) (i : Nat) (a : Access W R) :
    ClosingStore apply start :=
  match a.kind with
  | .write => ((s.setPhase i a .pending).queueWrite i).scheduleFlush sdk
  | _ => (s.setPhase i a .queued).enqueue (.access i)

/-- An operation past the check. -/
def pass (sdk : Sdk) (s : ClosingStore apply start) (i : Nat) (a : Access W R) (due : Bool) :
    ClosingStore apply start :=
  if due then (s.setPhase i a .refreshing).enqueue (.access i) else s.join sdk i a

/-- `close()` waits for its turn on the lock. -/
def lockClose (s : ClosingStore apply start) : ClosingStore apply start :=
  { s.enqueue .close with close := .locking }

/-- `close()` up to its first wait: the Python one leaves the rest to a task. -/
def startClose (sdk : Sdk) (s : ClosingStore apply start) : ClosingStore apply start :=
  match sdk with
  | .python => { s with close := .scheduled }
  | .node => { s with close := .flushing (decide (s.flusher = .none)) }

/-- The first turn of `_do_close`. -/
def beginClose (s : ClosingStore apply start) : ClosingStore apply start :=
  if s.flusher = .none then s.lockClose else { s with close := .flushing false }

/-! ## Turns on the lock -/

/-- The turn of an operation; {lit}`rest` is the queue without it. -/
def turnAccess (sdk : Sdk) (s : ClosingStore apply start) (rest : List Ticket) (i : Nat)
    (a : Access W R) (verdict : TurnVerdict) : Option (ClosingStore apply start) :=
  let left := { s with queue := rest }
  if s.conn then
    match a.phase, verdict with
    | .refreshing, .succeeds _ | .refreshing, .busy _ => some (left.setPhase i a .refreshed)
    | .refreshing, .fails => some (left.setPhase i a (.ended .sqlError))
    | .queued, .succeeds nowMs =>
        match a.kind with
        | .transaction => some (s.setPhase i a .inside)
        | _ => some (left.perform i a nowMs)
    | .inside, .succeeds nowMs => some (left.perform i a nowMs)
    | .queued, .fails | .inside, .fails => some (left.setPhase i a (.ended .sqlError))
    | .queued, .busy again =>
        some (left.setPhase i a (if again then .backoff else .ended .sqlError))
    | .inside, .busy again =>
        -- the TypeScript transaction is retried as a whole, the Python one raises
        some (left.setPhase i a
          (if again && decide (sdk = .node) then .backoff else .ended .sqlError))
    | _, _ => none
  else some (left.setPhase i a (.ended .connectionGone))

/-- The first write of the pending queue is answered: it succeeded at the given time, or its
caller gets the error. -/
def settleNext (failure : AccessOutcome R) (s : ClosingStore apply start) (result : Option Int) :
    ClosingStore apply start :=
  match s.pending with
  | i :: rest =>
      match s.accesses[i]? with
      | some a =>
          match result with
          | some nowMs => { s.perform i a nowMs with pending := rest }
          | none => { s.setPhase i a (.ended failure) with pending := rest }
      | none => s
  | [] => s

/-- The first writes of the pending queue are answered. -/
def settle (failure : AccessOutcome R) (s : ClosingStore apply start)
    (results : List (Option Int)) : ClosingStore apply start :=
  results.foldl (settleNext failure) s

/-- All writes of the pending queue get the error. -/
def strand (failure : AccessOutcome R) (s : ClosingStore apply start) : ClosingStore apply start :=
  s.settle failure (List.replicate s.pending.length none)

/-- The flusher after a turn: the Python one checks at once. -/
def afterFlush (sdk : Sdk) (s : ClosingStore apply start) : ClosingStore apply start :=
  match sdk with
  | .python => s.check .python
  | .node => { s with flusher := .settling }

/-- The turn of the flusher; {lit}`rest` is the queue without it. -/
def turnFlush (sdk : Sdk) (s : ClosingStore apply start) (rest : List Ticket)
    (verdict : TurnVerdict) : Option (ClosingStore apply start) :=
  let left := { s with queue := rest }
  if s.conn then
    match verdict with
    | .commits results =>
        if 0 < results.length ∧ results.length ≤ s.pending.length then
          some ((left.settle .sqlError results).afterFlush sdk)
        else none
    | .busy true => some { left with flusher := .backoff }
    | .busy false => some ((left.strand .sqlError).check sdk)
    | _ => none
  else some ((left.strand .connectionGone).check sdk)

/-- The turn of `close()`: the Python one takes the connection and keeps the lock until it is
closed, the TypeScript one waited for an empty operation. -/
def turnClose (sdk : Sdk) (s : ClosingStore apply start) (rest : List Ticket) :
    Option (ClosingStore apply start) :=
  match s.close, sdk with
  | .locking, .python => some { s with conn := false, close := .shutting }
  | .locking, .node => some { s with queue := rest, close := .released }
  | _, _ => none

end ClosingStore

open ClosingStore

/-- One `close()` among the operations of the store. -/
def closingStore (sdk : Sdk) (apply : Int → W → D → D × R) (start : D) :
    Machine (ClosingStore apply start) (CloseStep D W) := fun s l =>
  match l with
  | .access kind work due =>
      let arrived (phase : AccessPhase R) : ClosingStore apply start :=
        { s with accesses := s.accesses ++ [⟨kind, work, phase⟩] }
      if s.closing then some (arrived (.ended .storeClosed))
      else if s.conn then
        some ((arrived .connecting).pass sdk s.accesses.length ⟨kind, work, .connecting⟩ due)
      else none
  | .connected i due => match s.accesses[i]? with
    | some a => match a.phase, sdk with
      | .connecting, .python =>
          -- with the connection gone it opens another one and checks its version, which `close()`
          -- refuses; after `close()` that is the next life of the store, and no step here
          if s.conn then some (s.pass .python i a due)
          else if s.closing then some (s.setPhase i a (.ended .storeClosed)) else none
      | _, _ => none
    | none => none
  | .external change =>
      if s.accesses.any fun a => match a.phase with
        | .inside => true
        | _ => false
      then none else some { s with store := s.store.external change }
  | .close => if s.close = .uncalled then some (s.startClose sdk) else none
  | .begin => if s.close = .scheduled then some s.beginClose else none
  | .flushed => if s.close = .flushing true then some s.lockClose else none
  | .turn verdict => match s.queue with
    | .access i :: rest => match s.accesses[i]? with
      | some a => s.turnAccess sdk rest i a verdict
      | none => none
    | .flush :: rest => s.turnFlush sdk rest verdict
    | .close :: rest => s.turnClose sdk rest
    | [] => none
  | .shut => match s.close, s.queue with
    | .shutting, .close :: rest => some { s with queue := rest, close := .done }
    | .released, _ => some { s with conn := false, close := .done }
    | _, _ => none
  | .resume i => match s.accesses[i]? with
    | some a => match a.phase with
      | .refreshed => some (s.join sdk i a)
      | _ => none
    | none => none
  | .wake i => match s.accesses[i]? with
    | some a => match a.phase with
      | .backoff => some ((s.setPhase i a .queued).enqueue (.access i))
      | _ => none
    | none => none
  | .check => match s.flusher with
    | .scheduled | .settling => some (s.check sdk)
    | _ => none
  | .clear => if s.flusher = .drained then some s.finishFlusher else none
  | .wakeFlusher => if s.flusher = .backoff then some s.queueFlusher else none

/-! ## Books -/

namespace ClosingStore

variable {apply : Int → W → D → D × R} {start : D} {s s' : ClosingStore apply start}
  {sdk : Sdk} {i : Nat} {a : Access W R}

/-- The phase of an operation. -/
def phaseOf (s : ClosingStore apply start) (i : Nat) : Option (AccessPhase R) :=
  s.accesses[i]?.map Access.phase

/-- What the queues and the log say of every operation: it is in the queue of the lock, in the
pending queue and in the log once or not at all, as its phase has it, and the rows it ended with
are the ones the log has for its own work. -/
structure Books (s : ClosingStore apply start) : Prop where
  queue : ∀ i, s.queue.count (.access i) = if (s.phaseOf i).any AccessPhase.inQueue then 1 else 0
  pending : ∀ i, s.pending.count i = if (s.phaseOf i).any AccessPhase.isPending then 1 else 0
  log : ∀ i, (operationIds s.store.log).count i =
    if (s.phaseOf i).any AccessPhase.returned then 1 else 0
  rows : ∀ i a rows, s.accesses[i]? = some a → a.phase = .ended (.rows rows) →
    ∃ nowMs, .operation i a.work nowMs rows ∈ s.store.log

/-- The books only look at the operations, the places of the operations in the two queues, and
the log. -/
theorem Books.congr (h : s.Books) (haccesses : s'.accesses = s.accesses)
    (hqueue : ∀ i, s'.queue.count (.access i) = s.queue.count (.access i))
    (hpending : s'.pending = s.pending) (hstore : s'.store = s.store) : s'.Books where
  queue i := by
    rw [hqueue, phaseOf, haccesses]
    exact h.queue i
  pending i := by
    rw [hpending, phaseOf, haccesses]
    exact h.pending i
  log i := by
    rw [hstore, phaseOf, haccesses]
    exact h.log i
  rows i a rows hi hphase := by
    rw [haccesses] at hi
    rw [hstore]
    exact h.rows i a rows hi hphase

theorem phaseOf_setPhase (hi : s.accesses[i]? = some a) (phase : AccessPhase R) (j : Nat) :
    (s.setPhase i a phase).phaseOf j = if j = i then some phase else s.phaseOf j := by
  have hlt := (List.getElem?_eq_some_iff.mp hi).1
  simp only [phaseOf, setPhase, List.getElem?_set]
  by_cases hij : i = j
  · subst hij
    simp [hlt]
  · simp [hij, Ne.symm hij]

theorem phaseOf_of_getElem? (hi : s.accesses[i]? = some a) : s.phaseOf i = some a.phase := by
  rw [phaseOf, hi]
  rfl

/-- An operation goes to another phase: the books are kept when it is queued, pending and logged
by as many entries more or less as the two phases have it. -/
theorem Books.move (h : s.Books) (hi : s.accesses[i]? = some a) {phase : AccessPhase R}
    (haccesses : s'.accesses = (s.setPhase i a phase).accesses)
    (hqueue : ∀ j, s'.queue.count (.access j) + (if j = i ∧ a.phase.inQueue then 1 else 0) =
      s.queue.count (.access j) + if j = i ∧ phase.inQueue then 1 else 0)
    (hpending : ∀ j, s'.pending.count j + (if j = i ∧ a.phase.isPending then 1 else 0) =
      s.pending.count j + if j = i ∧ phase.isPending then 1 else 0)
    (hlog : ∀ j, (operationIds s'.store.log).count j + (if j = i ∧ a.phase.returned then 1 else 0) =
      (operationIds s.store.log).count j + if j = i ∧ phase.returned then 1 else 0)
    (hold : ∀ e ∈ s.store.log, e ∈ s'.store.log)
    (hrows : ∀ rows, phase = .ended (.rows rows) →
      ∃ nowMs, .operation i a.work nowMs rows ∈ s'.store.log) : s'.Books := by
  have hphase : ∀ j, s'.phaseOf j = if j = i then some phase else s.phaseOf j := by
    intro j
    rw [phaseOf, haccesses]
    exact phaseOf_setPhase hi phase j
  have hwas := phaseOf_of_getElem? hi
  refine ⟨fun j => ?_, fun j => ?_, fun j => ?_, fun j b rows hj hb => ?_⟩
  · have hentry := hqueue j
    rw [h.queue j] at hentry
    rw [hphase]
    by_cases hji : j = i
    · subst hji
      simp only [hwas, Option.any_some, true_and, if_true] at hentry ⊢
      omega
    · simpa [hji] using hentry
  · have hentry := hpending j
    rw [h.pending j] at hentry
    rw [hphase]
    by_cases hji : j = i
    · subst hji
      simp only [hwas, Option.any_some, true_and, if_true] at hentry ⊢
      omega
    · simpa [hji] using hentry
  · have hentry := hlog j
    rw [h.log j] at hentry
    rw [hphase]
    by_cases hji : j = i
    · subst hji
      simp only [hwas, Option.any_some, true_and, if_true] at hentry ⊢
      omega
    · simpa [hji] using hentry
  · rw [haccesses] at hj
    rcases cases_getElem?_set hj with ⟨rfl, rfl⟩ | ⟨-, hkept⟩
    · exact hrows rows hb
    · rcases h.rows j b rows hkept hb with ⟨nowMs, hmem⟩
      exact ⟨nowMs, hold _ hmem⟩

/-- The flusher moves keep the books. -/
theorem Books.queueFlusher (h : s.Books) : s.queueFlusher.Books :=
  h.congr rfl (fun i => by simp [ClosingStore.queueFlusher, enqueue]) rfl rfl

theorem Books.finishFlusher (h : s.Books) : s.finishFlusher.Books :=
  h.congr rfl (fun _ => rfl) rfl rfl

theorem Books.check (h : s.Books) : (s.check sdk).Books := by
  unfold ClosingStore.check
  split
  · exact h.finishFlusher
  · exact h.congr rfl (fun _ => rfl) rfl rfl
  · exact h.queueFlusher

theorem Books.scheduleFlush (h : s.Books) : (s.scheduleFlush sdk).Books := by
  unfold ClosingStore.scheduleFlush
  split
  · exact h.congr rfl (fun _ => rfl) rfl rfl
  · exact h.queueFlusher
  · exact h

theorem Books.afterFlush (h : s.Books) : (s.afterFlush sdk).Books := by
  cases sdk with
  | python => exact h.check
  | node => exact h.congr rfl (fun _ => rfl) rfl rfl

theorem Books.lockClose (h : s.Books) : s.lockClose.Books :=
  h.congr rfl (fun i => by simp [ClosingStore.lockClose, enqueue]) rfl rfl

/-- An operation joins the queue of the lock. -/
theorem Books.enqueue (h : s.Books) (hi : s.accesses[i]? = some a)
    (hfree : a.phase.free = true) {phase : AccessPhase R}
    (hin : phase.inQueue = true) : ((s.setPhase i a phase).enqueue (.access i)).Books := by
  rcases AccessPhase.of_free hfree with ⟨hqueue, hpending, hreturned⟩
  have hnot := AccessPhase.of_inQueue hin
  refine h.move hi rfl (fun j => ?_) (fun j => ?_) (fun j => ?_) (fun _ he => he)
    fun rows hrows => ?_
  · by_cases hji : j = i
    · subst hji
      simp [ClosingStore.enqueue, setPhase, hqueue, hin]
    · simp [ClosingStore.enqueue, setPhase, hji, Ne.symm hji]
  · simp [ClosingStore.enqueue, setPhase, hpending, hnot.1]
  · simp [ClosingStore.enqueue, setPhase, hreturned, hnot.2]
  · rw [hrows] at hin
    cases hin

theorem Books.join (h : s.Books) (hi : s.accesses[i]? = some a)
    (hfree : a.phase.free = true) : (s.join sdk i a).Books := by
  rcases AccessPhase.of_free hfree with ⟨hqueue, hpending, hreturned⟩
  unfold ClosingStore.join
  split
  · have haccesses : ((s.setPhase i a .pending).queueWrite i).accesses =
        (s.setPhase i a .pending).accesses := rfl
    refine Books.scheduleFlush (h.move hi haccesses (fun j => ?_) (fun j => ?_)
      (fun j => ?_) (fun _ he => he) fun rows hrows => by cases hrows)
    · have hnew : (AccessPhase.pending : AccessPhase R).inQueue = false := rfl
      simp [queueWrite, setPhase, hqueue, hnew]
    · have hnew : (AccessPhase.pending : AccessPhase R).isPending = true := rfl
      by_cases hji : j = i
      · subst hji
        simp [queueWrite, setPhase, hpending, hnew]
      · simp [queueWrite, setPhase, hji, Ne.symm hji]
    · have hnew : (AccessPhase.pending : AccessPhase R).returned = false := rfl
      simp [queueWrite, setPhase, hreturned, hnew]
  · exact h.enqueue hi hfree rfl

theorem Books.pass (h : s.Books) (hi : s.accesses[i]? = some a)
    (hfree : a.phase.free = true) (due : Bool) : (s.pass sdk i a due).Books := by
  unfold ClosingStore.pass
  split
  · exact h.enqueue hi hfree rfl
  · exact h.join hi hfree

/-- The head of the queue is an operation that has a turn to take. -/
theorem Books.inQueue_of_head (h : s.Books) {rest : List Ticket}
    (hqueue : s.queue = .access i :: rest) (hi : s.accesses[i]? = some a) :
    a.phase.inQueue = true := by
  have hhead := h.queue i
  rw [hqueue, List.count_cons_self, phaseOf_of_getElem? hi, Option.any_some] at hhead
  by_contra hnot
  simp [hnot] at hhead

/-- What is left of the queue when its head has gone. -/
theorem count_of_head {rest : List Ticket} (hqueue : s.queue = .access i :: rest)
    (hin : a.phase.inQueue = true) (j : Nat) :
    rest.count (.access j) + (if j = i ∧ a.phase.inQueue then 1 else 0) =
      s.queue.count (.access j) := by
  rw [hqueue]
  by_cases hji : j = i
  · simp [hji, hin]
  · simp [hji, Ne.symm hji]

/-- An operation ends without rows, or is parked, and leaves the head of the queue. -/
theorem Books.leave (h : s.Books) {rest : List Ticket} (hqueue : s.queue = .access i :: rest)
    (hi : s.accesses[i]? = some a) {phase : AccessPhase R}
    (hout : phase.inQueue = false ∧ phase.isPending = false ∧ phase.returned = false) :
    ({ s with queue := rest }.setPhase i a phase).Books := by
  have hin := h.inQueue_of_head hqueue hi
  have hwas := AccessPhase.of_inQueue hin
  refine h.move hi rfl (fun j => ?_) (fun j => ?_) (fun j => ?_) (fun _ he => he)
    fun rows hrows => ?_
  · simpa [setPhase, hout.1] using count_of_head hqueue hin j
  · simp [setPhase, hwas.1, hout.2.1]
  · simp [setPhase, hwas.2, hout.2.2]
  · rw [hrows] at hout
    cases hout.2.2

theorem mem_perform {e : LogEntry D W R Int} (store : History apply start) (nowMs : Int)
    (he : e ∈ store.log) : e ∈ (store.perform i a.work nowMs).log :=
  List.mem_append_left _ he

theorem count_operationIds_perform (store : History apply start) (nowMs : Int) (j : Nat) :
    (operationIds (store.perform i a.work nowMs).log).count j =
      (operationIds store.log).count j + if j = i then 1 else 0 := by
  have hids : operationIds (store.perform i a.work nowMs).log = operationIds store.log ++ [i] := by
    simp [operationIds]
  rw [hids, List.count_append]
  by_cases hji : j = i
  · simp [hji]
  · simp [hji, Ne.symm hji]

/-- The work of an operation takes effect: the books are kept when the operation leaves the queue
it was in. -/
theorem Books.perform (h : s.Books) (hi : s.accesses[i]? = some a) (nowMs : Int)
    (hreturned : a.phase.returned = false)
    (haccesses : s'.accesses = (s.perform i a nowMs).accesses)
    (hstore : s'.store = (s.perform i a nowMs).store)
    (hqueue : ∀ j, s'.queue.count (.access j) + (if j = i ∧ a.phase.inQueue then 1 else 0) =
      s.queue.count (.access j))
    (hpending : ∀ j, s'.pending.count j + (if j = i ∧ a.phase.isPending then 1 else 0) =
      s.pending.count j) : s'.Books := by
  refine h.move hi haccesses (fun j => ?_) (fun j => ?_) (fun j => ?_) (fun e he => ?_)
    fun rows hrows => ?_
  · simpa [AccessPhase.inQueue] using hqueue j
  · simpa [AccessPhase.isPending] using hpending j
  · have hnew : (AccessPhase.ended (.rows (s.store.answer a.work nowMs))).returned = true := rfl
    rw [hstore]
    simp only [ClosingStore.perform, count_operationIds_perform, hreturned, hnew]
    simp
  · rw [hstore]
    exact mem_perform s.store nowMs he
  · cases hrows
    refine ⟨nowMs, ?_⟩
    rw [hstore]
    exact List.mem_append_right _ (List.mem_singleton_self _)

/-- A turn of an operation: it leaves the queue in another phase, or its transaction is open and
it stays at the head, or its work takes effect. -/
inductive Turned (s : ClosingStore apply start) (rest : List Ticket) (i : Nat) (a : Access W R) :
    TurnVerdict → ClosingStore apply start → Prop
  | gone (verdict : TurnVerdict) (hconn : s.conn = false) :
      Turned s rest i a verdict ({ s with queue := rest }.setPhase i a (.ended .connectionGone))
  | refreshed (verdict : TurnVerdict) (hconn : s.conn = true) (hphase : a.phase = .refreshing) :
      Turned s rest i a verdict ({ s with queue := rest }.setPhase i a .refreshed)
  | failed (verdict : TurnVerdict) (hconn : s.conn = true) :
      Turned s rest i a verdict ({ s with queue := rest }.setPhase i a (.ended .sqlError))
  | backedOff (hconn : s.conn = true) :
      Turned s rest i a (.busy true) ({ s with queue := rest }.setPhase i a .backoff)
  | began (nowMs : Int) (hconn : s.conn = true) (hphase : a.phase = .queued) :
      Turned s rest i a (.succeeds nowMs) (s.setPhase i a .inside)
  | performed (nowMs : Int) (hconn : s.conn = true) :
      Turned s rest i a (.succeeds nowMs) ({ s with queue := rest }.perform i a nowMs)

theorem turned_of_turnAccess {rest : List Ticket} {verdict : TurnVerdict}
    (hturn : s.turnAccess sdk rest i a verdict = some s') : s.Turned rest i a verdict s' := by
  unfold turnAccess at hturn
  split at hturn
  · rename_i hconn
    split at hturn
    · rename_i hphase
      cases hturn
      exact .refreshed _ hconn hphase
    · rename_i hphase
      cases hturn
      exact .refreshed _ hconn hphase
    · cases hturn
      exact .failed _ hconn
    · rename_i nowMs hphase
      split at hturn
      · cases hturn
        exact .began nowMs hconn hphase
      · cases hturn
        exact .performed nowMs hconn
    · cases hturn
      exact .performed _ hconn
    · cases hturn
      exact .failed _ hconn
    · cases hturn
      exact .failed _ hconn
    · rename_i again hphase
      cases again with
      | false =>
          cases hturn
          exact .failed _ hconn
      | true =>
          cases hturn
          exact .backedOff hconn
    · rename_i again hphase
      cases again with
      | false =>
          cases hturn
          exact .failed _ hconn
      | true =>
          cases sdk with
          | python =>
              cases hturn
              exact .failed _ hconn
          | node =>
              cases hturn
              exact .backedOff hconn
    · cases hturn
  · rename_i hconn
    cases hturn
    exact .gone verdict (by simpa using hconn)

/-- A turn of an operation keeps the books. -/
theorem Books.turned (h : s.Books) {rest : List Ticket} (hqueue : s.queue = .access i :: rest)
    (hi : s.accesses[i]? = some a) {verdict : TurnVerdict} (hturn : s.Turned rest i a verdict s') :
    s'.Books := by
  have hin := h.inQueue_of_head hqueue hi
  have hout := AccessPhase.of_inQueue hin
  cases hturn with
  | gone hconn => exact h.leave hqueue hi ⟨rfl, rfl, rfl⟩
  | refreshed hconn hphase => exact h.leave hqueue hi ⟨rfl, rfl, rfl⟩
  | failed hconn => exact h.leave hqueue hi ⟨rfl, rfl, rfl⟩
  | backedOff hconn => exact h.leave hqueue hi ⟨rfl, rfl, rfl⟩
  | began nowMs hconn hphase =>
      refine h.move hi rfl (fun j => ?_) (fun j => ?_) (fun j => ?_) (fun _ he => he)
        fun rows hrows => by cases hrows
      · simp [setPhase, hphase, AccessPhase.inQueue]
      · simp [setPhase, hphase, AccessPhase.isPending]
      · simp [setPhase, hphase, AccessPhase.returned]
  | performed nowMs hconn =>
      refine h.perform hi nowMs hout.2 rfl rfl (count_of_head hqueue hin) fun j => ?_
      simp [hout.1, ClosingStore.perform, setPhase]

theorem isPending_iff {phase : AccessPhase R} : phase.isPending = true ↔ phase = .pending := by
  cases phase <;> simp [AccessPhase.isPending]

/-- A write of the pending queue waits for the flusher. -/
theorem Books.pending_of_mem (h : s.Books) (hmem : i ∈ s.pending) :
    ∃ a, s.accesses[i]? = some a ∧ a.phase = .pending := by
  have hcount := h.pending i
  have hpos : 0 < s.pending.count i := List.count_pos_iff.mpr hmem
  cases ha : s.accesses[i]? with
  | none =>
      rw [phaseOf, ha] at hcount
      simp at hcount
      omega
  | some a =>
      refine ⟨a, rfl, isPending_iff.mp ?_⟩
      rw [phaseOf_of_getElem? ha, Option.any_some] at hcount
      by_contra hnot
      simp only [hnot, if_false] at hcount
      omega

/-- The answer of one write keeps the books. -/
theorem Books.settleNext (h : s.Books) {failure : AccessOutcome R}
    (hfailure : (AccessPhase.ended failure).returned = false) (result : Option Int) :
    (s.settleNext failure result).Books := by
  cases hpending : s.pending with
  | nil =>
      simp only [ClosingStore.settleNext, hpending]
      exact h
  | cons i rest =>
      rcases h.pending_of_mem (i := i) (by simp [hpending]) with ⟨a, hi, hphase⟩
      have hrest : ∀ j, rest.count j + (if j = i ∧ a.phase.isPending then 1 else 0) =
          s.pending.count j := by
        intro j
        rw [hpending]
        by_cases hji : j = i
        · simp [hji, hphase, AccessPhase.isPending]
        · simp [hji, Ne.symm hji]
      simp only [ClosingStore.settleNext, hpending, hi]
      cases result with
      | some nowMs =>
          have hopen : a.phase.returned = false := by rw [hphase]; rfl
          refine h.perform hi nowMs hopen rfl rfl (fun j => ?_) hrest
          simp [hphase, AccessPhase.inQueue, ClosingStore.perform, setPhase]
      | none =>
          refine h.move hi rfl (fun j => ?_) (fun j => ?_) (fun j => ?_) (fun _ he => he)
            fun rows hrows => ?_
          · simp [setPhase, hphase, AccessPhase.inQueue]
          · have hnew : (AccessPhase.ended failure).isPending = false := rfl
            simpa [hnew] using hrest j
          · have hold : a.phase.returned = false := by rw [hphase]; rfl
            simp [setPhase, hold, hfailure]
          · cases hrows
            cases hfailure

theorem Books.settle (h : s.Books) {failure : AccessOutcome R}
    (hfailure : (AccessPhase.ended failure).returned = false) (results : List (Option Int)) :
    (s.settle failure results).Books := by
  unfold ClosingStore.settle
  induction results generalizing s with
  | nil => exact h
  | cons result results ih => exact ih (h.settleNext hfailure result)

/-- A turn of the flusher: it answers some writes and goes on, it sleeps, or it gives up. -/
inductive Flushed (sdk : Sdk) (s : ClosingStore apply start) (rest : List Ticket) :
    TurnVerdict → ClosingStore apply start → Prop
  | gone (verdict : TurnVerdict) (hconn : s.conn = false) :
      Flushed sdk s rest verdict
        ((({ s with queue := rest } : ClosingStore apply start).strand .connectionGone).check sdk)
  | committed (results : List (Option Int)) (hconn : s.conn = true) (hsome : 0 < results.length)
      (hle : results.length ≤ s.pending.length) :
      Flushed sdk s rest (.commits results)
        ((({ s with queue := rest } : ClosingStore apply start).settle .sqlError results).afterFlush
          sdk)
  | backedOff (hconn : s.conn = true) :
      Flushed sdk s rest (.busy true) { s with queue := rest, flusher := .backoff }
  | stranded (hconn : s.conn = true) :
      Flushed sdk s rest (.busy false)
        ((({ s with queue := rest } : ClosingStore apply start).strand .sqlError).check sdk)

theorem flushed_of_turnFlush {rest : List Ticket} {verdict : TurnVerdict}
    (hturn : s.turnFlush sdk rest verdict = some s') : Flushed sdk s rest verdict s' := by
  unfold turnFlush at hturn
  split at hturn
  · rename_i hconn
    split at hturn
    · split at hturn
      · rename_i hlength
        cases hturn
        exact .committed _ hconn hlength.1 hlength.2
      · cases hturn
    · cases hturn
      exact .backedOff hconn
    · cases hturn
      exact .stranded hconn
    · cases hturn
  · rename_i hconn
    cases hturn
    exact .gone verdict (by simpa using hconn)

/-- A turn of the flusher keeps the books. -/
theorem Books.flushed (h : s.Books) {rest : List Ticket} (hqueue : s.queue = .flush :: rest)
    {verdict : TurnVerdict} (hturn : Flushed sdk s rest verdict s') : s'.Books := by
  have hleft : Books { s with queue := rest } :=
    h.congr rfl (fun i => by simp [hqueue]) rfl rfl
  cases hturn with
  | gone hconn => exact (hleft.settle rfl _).check
  | committed results hconn hsome hle => exact (hleft.settle rfl _).afterFlush
  | backedOff hconn => exact hleft.congr rfl (fun _ => rfl) rfl rfl
  | stranded hconn => exact (hleft.settle rfl _).check

/-- An operation in neither queue ends without rows. -/
theorem Books.moveFree (h : s.Books) (hi : s.accesses[i]? = some a) (hfree : a.phase.free = true)
    {phase : AccessPhase R} (hqueue : phase.inQueue = false) (hpending : phase.isPending = false)
    (hreturned : phase.returned = false) : (s.setPhase i a phase).Books := by
  rcases AccessPhase.of_free hfree with ⟨hq, hp, hr⟩
  refine h.move hi rfl (fun j => ?_) (fun j => ?_) (fun j => ?_) (fun _ he => he)
    fun rows hrows => ?_
  · simp [setPhase, hq, hqueue]
  · simp [setPhase, hp, hpending]
  · simp [setPhase, hr, hreturned]
  · rw [hrows] at hreturned
    cases hreturned

/-- An operation that comes to the check is in no queue and not in the log. -/
theorem Books.arrive (h : s.Books) (new : Access W R) (hqueue : new.phase.inQueue = false)
    (hpending : new.phase.isPending = false) (hreturned : new.phase.returned = false) :
    Books { s with accesses := s.accesses ++ [new] } := by
  have hphase : ∀ p : AccessPhase R → Bool, p new.phase = false → ∀ j,
      (((s.accesses ++ [new])[j]?).map Access.phase).any p = (s.phaseOf j).any p := by
    intro p hp j
    rw [phaseOf, List.getElem?_append]
    split
    · rfl
    · rename_i hle
      rw [List.getElem?_eq_none (Nat.le_of_not_lt hle), List.getElem?_singleton]
      split
      · simpa using hp
      · rfl
  refine ⟨fun j => ?_, fun j => ?_, fun j => ?_, fun j a rows hj ha => ?_⟩
  · rw [phaseOf, hphase _ hqueue]
    exact h.queue j
  · rw [phaseOf, hphase _ hpending]
    exact h.pending j
  · rw [phaseOf, hphase _ hreturned]
    exact h.log j
  · rcases cases_getElem?_concat hj with ⟨-, rfl⟩ | hold
    · rw [ha] at hreturned
      cases hreturned
    · exact h.rows j a rows hold ha

theorem Books.external (h : s.Books) (change : D → D) :
    Books { s with store := s.store.external change } where
  queue := h.queue
  pending := h.pending
  log i := by
    have hids : operationIds (s.store.external change).log = operationIds s.store.log := by
      simp [operationIds]
    rw [hids]
    exact h.log i
  rows i a rows hi ha := by
    rcases h.rows i a rows hi ha with ⟨nowMs, hmem⟩
    exact ⟨nowMs, List.mem_append_left _ hmem⟩

/-! ## What a step can do -/

/-- The store after a step. -/
inductive Moves (sdk : Sdk) (s : ClosingStore apply start) :
    CloseStep D W → ClosingStore apply start → Prop
  | refused (kind : AccessKind) (work : W) (due : Bool) (hclosing : s.closing = true) :
      Moves sdk s (.access kind work due)
        { s with accesses := s.accesses ++ [⟨kind, work, .ended .storeClosed⟩] }
  | arrived (kind : AccessKind) (work : W) (due : Bool) (hclosing : s.closing = false)
      (hconn : s.conn = true) :
      Moves sdk s (.access kind work due)
        (({ s with accesses := s.accesses ++ [⟨kind, work, .connecting⟩] } :
          ClosingStore apply start).pass sdk s.accesses.length ⟨kind, work, .connecting⟩ due)
  | connected (i : Nat) (a : Access W R) (due : Bool) (hi : s.accesses[i]? = some a)
      (hphase : a.phase = .connecting) (hconn : s.conn = true) :
      Moves sdk s (.connected i due) (s.pass sdk i a due)
  | turnedAway (i : Nat) (a : Access W R) (due : Bool) (hi : s.accesses[i]? = some a)
      (hphase : a.phase = .connecting) :
      Moves sdk s (.connected i due) (s.setPhase i a (.ended .storeClosed))
  | external (change : D → D) :
      Moves sdk s (.external change) { s with store := s.store.external change }
  | closeCalled (hclose : s.close = .uncalled) : Moves sdk s .close (s.startClose sdk)
  | closeBegan (hclose : s.close = .scheduled) : Moves sdk s .begin s.beginClose
  | closeWaits (hclose : s.close = .flushing true) : Moves sdk s .flushed s.lockClose
  | turned (i : Nat) (a : Access W R) (rest : List Ticket) (verdict : TurnVerdict)
      {s' : ClosingStore apply start} (hqueue : s.queue = .access i :: rest)
      (hi : s.accesses[i]? = some a) (hturn : s.Turned rest i a verdict s') :
      Moves sdk s (.turn verdict) s'
  | flushed (rest : List Ticket) (verdict : TurnVerdict) {s' : ClosingStore apply start}
      (hqueue : s.queue = .flush :: rest) (hturn : Flushed sdk s rest verdict s') :
      Moves sdk s (.turn verdict) s'
  | taken (rest : List Ticket) (verdict : TurnVerdict) (hqueue : s.queue = .close :: rest)
      (hclose : s.close = .locking) (hsdk : sdk = .python) :
      Moves sdk s (.turn verdict) { s with conn := false, close := .shutting }
  | released (rest : List Ticket) (verdict : TurnVerdict) (hqueue : s.queue = .close :: rest)
      (hclose : s.close = .locking) (hsdk : sdk = .node) :
      Moves sdk s (.turn verdict) { s with queue := rest, close := .released }
  | shut (rest : List Ticket) (hqueue : s.queue = .close :: rest) (hclose : s.close = .shutting) :
      Moves sdk s .shut { s with queue := rest, close := .done }
  | dropped (hclose : s.close = .released) :
      Moves sdk s .shut { s with conn := false, close := .done }
  | resumed (i : Nat) (a : Access W R) (hi : s.accesses[i]? = some a)
      (hphase : a.phase = .refreshed) : Moves sdk s (.resume i) (s.join sdk i a)
  | woken (i : Nat) (a : Access W R) (hi : s.accesses[i]? = some a) (hphase : a.phase = .backoff) :
      Moves sdk s (.wake i) ((s.setPhase i a .queued).enqueue (.access i))
  | checked (hflusher : s.flusher = .scheduled ∨ s.flusher = .settling) :
      Moves sdk s .check (s.check sdk)
  | cleared (hflusher : s.flusher = .drained) : Moves sdk s .clear s.finishFlusher
  | flusherWoken (hflusher : s.flusher = .backoff) : Moves sdk s .wakeFlusher s.queueFlusher

theorem moves_of_step {l : CloseStep D W} (hstep : closingStore sdk apply start s l = some s') :
    s.Moves sdk l s' := by
  cases l with
  | access kind work due =>
      simp only [closingStore] at hstep
      split at hstep
      · rename_i hclosing
        cases hstep
        exact .refused kind work due hclosing
      · rename_i hclosing
        split at hstep
        · rename_i hconn
          cases hstep
          exact .arrived kind work due (by simpa using hclosing) hconn
        · cases hstep
  | connected i due =>
      simp only [closingStore] at hstep
      split at hstep
      · rename_i a hi
        split at hstep
        · rename_i hphase
          split at hstep
          · rename_i hconn
            cases hstep
            exact .connected i a due hi hphase hconn
          · split at hstep
            · cases hstep
              exact .turnedAway i a due hi hphase
            · cases hstep
        · cases hstep
      · cases hstep
  | external change =>
      simp only [closingStore] at hstep
      split at hstep
      · cases hstep
      · cases hstep
        exact .external change
  | close =>
      simp only [closingStore] at hstep
      split at hstep
      · rename_i hclose
        cases hstep
        exact .closeCalled hclose
      · cases hstep
  | begin =>
      simp only [closingStore] at hstep
      split at hstep
      · rename_i hclose
        cases hstep
        exact .closeBegan hclose
      · cases hstep
  | flushed =>
      simp only [closingStore] at hstep
      split at hstep
      · rename_i hclose
        cases hstep
        exact .closeWaits hclose
      · cases hstep
  | turn verdict =>
      simp only [closingStore] at hstep
      split at hstep
      · rename_i i rest hqueue
        split at hstep
        · rename_i a hi
          exact .turned i a rest verdict hqueue hi (turned_of_turnAccess hstep)
        · cases hstep
      · rename_i rest hqueue
        exact .flushed rest verdict hqueue (flushed_of_turnFlush hstep)
      · rename_i rest hqueue
        unfold ClosingStore.turnClose at hstep
        split at hstep
        · rename_i hclose
          cases hstep
          exact .taken rest verdict hqueue hclose rfl
        · rename_i hclose
          cases hstep
          exact .released rest verdict hqueue hclose rfl
        · cases hstep
      · cases hstep
  | shut =>
      simp only [closingStore] at hstep
      split at hstep
      · rename_i rest hclose hqueue
        cases hstep
        exact .shut rest hqueue hclose
      · rename_i hclose
        cases hstep
        exact .dropped hclose
      · cases hstep
  | resume i =>
      simp only [closingStore] at hstep
      split at hstep
      · rename_i a hi
        split at hstep
        · rename_i hphase
          cases hstep
          exact .resumed i a hi hphase
        · cases hstep
      · cases hstep
  | wake i =>
      simp only [closingStore] at hstep
      split at hstep
      · rename_i a hi
        split at hstep
        · rename_i hphase
          cases hstep
          exact .woken i a hi hphase
        · cases hstep
      · cases hstep
  | check =>
      simp only [closingStore] at hstep
      split at hstep
      · rename_i hflusher
        cases hstep
        exact .checked (Or.inl hflusher)
      · rename_i hflusher
        cases hstep
        exact .checked (Or.inr hflusher)
      · cases hstep
  | clear =>
      simp only [closingStore] at hstep
      split at hstep
      · rename_i hflusher
        cases hstep
        exact .cleared hflusher
      · cases hstep
  | wakeFlusher =>
      simp only [closingStore] at hstep
      split at hstep
      · rename_i hflusher
        cases hstep
        exact .flusherWoken hflusher
      · cases hstep

/-- Every step keeps the books. -/
theorem Books.of_moves {l : CloseStep D W} (h : s.Books) (hmoves : s.Moves sdk l s') :
    s'.Books := by
  cases hmoves with
  | refused kind work due hclosing => exact h.arrive _ rfl rfl rfl
  | arrived kind work due hclosing hconn =>
      exact (h.arrive ⟨kind, work, .connecting⟩ rfl rfl rfl).pass (by simp) rfl due
  | connected i a due hi hphase hconn => exact h.pass hi (by rw [hphase]; rfl) due
  | turnedAway i a due hi hphase => exact h.moveFree hi (by rw [hphase]; rfl) rfl rfl rfl
  | external change => exact h.external change
  | closeCalled hclose => cases sdk <;> exact h.congr rfl (fun _ => rfl) rfl rfl
  | closeBegan hclose =>
      unfold ClosingStore.beginClose
      split
      · exact h.lockClose
      · exact h.congr rfl (fun _ => rfl) rfl rfl
  | closeWaits hclose => exact h.lockClose
  | turned i a rest verdict hqueue hi hturn => exact h.turned hqueue hi hturn
  | flushed rest verdict hqueue hturn => exact h.flushed hqueue hturn
  | taken rest verdict hqueue hclose hsdk => exact h.congr rfl (fun _ => rfl) rfl rfl
  | released rest verdict hqueue hclose hsdk =>
      exact h.congr rfl (fun i => by simp [hqueue]) rfl rfl
  | shut rest hqueue hclose => exact h.congr rfl (fun i => by simp [hqueue]) rfl rfl
  | dropped hclose => exact h.congr rfl (fun _ => rfl) rfl rfl
  | resumed i a hi hphase => exact h.join hi (by rw [hphase]; rfl)
  | woken i a hi hphase => exact h.enqueue hi (by rw [hphase]; rfl) rfl
  | checked hflusher => exact h.check
  | cleared hflusher => exact h.finishFlusher
  | flusherWoken hflusher => exact h.queueFlusher

theorem Books.opened (waiting : List (AccessKind × W)) :
    (ClosingStore.opened apply start waiting).Books := by
  have hphase : ∀ p : AccessPhase R → Bool, p .connecting = false → ∀ j,
      ((ClosingStore.opened apply start waiting).phaseOf j).any p = false := by
    intro p hp j
    rw [phaseOf, ClosingStore.opened, List.getElem?_map, Option.map_map]
    cases waiting[j]? with
    | none => rfl
    | some w => simpa using hp
  refine ⟨fun j => ?_, fun j => ?_, fun j => ?_, fun j a rows hj ha => ?_⟩
  · rw [hphase _ rfl]
    rfl
  · rw [hphase _ rfl]
    rfl
  · rw [hphase _ rfl]
    rfl
  · simp only [ClosingStore.opened, List.getElem?_map, Option.map_eq_some_iff] at hj
    rcases hj with ⟨w, -, rfl⟩
    cases ha

end ClosingStore

end CairnQ
