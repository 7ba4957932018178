import CairnQ.SqliteStore.Flush

/-!
# The shared connection of the Python store

Every operation of a Python store goes through one connection.  A lock serializes the
operations, and a thread executes the statements handed to the connection in the order
of submission.  A caller that is cancelled at an await leaves its statement with the
thread; what it does about the lock and about an open transaction depends on where the
cancellation lands.

The operations are transactions, group commits and single statements, with any number of
each at any time.  The body of a transaction is arbitrary: it issues statements one after
the other, and may end, raise, or handle an error itself at any point.  A statement is
one hand-over to the thread, from its execution to its last row.

Main results:

- Definition `sharing`: the store, its lock and its connection as a machine.
- Theorem `execute_cases`: what the thread does with one statement.
-/

namespace CairnQ

open Transition

section

variable {D W R : Type}

/-! ## The connection -/

/-- A statement handed to the connection. -/
inductive Command (W : Type)
  | begin
  | run (id : Nat) (write : W)
  | commit
  | rollback

/-- What the connection answers. -/
inductive Answer (R : Type)
  | rows (rows : R)
  | done
  | error (e : SqliteError)

/-- A statement in the queue of the thread, with the operation that submitted it; it is
abandoned when nobody awaits its answer any more. -/
structure Submitted (W : Type) where
  op : Nat
  command : Command W
  abandoned : Bool

/-- How the statement at the head of the queue turns out; an error leaves a transaction open or
not. -/
inductive Verdict
  | succeeds (nowMs : Int)
  | fails (e : SqliteError) (inTransaction : Bool)

/-- The connection and its thread: the queue, the open transaction with the operation that opened
it and the state it sees, and the committed state. -/
structure Connection (apply : Int → W → D → D × R) (start : D) where
  queue : List (Submitted W)
  tx : Option (Nat × History apply start)
  store : History apply start

variable {apply : Int → W → D → D × R} {start : D}

namespace Connection

/-- The operation whose transaction is open. -/
def openedBy (c : Connection apply start) : Option Nat :=
  c.tx.map Prod.fst

/-- The thread executes one statement: what it answers, and the transaction and the committed state
afterwards.  A transaction inside a transaction, and a commit without one, cannot succeed. -/
def executed (c : Connection apply start) (st : Submitted W) :
    Verdict → Option (Answer R × Option (Nat × History apply start) × History apply start)
  | .succeeds nowMs =>
      match st.command, c.tx with
      | .begin, none => some (.done, some (st.op, c.store), c.store)
      | .begin, some _ => none
      | .run id write, some (j, working) =>
          some (.rows (working.answer write nowMs), some (j, working.perform id write nowMs),
            c.store)
      | .run id write, none =>
          some (.rows (c.store.answer write nowMs), none, c.store.perform id write nowMs)
      | .commit, some (_, working) => some (.done, none, working)
      | .commit, none => none
      | .rollback, _ => some (.done, none, c.store)
  | .fails e inTransaction =>
      match st.command with
      | .begin => some (.error e, c.tx, c.store)
      | .rollback => some (.error e, none, c.store)
      | _ => some (.error e, if inTransaction then c.tx else none, c.store)

end Connection

/-! ## The operations -/

/-- The operations of the store: a single statement under `_with_lock` (a read, or the lone write of a
flush), a transaction, and the group commit of a batch. -/
inductive OperationKind (W : Type)
  | single (write : W)
  | transaction
  | flush

/-- Where an operation is: waiting for the lock or backing off, in its body, at a statement, or
over, with its rows handed to the caller or not. -/
inductive Stage (W R : Type)
  | waiting
  | body
  | awaiting (command : Command W) (answer : Option (Answer R))
  | finished (succeeded : Bool)

/-- An operation, the rows it has received, and the error it rolls back for. -/
structure Operation (W R : Type) where
  kind : OperationKind W
  stage : Stage W R
  received : List (Nat × R)
  failure : Option SqliteError

/-- The store: its operations in the order of the calls, the holder of its lock, its connection,
and the number of the next statement. -/
structure StoreState (apply : Int → W → D → D × R) (start : D) where
  operations : List (Operation W R)
  holder : Option Nat
  conn : Connection apply start
  nextId : Nat

/-- Steps of the store.  A resumed operation goes on after an error when there is busy budget
left, or when the body of the transaction handles the error itself; a cancellation may be
handled by the body too.  The body of a group commit is treated as that of a transaction: the
runs include some in which it raises, which it never does. -/
inductive StoreStep (D W : Type)
  | call (kind : OperationKind W)
  | external (change : D → D)
  | execute (verdict : Verdict)
  | acquire (i : Nat)
  | issue (i : Nat) (write : W)
  | leave (i : Nat)
  | raise (i : Nat)
  | resume (i : Nat) (goesOn : Bool)
  | cancel (i : Nat) (handled : Bool)

/-- The answer of the awaited statement arrives. -/
def Operation.deliver (op : Operation W R) (answer : Answer R) : Operation W R :=
  match op.stage with
  | .awaiting command none => { op with stage := .awaiting command (some answer) }
  | _ => op

/-- The future of a statement is cancelled. -/
def Submitted.abandon (i : Nat) (st : Submitted W) : Submitted W :=
  if st.op = i then { st with abandoned := true } else st

namespace StoreState

/-- A store that was just opened. -/
def fresh (apply : Int → W → D → D × R) (start : D) : StoreState apply start where
  operations := []
  holder := none
  conn := { queue := [], tx := none, store := .empty }
  nextId := 0

variable (s : StoreState apply start)

/-- The operation hands a statement to the connection and awaits it. -/
def submit (i : Nat) (op : Operation W R) (command : Command W) : StoreState apply start :=
  { s with
    operations := s.operations.set i { op with stage := .awaiting command none }
    conn := { s.conn with queue := s.conn.queue ++ [⟨i, command, false⟩] } }

/-- The operation issues a statement of its own. -/
def submitRun (i : Nat) (op : Operation W R) (write : W) : StoreState apply start :=
  { s with nextId := s.nextId + 1 }.submit i op (.run s.nextId write)

/-- The operation goes on in its body. -/
def enterBody (i : Nat) (op : Operation W R) : StoreState apply start :=
  { s with operations := s.operations.set i { op with stage := .body } }

/-- The operation releases the lock and is over. -/
def finish (i : Nat) (op : Operation W R) (succeeded : Bool) : StoreState apply start :=
  { s with
    operations := s.operations.set i { op with stage := .finished succeeded }
    holder := none }

/-- The operation releases the lock and backs off. -/
def backOff (i : Nat) (op : Operation W R) : StoreState apply start :=
  { s with
    operations := s.operations.set i { op with stage := .waiting, received := [] }
    holder := none }

/-- `_busy_backoff`: the lock is released, and the error is retried when it is a lost write lock and
there is budget left. -/
def retryOrRaise (i : Nat) (op : Operation W R) (e : SqliteError) (goesOn : Bool) :
    StoreState apply start :=
  if Sdk.python.isBusy e && goesOn then s.backOff i op else s.finish i op false

/-- Nobody awaits the statements of the operation any more. -/
def abandon (i : Nat) : StoreState apply start :=
  { s with conn := { s.conn with queue := s.conn.queue.map (Submitted.abandon i) } }

/-- `self._conn.in_transaction`. -/
def inTransaction : Bool :=
  s.conn.tx.isSome

/-- The lock is acquired: `_begin` and `_flush` open a transaction, `_run` needs none. -/
def acquire (i : Nat) : Option (StoreState apply start) :=
  match s.holder, s.operations[i]? with
  | none, some op =>
      match op.stage with
      | .waiting =>
          let held := { s with holder := some i }
          match op.kind with
          | .single write => some (held.submitRun i op write)
          | _ => some (held.submit i op .begin)
      | _ => none
  | _, _ => none

/-- A step of the body of a transaction or of a group commit. -/
def inBody (i : Nat) (step : Operation W R → StoreState apply start) :
    Option (StoreState apply start) :=
  match s.operations[i]? with
  | some op =>
      match op.stage with
      | .body => some (step op)
      | _ => none
  | none => none

/-- The body of a transaction raises: `_transaction` rolls back. -/
def raise (i : Nat) (op : Operation W R) : StoreState apply start :=
  s.submit i { op with failure := none } .rollback

/-- After `BEGIN IMMEDIATE`. -/
def afterBegin (i : Nat) (op : Operation W R) (goesOn : Bool) : Answer R → StoreState apply start
  | .error e =>
      match op.kind with
      | .flush =>
          if s.inTransaction then s.submit i { op with failure := some e } .rollback
          else s.retryOrRaise i op e goesOn
      | _ => s.retryOrRaise i op e goesOn
  | _ => s.enterBody i op

/-- After a statement of the operation. -/
def afterRun (i : Nat) (op : Operation W R) (id : Nat) (goesOn : Bool) :
    Answer R → StoreState apply start
  | .rows rows =>
      let op := { op with received := op.received ++ [(id, rows)] }
      match op.kind with
      | .single _ => s.finish i op true
      | _ => s.enterBody i op
  | .error e =>
      match op.kind with
      | .single _ => s.retryOrRaise i op e goesOn
      | .transaction => if goesOn then s.enterBody i op else s.raise i op
      | .flush => if s.inTransaction then s.enterBody i op else s.retryOrRaise i op e goesOn
  | .done => s

/-- After `COMMIT`. -/
def afterCommit (i : Nat) (op : Operation W R) (goesOn : Bool) : Answer R → StoreState apply start
  | .error e =>
      match op.kind with
      | .flush =>
          if s.inTransaction then s.submit i { op with failure := some e } .rollback
          else s.retryOrRaise i op e goesOn
      | _ => s.raise i op
  | _ => s.finish i op true

/-- After `ROLLBACK`, whatever its answer: the error that led to it is raised, and a group commit may
be retried. -/
def afterRollback (i : Nat) (op : Operation W R) (goesOn : Bool) : StoreState apply start :=
  match op.failure with
  | some e => s.retryOrRaise i op e goesOn
  | none => s.finish i op false

/-- The operation goes on with the answer it awaited. -/
def resume (i : Nat) (goesOn : Bool) : Option (StoreState apply start) :=
  match s.operations[i]? with
  | some op =>
      match op.stage with
      | .awaiting command (some answer) =>
          match command with
          | .begin => some (s.afterBegin i op goesOn answer)
          | .run id _ => some (s.afterRun i op id goesOn answer)
          | .commit => some (s.afterCommit i op goesOn answer)
          | .rollback => some (s.afterRollback i op goesOn)
      | _ => none
  | none => none

/-- The caller is cancelled at an await of the connection.  At its {lit}`BEGIN` it releases the lock; a
single statement too; at a later statement and at the {lit}`COMMIT` a transaction is rolled back,
unless its body handles the cancellation; at the shielded {lit}`ROLLBACK` the lock is released with
the statement submitted. -/
def afterCancel (i : Nat) (op : Operation W R) (handled : Bool) : Command W → StoreState apply start
  | .begin => s.finish i op false
  | .run _ _ =>
      match op.kind with
      | .single _ => s.finish i op false
      | _ => if handled then s.enterBody i op else s.raise i op
  | .commit => s.raise i op
  | .rollback => s.finish i op false

/-- The caller is cancelled where it is. -/
def cancelCaller (i : Nat) (op : Operation W R) (handled : Bool) : Option (StoreState apply start) :=
  match op.stage with
  | .waiting =>
      some { s with operations := s.operations.set i { op with stage := .finished false } }
  | .body => some (s.raise i op)
  | .awaiting command _ => some ((s.abandon i).afterCancel i op handled command)
  | .finished _ => none

/-- Callers are cancelled at any await; the flusher is a task of the store, which nobody cancels. -/
def cancel (i : Nat) (handled : Bool) : Option (StoreState apply start) :=
  match s.operations[i]? with
  | some op =>
      match op.kind with
      | .flush => none
      | _ => s.cancelCaller i op handled
  | none => none

/-- The thread executes the statement at the head of its queue and delivers the answer, unless the
future is cancelled. -/
def execute (verdict : Verdict) : Option (StoreState apply start) :=
  match s.conn.queue with
  | [] => none
  | st :: rest =>
      (s.conn.executed st verdict).map fun result =>
        { s with
          operations :=
            if st.abandoned then s.operations
            else s.operations.modify st.op fun op => op.deliver result.1
          conn := { queue := rest, tx := result.2.1, store := result.2.2 } }

end StoreState

/-- The store, its lock and its connection. -/
def sharing (apply : Int → W → D → D × R) (start : D) :
    Machine (StoreState apply start) (StoreStep D W)
  | s, .call kind =>
      some { s with operations := s.operations ++ [⟨kind, .waiting, [], none⟩] }
  | s, .external change =>
      if s.inTransaction then none
      else some { s with conn := { s.conn with store := s.conn.store.external change } }
  | s, .execute verdict => s.execute verdict
  | s, .acquire i => s.acquire i
  | s, .issue i write => s.inBody i fun op => s.submitRun i op write
  | s, .leave i => s.inBody i fun op => s.submit i op .commit
  | s, .raise i => s.inBody i fun op => s.raise i op
  | s, .resume i goesOn => s.resume i goesOn
  | s, .cancel i handled => s.cancel i handled

end

end CairnQ
