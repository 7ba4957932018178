import CairnQ.Protocol.Statements

/-!
# Executing a statement

A {lit}`Statement` carries the dialect-neutral parameters the SDKs pass; execution
resolves them against one reading of the clock, the way `SQLiteStore._bind` does
on SQLite and the statement text does on Postgres.  A double is the one the engine
reads: SQLite reads the null it makes of a NaN.

Main results:

- Theorem `sqlite_exec_eq`: with no other transaction open, the two dialects
  change the tables alike.
- Theorem `exec_eq`: so one executor, {lit}`Postgres.exec`, stands for both.
-/

namespace CairnQ

open Relational

variable {J : Type}

/-! ## Statements and replies -/

/-- Which of the four claim statements a draw uses, with its two filters. -/
inductive ClaimFilter
  | claim (queues : List String) (names : Option (List String))
  | claimOneName (queues : List String) (name : String)
  | claimOneQueue (queue : String) (names : Option (List String))
  | claimOneQueueOneName (queue name : String)
deriving DecidableEq, Repr

/-- The queue condition of a claim statement. -/
def ClaimFilter.queueOk : ClaimFilter → String → Bool
  | .claim queues _, q | .claimOneName queues _, q => decide (q ∈ queues)
  | .claimOneQueue queue _, q | .claimOneQueueOneName queue _, q => decide (q = queue)

/-- The name condition of a claim statement. -/
def ClaimFilter.nameOk : ClaimFilter → String → Bool
  | .claim _ names, n | .claimOneQueue _ names, n => nameIn names n
  | .claimOneName _ name, n | .claimOneQueueOneName _ name, n => decide (n = name)

/-- The ownership-checked writes of one task: everything a worker writes about a
delivery except the batched heartbeat. -/
inductive OwnedWrite (J : Type)
  | heartbeat (leaseMs : Int)
  | progress (progress : Option Double) (message : Option String)
  | complete (result : Option J)
  | succeed (result : Option J) (message : Option String)
  | fail (error : J) (retryable : Bool) (delayMs : Int)
deriving DecidableEq, Repr

/-- The protocol statements that change a table. -/
inductive Statement (J : Type)
  | insertTask (task : NewTask J)
  | claim (filter : ClaimFilter) (workerId : String) (leaseMs limit : Int)
  | recoverLeases (leaseExpiredError : J)
  | owned (id workerId : String) (write : OwnedWrite J)
  | heartbeatBatch (ids : List String) (workerId : String) (leaseMs : Int)
  | cancel (id : String)
  | retry (id : String) (resetAttempt : Bool)
  | purge (olderThanMs : Int) (queue : Option String) (status : Option TaskStatus)
      (name : Option String) (limit : Int)
  | upsertKey (key taskId : String)
deriving DecidableEq, Repr

/-- The constraints whose violation makes a statement fail. -/
inductive SqlError
  | primaryKey
  | foreignKey
deriving DecidableEq, Repr

/-- What a statement hands back. -/
inductive Reply (J : Type)
  | tasks (rows : List (Task J))
  | renewed (rows : List (String × Option Int))
  | ids (rows : List String)
  | done
  | error (e : SqlError)
deriving DecidableEq, Repr

/-- The rows a reply names: the row was returned, renewed or deleted. -/
def Reply.names : Reply J → String → Bool
  | .tasks rows, id => rows.any fun t => decide (t.id = id)
  | .renewed rows, id => rows.any fun r => decide (r.1 = id)
  | .ids rows, id => decide (id ∈ rows)
  | .done, _ | .error _, _ => false

/-- The task rows of a reply. -/
def Reply.rows : Reply J → List (Task J)
  | .tasks rows => rows
  | _ => []

/-- The ids of a purge's reply. -/
def Reply.deleted : Reply J → List String
  | .ids rows => rows
  | _ => []

/-- A statement that returns task rows. -/
def replyTasks (out : Database J × List (Task J)) : Database J × Reply J :=
  (out.1, .tasks out.2)

/-- A statement that can violate a constraint changes nothing when it does. -/
def replyOr (db : Database J) (e : SqlError) :
    Option (Database J × Reply J) → Database J × Reply J
  | some out => out
  | none => (db, .error e)

/-! ## Binding and execution -/

/-- `_bind`: a boolean crosses to SQLite as 0 or 1. -/
def Sqlite.bindBool (b : Bool) : Int :=
  if b then 1 else 0

@[simp]
theorem Sqlite.bindBool_eq_one (b : Bool) : decide (Sqlite.bindBool b = 1) = b := by
  cases b <;> rfl

/-- An ownership-checked write on SQLite, every absolute time bound from one clock reading. -/
def Sqlite.execOwned (nowMs : Int) (id workerId : String) :
    OwnedWrite J → Database J → Database J × List (Task J)
  | .heartbeat leaseMs => heartbeat id workerId nowMs (nowMs + leaseMs)
  | .progress value message => progress id workerId nowMs value message
  | .complete result => complete id workerId nowMs result
  | .succeed result message => succeed id workerId nowMs result message
  | .fail error retryable delayMs => fail id workerId nowMs error (bindBool retryable) delayMs

/-- A claim statement on SQLite. -/
def Sqlite.execClaim (nowMs : Int) (workerId : String) (leaseMs limit : Int) :
    ClaimFilter → Database J → Database J × List (Task J)
  | .claim queues names => claim queues names nowMs workerId (nowMs + leaseMs) limit
  | .claimOneName queues name => claimOneName queues name nowMs workerId (nowMs + leaseMs) limit
  | .claimOneQueue queue names => claimOneQueue queue names nowMs workerId (nowMs + leaseMs) limit
  | .claimOneQueueOneName queue name =>
      claimOneQueueOneName queue name nowMs workerId (nowMs + leaseMs) limit

/-- `_bind` and execute on SQLite. -/
def Sqlite.exec (nowMs : Int) (st : Statement J) (db : Database J) : Database J × Reply J :=
  match st with
  | .insertTask n =>
      replyOr db .primaryKey ((insertTask n (nowMs + n.delayMs) nowMs db).map replyTasks)
  | .claim filter workerId leaseMs limit =>
      replyTasks (execClaim nowMs workerId leaseMs limit filter db)
  | .recoverLeases error => replyTasks (recoverLeases nowMs error db)
  | .owned id workerId write => replyTasks (execOwned nowMs id workerId write db)
  | .heartbeatBatch ids workerId leaseMs =>
      let out := heartbeatBatch ids workerId nowMs (nowMs + leaseMs) db
      (out.1, .renewed out.2)
  | .cancel id => replyTasks (cancel id nowMs db)
  | .retry id resetAttempt => replyTasks (retry id nowMs (bindBool resetAttempt) db)
  | .purge olderThanMs queue status name limit =>
      let out := purge (nowMs - olderThanMs) queue status name limit db
      (out.1, .ids out.2)
  | .upsertKey key taskId =>
      replyOr db .foreignKey ((upsertKey key taskId nowMs db).map fun db' => (db', .done))

/-- An ownership-checked write on Postgres. -/
def Postgres.execOwned (clockMs : Int) (id workerId : String) :
    OwnedWrite J → Database J → Database J × List (Task J)
  | .heartbeat leaseMs => heartbeat clockMs id workerId leaseMs
  | .progress value message => progress clockMs id workerId value message
  | .complete result => complete clockMs id workerId result
  | .succeed result message => succeed clockMs id workerId result message
  | .fail error retryable delayMs => fail clockMs id workerId error retryable delayMs

/-- A claim statement on Postgres. -/
def Postgres.execClaim (locked : String → Bool) (clockMs : Int) (workerId : String)
    (leaseMs limit : Int) : ClaimFilter → Database J → Database J × List (Task J)
  | .claim queues names => claim locked clockMs queues names workerId leaseMs limit
  | .claimOneName queues name => claimOneName locked clockMs queues name workerId leaseMs limit
  | .claimOneQueue queue names => claimOneQueue locked clockMs queue names workerId leaseMs limit
  | .claimOneQueueOneName queue name =>
      claimOneQueueOneName locked clockMs queue name workerId leaseMs limit

/-- Execute on Postgres while other transactions hold the rows {lit}`locked`. -/
def Postgres.exec (locked : String → Bool) (clockMs : Int) (st : Statement J)
    (db : Database J) : Database J × Reply J :=
  match st with
  | .insertTask n => replyOr db .primaryKey ((insertTask clockMs n db).map replyTasks)
  | .claim filter workerId leaseMs limit =>
      replyTasks (execClaim locked clockMs workerId leaseMs limit filter db)
  | .recoverLeases error => replyTasks (recoverLeases locked clockMs error db)
  | .owned id workerId write => replyTasks (execOwned clockMs id workerId write db)
  | .heartbeatBatch ids workerId leaseMs =>
      let out := heartbeatBatch clockMs ids workerId leaseMs db
      (out.1, .renewed out.2)
  | .cancel id => replyTasks (cancel clockMs id db)
  | .retry id resetAttempt => replyTasks (retry clockMs id resetAttempt db)
  | .purge olderThanMs queue status name limit =>
      let out := purge locked clockMs olderThanMs queue status name limit db
      (out.1, .ids out.2)
  | .upsertKey key taskId =>
      replyOr db .foreignKey ((upsertKey clockMs key taskId db).map fun db' => (db', .done))

/-- No row is held by another transaction. -/
def unlocked (_ : String) : Bool := false

/-- The two implementations of the protocol. -/
inductive Sdk
  | python
  | node
deriving DecidableEq, Repr

/-- The SQL dialect a store speaks. -/
inductive Dialect
  | sqlite
  | postgres
deriving DecidableEq, Repr

/-- The rows that a statement of the dialect passes over when other transactions hold
{lit}`held`: SQLite has one writer and skips none. -/
def Dialect.locked (d : Dialect) (held : String → Bool) : String → Bool :=
  match d with
  | .sqlite => unlocked
  | .postgres => held

/-- Execute one statement while other transactions hold the rows {lit}`held`. -/
def exec (d : Dialect) (held : String → Bool) (nowMs : Int) (st : Statement J)
    (db : Database J) : Database J × Reply J :=
  match d with
  | .sqlite => Sqlite.exec nowMs st db
  | .postgres => Postgres.exec held nowMs st db

/-- With no other transaction open, the two dialects change the tables alike. -/
theorem sqlite_exec_eq (nowMs : Int) (st : Statement J) (db : Database J) :
    Sqlite.exec nowMs st db = Postgres.exec unlocked nowMs st db := by
  cases st with
  | claim filter workerId leaseMs limit =>
      cases filter <;>
        simp [Sqlite.exec, Postgres.exec, Sqlite.execClaim, Postgres.execClaim, Sqlite.claim,
          Sqlite.claimOneName, Sqlite.claimOneQueue, Sqlite.claimOneQueueOneName, Postgres.claim,
          Postgres.claimOneName, Postgres.claimOneQueue, Postgres.claimOneQueueOneName,
          joinClaim_eq, unlocked]
  | owned id workerId write =>
      cases write <;>
        simp [Sqlite.exec, Postgres.exec, Sqlite.execOwned, Postgres.execOwned, Sqlite.heartbeat,
          Postgres.heartbeat, Sqlite.progress, Postgres.progress, Sqlite.complete,
          Postgres.complete, Sqlite.succeed, Postgres.succeed, Sqlite.fail, Postgres.fail]
  | recoverLeases error =>
      simp [Sqlite.exec, Postgres.exec, Sqlite.recoverLeases, Postgres.recoverLeases,
        updateSelected_eq, unlocked]
  | retry id resetAttempt =>
      simp [Sqlite.exec, Postgres.exec, Sqlite.retry, Postgres.retry]
  | purge olderThanMs queue status name limit =>
      simp [Sqlite.exec, Postgres.exec, Sqlite.purge, Postgres.purge, unlocked]
  | insertTask n => rfl
  | heartbeatBatch ids workerId leaseMs => rfl
  | cancel id => rfl
  | upsertKey key taskId => rfl

/-- One executor stands for both dialects. -/
theorem exec_eq (d : Dialect) (held : String → Bool) (nowMs : Int) (st : Statement J)
    (db : Database J) : exec d held nowMs st db = Postgres.exec (d.locked held) nowMs st db := by
  cases d
  · exact sqlite_exec_eq nowMs st db
  · rfl

end CairnQ
