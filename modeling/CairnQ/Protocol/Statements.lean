import CairnQ.Protocol.Task

/-!
# Protocol statements

The statements of `sql/sqlite` and `sql/postgres` that change a table, one
definition per file.  The two dialects share their `where` conditions and `set`
lists word for word up to the clock, so each of those is written once; what a
dialect adds is where the time comes from and, on Postgres, `for update skip
locked`: a selecting subquery passes over the rows another transaction holds.  Postgres
needs that subquery where SQLite updates by the condition itself, and joins with it
where SQLite tests membership; ids are unique, so both shapes update the same rows.

SQL comparisons with null are never true, which is what {name}`Option.any` says.
-/

namespace CairnQ

open Relational

variable {J : Type}

/-! ## Conditions -/

/-- `status = 'queued' and <queue> and <name> and run_at_ms <= :now_ms`. -/
def claimable (queueOk nameOk : String → Bool) (nowMs : Int) (t : Task J) : Bool :=
  decide (t.status = .queued) && queueOk t.queue && nameOk t.name && decide (t.runAtMs ≤ nowMs)

/-- `order by priority desc, run_at_ms asc, id asc`. -/
def claimOrder (a b : Task J) : Prop :=
  b.priority < a.priority ∨
    (a.priority = b.priority ∧
      (a.runAtMs < b.runAtMs ∨ (a.runAtMs = b.runAtMs ∧ a.id ≤ b.id)))

instance : DecidableRel (claimOrder (J := J)) := fun _ _ =>
  inferInstanceAs (Decidable (_ ∨ _))

/-- `:names is null or name in (:names)`. -/
def nameIn (names : Option (List String)) (name : String) : Bool :=
  names.all fun ns => decide (name ∈ ns)

/-- `status = 'running' and lease_until_ms is not null and lease_until_ms <= :now_ms`. -/
def leaseExpired (nowMs : Int) (t : Task J) : Bool :=
  decide (t.status = .running) && t.leaseUntilMs.any fun u => decide (u ≤ nowMs)

/-- `status = 'running' and worker_id = :worker_id and lease_until_ms > :now_ms`: the
ownership check of every worker write. -/
def owned (workerId : String) (nowMs : Int) (t : Task J) : Bool :=
  decide (t.status = .running) && decide (t.workerId = some workerId) &&
    t.leaseUntilMs.any fun u => decide (nowMs < u)

/-- The condition of `purge.sql`; a null filter is skipped. -/
def purgeable (beforeMs : Int) (queue : Option String) (status : Option TaskStatus)
    (name : Option String) (t : Task J) : Bool :=
  t.status.isTerminal && queue.all (fun q => decide (t.queue = q)) &&
    status.all (fun s => decide (t.status = s)) && name.all (fun n => decide (t.name = n)) &&
    t.completedAtMs.any fun c => decide (c < beforeMs)

/-- `order by completed_at_ms asc`, on rows where the column is not null. -/
def completedOrder (a b : Task J) : Prop :=
  a.completedAtMs.getD 0 ≤ b.completedAtMs.getD 0

instance : DecidableRel (completedOrder (J := J)) := fun _ _ =>
  inferInstanceAs (Decidable (_ ≤ _))

/-! ## Assignments -/

/-- A `set` list: it never assigns the id. -/
abbrev SetList (J : Type) := RowUpdate (Task.id (J := J))

/-- The `set` list of `claim.sql` and its three specializations. -/
def setClaim (workerId : String) (leaseUntilMs nowMs : Int) : SetList J where
  set t :=
    { t with
      status := .running
      workerId := some workerId
      leaseUntilMs := some leaseUntilMs
      attempt := t.attempt + 1
      updatedAtMs := nowMs }
  key_set _ := rfl

/-- The requeue condition of `recover_leases.sql`:
`cancel_requested_at_ms is null and attempt < max_attempts`. -/
def recoverRequeues (t : Task J) : Bool :=
  t.cancelRequestedAtMs.isNone && decide (t.attempt < t.maxAttempts)

/-- The `set` list of `recover_leases.sql`. -/
def setRecover (leaseExpiredError : J) (nowMs : Int) : SetList J where
  set t :=
    { t with
      status :=
        if t.cancelRequestedAtMs.isSome then .canceled
        else if t.attempt < t.maxAttempts then .queued
        else .failed
      workerId := if recoverRequeues t then none else t.workerId
      leaseUntilMs := none
      runAtMs := if recoverRequeues t then nowMs else t.runAtMs
      error :=
        if t.cancelRequestedAtMs.isNone && decide (t.maxAttempts ≤ t.attempt) then
          some leaseExpiredError
        else t.error
      completedAtMs := if recoverRequeues t then t.completedAtMs else some nowMs
      progress := if recoverRequeues t then none else t.progress
      message := if recoverRequeues t then none else t.message
      updatedAtMs := nowMs }
  key_set _ := rfl

/-- The `set` list of `heartbeat.sql` and `heartbeat_batch.sql`. -/
def setHeartbeat (leaseUntilMs nowMs : Int) : SetList J where
  set t := { t with leaseUntilMs := some leaseUntilMs, updatedAtMs := nowMs }
  key_set _ := rfl

/-- The `set` list of `progress.sql`: null leaves a field alone. -/
def setProgress (progress : Option Double) (message : Option String) (nowMs : Int) : SetList J where
  set t :=
    { t with
      progress := progress <|> t.progress
      message := message <|> t.message
      updatedAtMs := nowMs }
  key_set _ := rfl

/-- The `set` list of `complete.sql`: a requested cancel wins over the result. -/
def setComplete (result : Option J) (nowMs : Int) : SetList J where
  set t :=
    { t with
      status := if t.cancelRequestedAtMs.isSome then .canceled else .succeeded
      result := if t.cancelRequestedAtMs.isSome then t.result else result
      progress := if t.cancelRequestedAtMs.isSome then t.progress else some (.finite 1)
      leaseUntilMs := none
      completedAtMs := some nowMs
      updatedAtMs := nowMs }
  key_set _ := rfl

/-- The `set` list of `succeed.sql`. -/
def setSucceed (result : Option J) (message : Option String) (nowMs : Int) : SetList J where
  set t :=
    { t with
      status := .succeeded
      result := result
      progress := some (.finite 1)
      message := message <|> t.message
      leaseUntilMs := none
      completedAtMs := some nowMs
      updatedAtMs := nowMs }
  key_set _ := rfl

/-- The requeue condition of `fail.sql`:
`cancel_requested_at_ms is null and :retryable and attempt < max_attempts`. -/
def failRequeues (retryable : Bool) (t : Task J) : Bool :=
  t.cancelRequestedAtMs.isNone && retryable && decide (t.attempt < t.maxAttempts)

/-- The `set` list of `fail.sql`. -/
def setFail (error : J) (retryable : Bool) (delayMs nowMs : Int) : SetList J where
  set t :=
    { t with
      status :=
        if t.cancelRequestedAtMs.isSome then .canceled
        else if retryable && decide (t.attempt < t.maxAttempts) then .queued
        else .failed
      error := some error
      workerId := if failRequeues retryable t then none else t.workerId
      leaseUntilMs := none
      runAtMs := if failRequeues retryable t then nowMs + delayMs else t.runAtMs
      completedAtMs := if failRequeues retryable t then none else some nowMs
      progress := if failRequeues retryable t then none else t.progress
      message := if failRequeues retryable t then none else t.message
      updatedAtMs := nowMs }
  key_set _ := rfl

/-- The `set` list of `cancel.sql`: a queued task ends, a running one is asked to. -/
def setCancel (nowMs : Int) : SetList J where
  set t :=
    { t with
      status := if t.status = .queued then .canceled else t.status
      cancelRequestedAtMs := if t.status = .running then some nowMs else t.cancelRequestedAtMs
      completedAtMs := if t.status = .queued then some nowMs else t.completedAtMs
      updatedAtMs := nowMs }
  key_set _ := rfl

/-- The `set` list of `retry.sql`. -/
def setRetry (resetAttempt : Bool) (nowMs : Int) : SetList J where
  set t :=
    { t with
      status := .queued
      error := none
      workerId := none
      leaseUntilMs := none
      runAtMs := nowMs
      cancelRequestedAtMs := none
      completedAtMs := none
      progress := none
      message := none
      attempt := if resetAttempt then 0 else t.attempt
      updatedAtMs := nowMs }
  key_set _ := rfl

/-! ## Statement shapes -/

/-- `update cairnq_tasks set u where p returning *`. -/
def updateReturning (p : Task J → Bool) (u : SetList J) (db : Database J) :
    Database J × List (Task J) :=
  (db.updateTasks p u, db.tasks.returning p u)

/-- `update ... where id in (select id ... order by ... limit :limit) returning *`: the
draw all claim statements make. -/
def drawClaim (eligible : Task J → Bool) (workerId : String) (leaseUntilMs nowMs limit : Int)
    (db : Database J) : Database J × List (Task J) :=
  let ids := db.tasks.selectKeys eligible claimOrder limit
  updateReturning (fun t => decide (t.id ∈ ids)) (setClaim workerId leaseUntilMs nowMs) db

/-- `update ... from (select id ... order by ... limit :limit) sel where t.id = sel.id
returning t.*`: the same draw, written as a join. -/
def joinClaim (eligible : Task J → Bool) (workerId : String) (leaseUntilMs nowMs limit : Int)
    (db : Database J) : Database J × List (Task J) :=
  let sel := db.tasks.selectKeys eligible claimOrder limit
  updateReturning (fun t => sel.any fun id => decide (t.id = id))
    (setClaim workerId leaseUntilMs nowMs) db

/-- `update ... where id in (select id ... where p) returning *`. -/
def updateSelected (p : Task J → Bool) (u : SetList J) (db : Database J) :
    Database J × List (Task J) :=
  let ids := (db.tasks.rows.filter p).map Task.id
  updateReturning (fun t => decide (t.id ∈ ids)) u db

/-- Conditions that agree on the stored rows make the same update. -/
theorem updateReturning_congr {p p' : Task J → Bool} {db : Database J}
    (h : ∀ t ∈ db.tasks.rows, p t = p' t) (u : SetList J) :
    updateReturning p u db = updateReturning p' u db := by
  have hrows : (db.tasks.rows.map fun t => if p t then u.set t else t) =
      db.tasks.rows.map fun t => if p' t then u.set t else t :=
    List.map_congr_left fun t ht => by rw [h t ht]
  have hreturned : db.tasks.rows.filter p = db.tasks.rows.filter p' := List.filter_congr h
  simp only [updateReturning, Database.updateTasks, KeyedTable.updateWhere, KeyedTable.returning,
    hrows, hreturned]

/-- A join on the id draws what a condition on the id draws. -/
theorem joinClaim_eq (eligible : Task J → Bool) (workerId : String)
    (leaseUntilMs nowMs limit : Int) (db : Database J) :
    joinClaim eligible workerId leaseUntilMs nowMs limit db =
      drawClaim eligible workerId leaseUntilMs nowMs limit db := by
  refine updateReturning_congr (fun t _ => ?_) _
  rw [Bool.eq_iff_iff]
  simp

/-- Ids are unique, so selecting them first updates the rows that meet the condition. -/
theorem updateSelected_eq (p : Task J → Bool) (u : SetList J) (db : Database J) :
    updateSelected p u db = updateReturning p u db := by
  refine updateReturning_congr (fun t ht => ?_) u
  rw [Bool.eq_iff_iff, decide_eq_true_eq, List.mem_map]
  constructor
  · rintro ⟨r, hr, hid⟩
    rw [List.mem_filter] at hr
    exact KeyedTable.row_unique hr.1 ht hid ▸ hr.2
  · intro hp
    exact ⟨t, List.mem_filter.mpr ⟨ht, hp⟩, rfl⟩

/-- An ownership-checked write of one task. -/
def ownedWrite (id workerId : String) (u : SetList J) (nowMs : Int) (db : Database J) :
    Database J × List (Task J) :=
  updateReturning (fun t => decide (t.id = id) && owned workerId nowMs t) u db

/-- `delete ... where id in (select id ... limit :limit) returning id`. -/
def deleteSelected (eligible : Task J → Bool) (limit : Int) (db : Database J) :
    Database J × List String :=
  let ids := db.tasks.selectKeys eligible completedOrder limit
  (db.deleteTasks fun t => decide (t.id ∈ ids),
    (db.tasks.rows.filter fun t => decide (t.id ∈ ids)).map Task.id)

/-- What a caller of `submit` fixes about a new task, the clock aside. -/
structure NewTask (J : Type) where
  id : String
  name : String
  queue : String
  payload : J
  metadata : J
  maxAttempts : Int
  priority : Int
  delayMs : Int
  parentId : Option String
  rootId : Option String
  correlationId : Option String
deriving DecidableEq, Repr

/-- The row `insert_task.sql` writes. -/
def NewTask.row (n : NewTask J) (runAtMs nowMs : Int) : Task J where
  id := n.id
  name := n.name
  queue := n.queue
  status := .queued
  payload := n.payload
  result := none
  error := none
  metadata := n.metadata
  progress := none
  message := none
  attempt := 0
  maxAttempts := n.maxAttempts
  priority := n.priority
  workerId := none
  leaseUntilMs := none
  runAtMs := runAtMs
  cancelRequestedAtMs := none
  parentId := n.parentId
  rootId := n.rootId
  correlationId := n.correlationId
  createdAtMs := nowMs
  updatedAtMs := nowMs
  completedAtMs := none

/-! ## SQLite -/

namespace Sqlite

/-- `sqlite/insert_task.sql`. -/
def insertTask (n : NewTask J) (runAtMs nowMs : Int) (db : Database J) :
    Option (Database J × List (Task J)) :=
  (db.insertTask? (n.row runAtMs nowMs)).map fun db' => (db', [n.row runAtMs nowMs])

/-- `sqlite/claim.sql`. -/
def claim (queues : List String) (names : Option (List String)) (nowMs : Int)
    (workerId : String) (leaseUntilMs limit : Int) :
    Database J → Database J × List (Task J) :=
  drawClaim (claimable (fun q => decide (q ∈ queues)) (nameIn names) nowMs)
    workerId leaseUntilMs nowMs limit

/-- `sqlite/claim_one_name.sql`. -/
def claimOneName (queues : List String) (name : String) (nowMs : Int)
    (workerId : String) (leaseUntilMs limit : Int) :
    Database J → Database J × List (Task J) :=
  drawClaim (claimable (fun q => decide (q ∈ queues)) (fun n => decide (n = name)) nowMs)
    workerId leaseUntilMs nowMs limit

/-- `sqlite/claim_one_queue.sql`. -/
def claimOneQueue (queue : String) (names : Option (List String)) (nowMs : Int)
    (workerId : String) (leaseUntilMs limit : Int) :
    Database J → Database J × List (Task J) :=
  drawClaim (claimable (fun q => decide (q = queue)) (nameIn names) nowMs)
    workerId leaseUntilMs nowMs limit

/-- `sqlite/claim_one_queue_one_name.sql`. -/
def claimOneQueueOneName (queue name : String) (nowMs : Int)
    (workerId : String) (leaseUntilMs limit : Int) :
    Database J → Database J × List (Task J) :=
  drawClaim (claimable (fun q => decide (q = queue)) (fun n => decide (n = name)) nowMs)
    workerId leaseUntilMs nowMs limit

/-- `sqlite/recover_leases.sql`. -/
def recoverLeases (nowMs : Int) (leaseExpiredError : J) :
    Database J → Database J × List (Task J) :=
  updateReturning (leaseExpired nowMs) (setRecover leaseExpiredError nowMs)

/-- `sqlite/heartbeat.sql`. -/
def heartbeat (id workerId : String) (nowMs leaseUntilMs : Int) :
    Database J → Database J × List (Task J) :=
  ownedWrite id workerId (setHeartbeat leaseUntilMs nowMs) nowMs

/-- `sqlite/heartbeat_batch.sql`, which returns two columns of each renewed row. -/
def heartbeatBatch (ids : List String) (workerId : String) (nowMs leaseUntilMs : Int)
    (db : Database J) : Database J × List (String × Option Int) :=
  let out := updateReturning (fun t => decide (t.id ∈ ids) && owned workerId nowMs t)
    (setHeartbeat leaseUntilMs nowMs) db
  (out.1, out.2.map fun t => (t.id, t.cancelRequestedAtMs))

/-- `sqlite/progress.sql`. -/
def progress (id workerId : String) (nowMs : Int) (progress : Option Double)
    (message : Option String) : Database J → Database J × List (Task J) :=
  ownedWrite id workerId (setProgress progress message nowMs) nowMs

/-- `sqlite/complete.sql`. -/
def complete (id workerId : String) (nowMs : Int) (result : Option J) :
    Database J → Database J × List (Task J) :=
  ownedWrite id workerId (setComplete result nowMs) nowMs

/-- `sqlite/succeed.sql`. -/
def succeed (id workerId : String) (nowMs : Int) (result : Option J)
    (message : Option String) : Database J → Database J × List (Task J) :=
  ownedWrite id workerId (setSucceed result message nowMs) nowMs

/-- `sqlite/fail.sql`; `:retryable` is 0 or 1. -/
def fail (id workerId : String) (nowMs : Int) (error : J) (retryable delayMs : Int) :
    Database J → Database J × List (Task J) :=
  ownedWrite id workerId (setFail error (decide (retryable = 1)) delayMs nowMs) nowMs

/-- `sqlite/cancel.sql`. -/
def cancel (id : String) (nowMs : Int) : Database J → Database J × List (Task J) :=
  updateReturning
    (fun t => decide (t.id = id) && decide (t.status = .queued ∨ t.status = .running))
    (setCancel nowMs)

/-- `sqlite/retry.sql`; `:reset_attempt` is 0 or 1. -/
def retry (id : String) (nowMs resetAttempt : Int) :
    Database J → Database J × List (Task J) :=
  updateReturning
    (fun t => decide (t.id = id) && decide (t.status = .failed ∨ t.status = .canceled))
    (setRetry (decide (resetAttempt = 1)) nowMs)

/-- `sqlite/purge.sql`. -/
def purge (beforeMs : Int) (queue : Option String) (status : Option TaskStatus)
    (name : Option String) (limit : Int) : Database J → Database J × List String :=
  deleteSelected (purgeable beforeMs queue status name) limit

/-- `sqlite/upsert_key.sql`. -/
def upsertKey (key taskId : String) (nowMs : Int) (db : Database J) : Option (Database J) :=
  db.upsertKey? key taskId nowMs

end Sqlite

/-! ## Postgres

{lit}`clockMs` is the one reading of the database clock a statement makes and
{lit}`locked` says which rows another open transaction holds. -/

namespace Postgres

/-- `postgres/insert_task.sql`. -/
def insertTask (clockMs : Int) (n : NewTask J) (db : Database J) :
    Option (Database J × List (Task J)) :=
  (db.insertTask? (n.row (clockMs + n.delayMs) clockMs)).map fun db' =>
    (db', [n.row (clockMs + n.delayMs) clockMs])

/-- `postgres/claim.sql`. -/
def claim (locked : String → Bool) (clockMs : Int) (queues : List String)
    (names : Option (List String)) (workerId : String) (leaseMs limit : Int) :
    Database J → Database J × List (Task J) :=
  joinClaim
    (fun t => claimable (fun q => decide (q ∈ queues)) (nameIn names) clockMs t && !locked t.id)
    workerId (clockMs + leaseMs) clockMs limit

/-- `postgres/claim_one_name.sql`. -/
def claimOneName (locked : String → Bool) (clockMs : Int) (queues : List String)
    (name workerId : String) (leaseMs limit : Int) :
    Database J → Database J × List (Task J) :=
  joinClaim
    (fun t => claimable (fun q => decide (q ∈ queues)) (fun n => decide (n = name)) clockMs t &&
      !locked t.id)
    workerId (clockMs + leaseMs) clockMs limit

/-- `postgres/claim_one_queue.sql`. -/
def claimOneQueue (locked : String → Bool) (clockMs : Int) (queue : String)
    (names : Option (List String)) (workerId : String) (leaseMs limit : Int) :
    Database J → Database J × List (Task J) :=
  joinClaim
    (fun t => claimable (fun q => decide (q = queue)) (nameIn names) clockMs t && !locked t.id)
    workerId (clockMs + leaseMs) clockMs limit

/-- `postgres/claim_one_queue_one_name.sql`. -/
def claimOneQueueOneName (locked : String → Bool) (clockMs : Int) (queue name : String)
    (workerId : String) (leaseMs limit : Int) :
    Database J → Database J × List (Task J) :=
  joinClaim
    (fun t => claimable (fun q => decide (q = queue)) (fun n => decide (n = name)) clockMs t &&
      !locked t.id)
    workerId (clockMs + leaseMs) clockMs limit

/-- `postgres/recover_leases.sql`. -/
def recoverLeases (locked : String → Bool) (clockMs : Int) (leaseExpiredError : J) :
    Database J → Database J × List (Task J) :=
  updateSelected (fun t => leaseExpired clockMs t && !locked t.id)
    (setRecover leaseExpiredError clockMs)

/-- `postgres/heartbeat.sql`. -/
def heartbeat (clockMs : Int) (id workerId : String) (leaseMs : Int) :
    Database J → Database J × List (Task J) :=
  ownedWrite id workerId (setHeartbeat (clockMs + leaseMs) clockMs) clockMs

/-- `postgres/heartbeat_batch.sql`. -/
def heartbeatBatch (clockMs : Int) (ids : List String) (workerId : String) (leaseMs : Int)
    (db : Database J) : Database J × List (String × Option Int) :=
  let out := updateReturning (fun t => decide (t.id ∈ ids) && owned workerId clockMs t)
    (setHeartbeat (clockMs + leaseMs) clockMs) db
  (out.1, out.2.map fun t => (t.id, t.cancelRequestedAtMs))

/-- `postgres/progress.sql`. -/
def progress (clockMs : Int) (id workerId : String) (progress : Option Double)
    (message : Option String) : Database J → Database J × List (Task J) :=
  ownedWrite id workerId (setProgress progress message clockMs) clockMs

/-- `postgres/complete.sql`. -/
def complete (clockMs : Int) (id workerId : String) (result : Option J) :
    Database J → Database J × List (Task J) :=
  ownedWrite id workerId (setComplete result clockMs) clockMs

/-- `postgres/succeed.sql`. -/
def succeed (clockMs : Int) (id workerId : String) (result : Option J)
    (message : Option String) : Database J → Database J × List (Task J) :=
  ownedWrite id workerId (setSucceed result message clockMs) clockMs

/-- `postgres/fail.sql`; `:retryable` is a native boolean. -/
def fail (clockMs : Int) (id workerId : String) (error : J) (retryable : Bool)
    (delayMs : Int) : Database J → Database J × List (Task J) :=
  ownedWrite id workerId (setFail error retryable delayMs clockMs) clockMs

/-- `postgres/cancel.sql`. -/
def cancel (clockMs : Int) (id : String) : Database J → Database J × List (Task J) :=
  updateReturning
    (fun t => decide (t.id = id) && decide (t.status = .queued ∨ t.status = .running))
    (setCancel clockMs)

/-- `postgres/retry.sql`; `:reset_attempt` is a native boolean. -/
def retry (clockMs : Int) (id : String) (resetAttempt : Bool) :
    Database J → Database J × List (Task J) :=
  updateReturning
    (fun t => decide (t.id = id) && decide (t.status = .failed ∨ t.status = .canceled))
    (setRetry resetAttempt clockMs)

/-- `postgres/purge.sql`. -/
def purge (locked : String → Bool) (clockMs olderThanMs : Int) (queue : Option String)
    (status : Option TaskStatus) (name : Option String) (limit : Int) :
    Database J → Database J × List String :=
  deleteSelected
    (fun t => purgeable (clockMs - olderThanMs) queue status name t && !locked t.id) limit

/-- `postgres/upsert_key.sql`. -/
def upsertKey (clockMs : Int) (key taskId : String) (db : Database J) : Option (Database J) :=
  db.upsertKey? key taskId clockMs

end Postgres

end CairnQ
