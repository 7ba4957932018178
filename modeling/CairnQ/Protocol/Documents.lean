import CairnQ.Protocol.Runs
import CairnQ.Relational.Relabel

/-!
# Other documents

No statement looks inside a document.  A map of documents carries rows, statements, replies and
databases over to those with the images in place of the documents, and executing a statement
commutes with it: the store that holds texts and the one that holds the values they stand for
run side by side.

Main results:

- Theorem `Statement.exists_joint`: a statement whose documents are all accepted is one side of a
  statement that has what became of them on the other.
- Theorem `exec_mapDocuments`: a statement with other documents does the same to the database with
  other documents, and replies the same but for them.
- Theorem `protocol_mapDocuments`: so does a step of the protocol.
-/

namespace CairnQ

open Relational Transition

variable {J K : Type}

/-! ## Rows, statements and replies -/

/-- The row with other documents. -/
def Task.mapDocuments (f : J → K) (t : Task J) : Task K :=
  { t with
    payload := f t.payload
    result := t.result.map f
    error := t.error.map f
    metadata := f t.metadata }

def NewTask.mapDocuments (f : J → K) (n : NewTask J) : NewTask K :=
  { n with payload := f n.payload, metadata := f n.metadata }

def OwnedWrite.mapDocuments (f : J → K) : OwnedWrite J → OwnedWrite K
  | .heartbeat leaseMs => .heartbeat leaseMs
  | .progress value message => .progress value message
  | .complete result => .complete (result.map f)
  | .succeed result message => .succeed (result.map f) message
  | .fail error retryable delayMs => .fail (f error) retryable delayMs

def Statement.mapDocuments (f : J → K) : Statement J → Statement K
  | .insertTask n => .insertTask (n.mapDocuments f)
  | .claim filter workerId leaseMs limit => .claim filter workerId leaseMs limit
  | .recoverLeases error => .recoverLeases (f error)
  | .owned id workerId write => .owned id workerId (write.mapDocuments f)
  | .heartbeatBatch ids workerId leaseMs => .heartbeatBatch ids workerId leaseMs
  | .cancel id => .cancel id
  | .retry id resetAttempt => .retry id resetAttempt
  | .purge olderThanMs queue status name limit => .purge olderThanMs queue status name limit
  | .upsertKey key taskId => .upsertKey key taskId

def Reply.mapDocuments (f : J → K) : Reply J → Reply K
  | .tasks rows => .tasks (rows.map (Task.mapDocuments f))
  | .renewed rows => .renewed rows
  | .ids rows => .ids rows
  | .done => .done
  | .error e => .error e

theorem Statement.mapDocuments_mapDocuments {L : Type} (f : J → K) (g : K → L)
    (st : Statement J) : (st.mapDocuments f).mapDocuments g = st.mapDocuments (g ∘ f) := by
  cases st with
  | owned id workerId write =>
      cases write <;> simp [Statement.mapDocuments, OwnedWrite.mapDocuments]
  | _ => rfl

/-! ## Documents that may be refused -/

section Bind

variable {L : Type} {f : J → Option K}

/-- A value for a column that may be null. -/
def bindNullable (f : J → Option K) : Option J → Option (Option K)
  | none => some none
  | some v => (f v).map some

def OwnedWrite.bindDocuments (f : J → Option K) : OwnedWrite J → Option (OwnedWrite K)
  | .heartbeat leaseMs => some (.heartbeat leaseMs)
  | .progress value message => some (.progress value message)
  | .complete result => (bindNullable f result).map .complete
  | .succeed result message => (bindNullable f result).map fun result => .succeed result message
  | .fail error retryable delayMs => (f error).map fun error => .fail error retryable delayMs

/-- The statement with other documents, if none is refused. -/
def Statement.bindDocuments (f : J → Option K) : Statement J → Option (Statement K)
  | .insertTask n =>
      (f n.payload).bind fun payload =>
        (f n.metadata).map fun metadata =>
          .insertTask { n with payload := payload, metadata := metadata }
  | .claim filter workerId leaseMs limit => some (.claim filter workerId leaseMs limit)
  | .recoverLeases error => (f error).map .recoverLeases
  | .owned id workerId write => (write.bindDocuments f).map (.owned id workerId)
  | .heartbeatBatch ids workerId leaseMs => some (.heartbeatBatch ids workerId leaseMs)
  | .cancel id => some (.cancel id)
  | .retry id resetAttempt => some (.retry id resetAttempt)
  | .purge olderThanMs queue status name limit => some (.purge olderThanMs queue status name limit)
  | .upsertKey key taskId => some (.upsertKey key taskId)

variable {first : L → J} {second : L → K}

theorem exists_joint_nullable (h : ∀ a b, f a = some b → ∃ c, first c = a ∧ second c = b)
    {a : Option J} {b : Option K} (hbind : bindNullable f a = some b) :
    ∃ c : Option L, c.map first = a ∧ c.map second = b := by
  cases a with
  | none =>
      cases hbind
      exact ⟨none, rfl, rfl⟩
  | some a =>
      rcases Option.map_eq_some_iff.mp hbind with ⟨b, hb, rfl⟩
      rcases h a b hb with ⟨c, rfl, rfl⟩
      exact ⟨some c, rfl, rfl⟩

/-- A statement with its documents and the statement with what became of them are two sides of
one. -/
theorem Statement.exists_joint (h : ∀ a b, f a = some b → ∃ c, first c = a ∧ second c = b)
    {st : Statement J} {st' : Statement K} (hbind : st.bindDocuments f = some st') :
    ∃ joint : Statement L, joint.mapDocuments first = st ∧ joint.mapDocuments second = st' := by
  cases st with
  | insertTask n =>
      rcases Option.bind_eq_some_iff.mp hbind with ⟨payload, hpayload, hrest⟩
      rcases Option.map_eq_some_iff.mp hrest with ⟨metadata, hmetadata, rfl⟩
      rcases h _ _ hpayload with ⟨c, hc, rfl⟩
      rcases h _ _ hmetadata with ⟨c', hc', rfl⟩
      refine ⟨.insertTask { n with payload := c, metadata := c' }, ?_, rfl⟩
      simp only [Statement.mapDocuments, NewTask.mapDocuments, hc, hc']
  | recoverLeases error =>
      rcases Option.map_eq_some_iff.mp hbind with ⟨error', herror, rfl⟩
      rcases h _ _ herror with ⟨c, rfl, rfl⟩
      exact ⟨.recoverLeases c, rfl, rfl⟩
  | owned id workerId write =>
      rcases Option.map_eq_some_iff.mp hbind with ⟨write', hwrite, rfl⟩
      suffices hjoint : ∃ joint : OwnedWrite L, joint.mapDocuments first = write ∧
          joint.mapDocuments second = write' by
        rcases hjoint with ⟨joint, rfl, rfl⟩
        exact ⟨.owned id workerId joint, rfl, rfl⟩
      cases write with
      | heartbeat leaseMs =>
          cases hwrite
          exact ⟨.heartbeat leaseMs, rfl, rfl⟩
      | progress value message =>
          cases hwrite
          exact ⟨.progress value message, rfl, rfl⟩
      | complete result =>
          rcases Option.map_eq_some_iff.mp hwrite with ⟨result', hresult, rfl⟩
          rcases exists_joint_nullable h hresult with ⟨c, rfl, rfl⟩
          exact ⟨.complete c, rfl, rfl⟩
      | succeed result message =>
          rcases Option.map_eq_some_iff.mp hwrite with ⟨result', hresult, rfl⟩
          rcases exists_joint_nullable h hresult with ⟨c, rfl, rfl⟩
          exact ⟨.succeed c message, rfl, rfl⟩
      | fail error retryable delayMs =>
          rcases Option.map_eq_some_iff.mp hwrite with ⟨error', herror, rfl⟩
          rcases h _ _ herror with ⟨c, rfl, rfl⟩
          exact ⟨.fail c retryable delayMs, rfl, rfl⟩
  | claim filter workerId leaseMs limit =>
      cases hbind
      exact ⟨.claim filter workerId leaseMs limit, rfl, rfl⟩
  | heartbeatBatch ids workerId leaseMs =>
      cases hbind
      exact ⟨.heartbeatBatch ids workerId leaseMs, rfl, rfl⟩
  | cancel id =>
      cases hbind
      exact ⟨.cancel id, rfl, rfl⟩
  | retry id resetAttempt =>
      cases hbind
      exact ⟨.retry id resetAttempt, rfl, rfl⟩
  | purge olderThanMs queue status name limit =>
      cases hbind
      exact ⟨.purge olderThanMs queue status name limit, rfl, rfl⟩
  | upsertKey key taskId =>
      cases hbind
      exact ⟨.upsertKey key taskId, rfl, rfl⟩

end Bind

theorem Reply.rows_mapDocuments (f : J → K) (reply : Reply J) :
    (reply.mapDocuments f).rows = reply.rows.map (Task.mapDocuments f) := by
  cases reply <;> rfl

/-! ## Databases -/

/-- Rows keep their ids. -/
def documents (f : J → K) : Relabelling (Task.id (J := J)) (Task.id (J := K)) where
  map := Task.mapDocuments f
  key_map _ := rfl

namespace Database

/-- The database with other documents. -/
def mapDocuments (f : J → K) (db : Database J) : Database K where
  tasks := db.tasks.relabel (documents f)
  keys := db.keys
  taskExists k hk := by
    rw [KeyedTable.find?_relabel, Option.isSome_map]
    exact db.taskExists k hk

variable {f : J → K}

@[simp]
theorem mapDocuments_empty : (empty : Database J).mapDocuments f = empty :=
  rfl

theorem get_mapDocuments (db : Database J) (id : String) :
    (db.mapDocuments f).get id = (db.get id).map (Task.mapDocuments f) :=
  KeyedTable.find?_relabel db.tasks id

theorem insertTask?_mapDocuments (db : Database J) (t : Task J) :
    (db.mapDocuments f).insertTask? (t.mapDocuments f) =
      (db.insertTask? t).map (Database.mapDocuments f) := by
  cases hinsert : db.insertTask? t with
  | none =>
      rw [Option.map_none, insertTask?_eq_none_iff, get_mapDocuments, Option.isSome_map]
      exact insertTask?_eq_none_iff.mp hinsert
  | some db' =>
      cases hinsert' : (db.mapDocuments f).insertTask? (t.mapDocuments f) with
      | none =>
          rw [insertTask?_eq_none_iff, get_mapDocuments, Option.isSome_map] at hinsert'
          rw [insertTask?_eq_none_iff.mpr hinsert'] at hinsert
          cases hinsert
      | some db'' =>
          refine congrArg some (eq_of_rows ?_ ?_)
          · rw [rows_insertTask? hinsert']
            show _ = db'.tasks.rows.map (Task.mapDocuments f)
            rw [rows_insertTask? hinsert, List.map_append]
            rfl
          · rw [(tasks_insertTask? hinsert').2]
            exact congrArg KeyedTable.rows (tasks_insertTask? hinsert).2.symm

theorem upsertKey?_mapDocuments (db : Database J) (key taskId : String) (nowMs : Int) :
    (db.mapDocuments f).upsertKey? key taskId nowMs =
      (db.upsertKey? key taskId nowMs).map (Database.mapDocuments f) := by
  cases hupsert : db.upsertKey? key taskId nowMs with
  | none =>
      rw [Option.map_none, upsertKey?_eq_none_iff, get_mapDocuments, Option.map_eq_none_iff]
      exact upsertKey?_eq_none_iff.mp hupsert
  | some db' =>
      cases hupsert' : (db.mapDocuments f).upsertKey? key taskId nowMs with
      | none =>
          rw [upsertKey?_eq_none_iff, get_mapDocuments, Option.map_eq_none_iff] at hupsert'
          rw [upsertKey?_eq_none_iff.mpr hupsert'] at hupsert
          cases hupsert
      | some db'' =>
          refine congrArg some (eq_of_rows ?_ ?_)
          · rw [tasks_upsertKey? hupsert']
            show db.tasks.rows.map _ = db'.tasks.rows.map _
            rw [tasks_upsertKey? hupsert]
          · show db''.keys.rows = db'.keys.rows
            have hsame : (db.mapDocuments f).keys = db.keys := rfl
            rcases keys_upsertKey? hupsert with hnew | ⟨hnone, hold⟩ <;>
              rcases keys_upsertKey? hupsert' with hnew' | ⟨hnone', hold'⟩
            · rw [hsame, hnew] at hnew'
              rw [Option.some.inj hnew']
            · rw [hsame, hnew] at hnone'
              cases hnone'
            · rw [hsame, hnone] at hnew'
              cases hnew'
            · rw [hold, hold', hsame]

end Database

/-! ## Conditions and assignments -/

section Statements

variable {f : J → K}

theorem updateReturning_mapDocuments {p : Task J → Bool} {p' : Task K → Bool} {u : SetList J}
    {u' : SetList K} (hp : ∀ t, p' (t.mapDocuments f) = p t)
    (hu : ∀ t, u'.set (t.mapDocuments f) = (u.set t).mapDocuments f) (db : Database J) :
    updateReturning p' u' (db.mapDocuments f) =
      ((updateReturning p u db).1.mapDocuments f,
        (updateReturning p u db).2.map (Task.mapDocuments f)) := by
  refine Prod.ext (Database.eq_of_rows ?_ rfl) ?_
  · exact congrArg KeyedTable.rows (KeyedTable.relabel_updateWhere (f := documents f) db.tasks hp hu)
  · exact KeyedTable.returning_relabel (f := documents f) db.tasks hp hu

/-- A bounded selection of ids. -/
theorem selectKeys_mapDocuments {p : Task J → Bool} {p' : Task K → Bool}
    {le : Task J → Task J → Prop} [DecidableRel le] {le' : Task K → Task K → Prop}
    [DecidableRel le'] (hp : ∀ t, p' (t.mapDocuments f) = p t)
    (hle : ∀ a b, le a b ↔ le' (a.mapDocuments f) (b.mapDocuments f)) (limit : Int)
    (db : Database J) :
    (db.mapDocuments f).tasks.selectKeys p' le' limit = db.tasks.selectKeys p le limit :=
  KeyedTable.selectKeys_relabel (f := documents f) db.tasks hp hle limit

/-- What a statement selects by is outside of the documents. -/
theorem Statement.selects_mapDocuments (locked : String → Bool) (nowMs : Int) (db : Database J)
    (st : Statement J) (t : Task J) :
    (st.mapDocuments f).selects locked nowMs (db.mapDocuments f) (t.mapDocuments f) =
      st.selects locked nowMs db t := by
  cases st with
  | claim filter workerId leaseMs limit =>
      have hkeys : (db.mapDocuments f).tasks.selectKeys
            (fun t => claimable filter.queueOk filter.nameOk nowMs t && !locked t.id) claimOrder
            limit =
          db.tasks.selectKeys
            (fun t => claimable filter.queueOk filter.nameOk nowMs t && !locked t.id) claimOrder
            limit :=
        selectKeys_mapDocuments (fun _ => rfl) (fun _ _ => Iff.rfl) limit db
      exact congrArg (fun ids => decide (t.id ∈ ids)) hkeys
  | _ => rfl

theorem OwnedWrite.setList_mapDocuments (nowMs : Int) (write : OwnedWrite J) (t : Task J) :
    ((write.mapDocuments f).setList nowMs).set (t.mapDocuments f) =
      ((write.setList nowMs).set t).mapDocuments f := by
  cases write with
  | complete result =>
      simp only [OwnedWrite.mapDocuments, OwnedWrite.setList, setComplete, Task.mapDocuments]
      split <;> rfl
  | _ => rfl

/-- What a statement assigns to a document is one of its own, or of the row's. -/
theorem Statement.assigns_mapDocuments (nowMs : Int) (st : Statement J) (t : Task J) :
    ((st.mapDocuments f).assigns nowMs).set (t.mapDocuments f) =
      ((st.assigns nowMs).set t).mapDocuments f := by
  cases st with
  | owned id workerId write => exact write.setList_mapDocuments nowMs t
  | recoverLeases error =>
      have herror : (if t.cancelRequestedAtMs.isNone && decide (t.maxAttempts ≤ t.attempt) then
            some (f error) else t.error.map f) =
          (if t.cancelRequestedAtMs.isNone && decide (t.maxAttempts ≤ t.attempt) then some error
            else t.error).map f := by
        split <;> rfl
      exact congrArg (fun e => { ((setRecover error nowMs).set t).mapDocuments f with error := e })
        herror
  | _ => rfl

theorem deleteSelected_mapDocuments {p : Task J → Bool} {p' : Task K → Bool}
    (hp : ∀ t, p' (t.mapDocuments f) = p t) (limit : Int) (db : Database J) :
    deleteSelected p' limit (db.mapDocuments f) =
      ((deleteSelected p limit db).1.mapDocuments f, (deleteSelected p limit db).2) := by
  have hkeys : (db.mapDocuments f).tasks.selectKeys p' completedOrder limit =
      db.tasks.selectKeys p completedOrder limit :=
    selectKeys_mapDocuments hp (fun _ _ => Iff.rfl) limit db
  have hdeleted : ∀ ids : List String,
      (db.mapDocuments f).deleteTasks (fun t => decide (t.id ∈ ids)) =
        (db.deleteTasks fun t => decide (t.id ∈ ids)).mapDocuments f := by
    intro ids
    have htasks : (db.tasks.relabel (documents f)).deleteWhere (fun t => decide (t.id ∈ ids)) =
        (db.tasks.deleteWhere fun t => decide (t.id ∈ ids)).relabel (documents f) :=
      KeyedTable.relabel_deleteWhere db.tasks fun _ => rfl
    refine Database.eq_of_rows (congrArg KeyedTable.rows htasks) ?_
    -- a key row goes with its task
    simp only [Database.deleteTasks, Database.mapDocuments, htasks, KeyedTable.find?_relabel,
      Option.isSome_map]
  have hreturned : ∀ ids : List String,
      ((db.mapDocuments f).tasks.rows.filter fun t => decide (t.id ∈ ids)).map Task.id =
        (db.tasks.rows.filter fun t => decide (t.id ∈ ids)).map Task.id := by
    intro ids
    have hrows : ((db.tasks.rows.map (documents f).map).filter fun t => decide (t.id ∈ ids)) =
        (db.tasks.rows.filter fun t => decide (t.id ∈ ids)).map (documents f).map :=
      KeyedTable.filter_map_of_agree (fun _ => rfl) db.tasks.rows
    exact (congrArg (List.map Task.id) hrows).trans (List.map_map ..)
  simp only [deleteSelected, hkeys, hdeleted, hreturned]

end Statements

/-! ## Execution -/

section Execution

variable {f : J → K}

theorem Postgres.exec_mapDocuments (locked : String → Bool) (nowMs : Int) (st : Statement J)
    (db : Database J) :
    Postgres.exec locked nowMs (st.mapDocuments f) (db.mapDocuments f) =
      ((Postgres.exec locked nowMs st db).1.mapDocuments f,
        (Postgres.exec locked nowMs st db).2.mapDocuments f) := by
  have hupdate := updateReturning_mapDocuments (fun t => st.selects_mapDocuments locked nowMs db t)
    (fun t => st.assigns_mapDocuments (f := f) nowMs t) db
  cases st with
  | claim filter workerId leaseMs limit =>
      simp only [Statement.mapDocuments, Postgres.exec, Postgres.execClaim_eq]
      exact congrArg replyTasks hupdate
  | owned id workerId write =>
      simp only [Statement.mapDocuments, Postgres.exec, Postgres.execOwned_eq]
      exact congrArg replyTasks hupdate
  | recoverLeases error =>
      simp only [Statement.mapDocuments, Postgres.exec, Postgres.recoverLeases, updateSelected_eq]
      exact congrArg replyTasks hupdate
  | cancel id => exact congrArg replyTasks hupdate
  | retry id resetAttempt => exact congrArg replyTasks hupdate
  | heartbeatBatch ids workerId leaseMs =>
      have hboth := congrArg (fun out : Database K × List (Task K) =>
        (out.1, Reply.renewed (J := K) (out.2.map renewedColumns))) hupdate
      refine hboth.trans ?_
      simp only [List.map_map]
      rfl
  | insertTask n =>
      have hinsert := db.insertTask?_mapDocuments (f := f) (n.row (nowMs + n.delayMs) nowMs)
      have hrow : (n.mapDocuments f).row (nowMs + (n.mapDocuments f).delayMs) nowMs =
          (n.row (nowMs + n.delayMs) nowMs).mapDocuments f := rfl
      simp only [Statement.mapDocuments, Postgres.exec, Postgres.insertTask, hrow, hinsert]
      cases db.insertTask? (n.row (nowMs + n.delayMs) nowMs) <;> rfl
  | purge olderThanMs queue status name limit =>
      have hdelete : deleteSelected
            (fun t => purgeable (nowMs - olderThanMs) queue status name t && !locked t.id) limit
            (db.mapDocuments f) =
          ((deleteSelected (fun t => purgeable (nowMs - olderThanMs) queue status name t &&
              !locked t.id) limit db).1.mapDocuments f,
            (deleteSelected (fun t => purgeable (nowMs - olderThanMs) queue status name t &&
              !locked t.id) limit db).2) :=
        deleteSelected_mapDocuments (fun _ => rfl) limit db
      simp only [Statement.mapDocuments, Postgres.exec, Postgres.purge, hdelete]
      rfl
  | upsertKey key taskId =>
      simp only [Statement.mapDocuments, Postgres.exec, Postgres.upsertKey,
        Database.upsertKey?_mapDocuments]
      cases db.upsertKey? key taskId nowMs <;> rfl

/-- Executing a statement commutes with a map of documents. -/
theorem exec_mapDocuments (d : Dialect) (held : String → Bool) (nowMs : Int) (st : Statement J)
    (db : Database J) :
    exec d held nowMs (st.mapDocuments f) (db.mapDocuments f) =
      ((exec d held nowMs st db).1.mapDocuments f, (exec d held nowMs st db).2.mapDocuments f) := by
  rw [exec_eq, exec_eq, Postgres.exec_mapDocuments]

/-! ## Runs -/

def ProtocolState.mapDocuments (f : J → K) (s : ProtocolState J) : ProtocolState K where
  clockMs := s.clockMs
  db := s.db.mapDocuments f

def Execution.mapDocuments (f : J → K) (e : Execution J) : Execution K where
  nowMs := e.nowMs
  held := e.held
  statement := e.statement.mapDocuments f

theorem Execution.reply_mapDocuments (d : Dialect) (e : Execution J) (db : Database J) :
    (e.mapDocuments f).reply d (db.mapDocuments f) = (e.reply d db).mapDocuments f :=
  congrArg Prod.snd (exec_mapDocuments d e.held e.nowMs e.statement db)

/-- A step with other documents. -/
theorem protocol_mapDocuments (d : Dialect) (s : ProtocolState J) (e : Execution J) :
    protocol d (s.mapDocuments f) (e.mapDocuments f) =
      (protocol d s e).map (ProtocolState.mapDocuments f) := by
  have hdb := congrArg Prod.fst (exec_mapDocuments (f := f) d e.held e.nowMs e.statement s.db)
  simp only [protocol, ProtocolState.mapDocuments, Execution.mapDocuments, hdb]
  split <;> rfl

end Execution

end CairnQ
