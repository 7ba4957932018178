import CairnQ.Protocol.Lifecycle

/-!
# Keyed transactions

`TaskStore.submit` with a key and `cancel_by_key`: several statements in one
transaction, opened by taking the lock of the key.  The statements of a transaction
are separate steps, and every other statement may be executed between them at READ
COMMITTED: it sees committed rows only, waits for a row it addresses, and passes over
a row it draws, when an open transaction wrote that row.  On SQLite an open
transaction is the only writer, so nothing is executed in between.

What a transaction wrote is kept with it until it commits: the new version of the row
it canceled, the row it inserted, the key it pointed.

Main results:

- Theorem `status_of_reusable`: no reuse strategy accepts a failed or canceled task.
- Theorems `get_commit` and `getKey_commit`: what a commit makes visible.
-/

namespace CairnQ

open Relational Transition

variable {J : Type}

/-! ## Requests -/

/-- The conflict strategies of a keyed submit. -/
inductive Conflict
  | reuse
  | reuseSucceeded
  | reject
  | replace
deriving DecidableEq, Repr

/-- `_reusable`: whether a strategy accepts the task the key already points at. -/
def reusable (conflict : Conflict) (status : TaskStatus) : Bool :=
  if conflict = .replace then false
  else if !status.isTerminal then true
  else decide (conflict = .reuseSucceeded) && decide (status = .succeeded)

/-- No reuse strategy hands back a failed or a canceled task. -/
theorem status_of_reusable {conflict : Conflict} {status : TaskStatus}
    (h : reusable conflict status = true) : status ≠ .failed ∧ status ≠ .canceled := by
  cases conflict <;> cases status <;> simp_all [reusable, TaskStatus.isTerminal]

/-- The keyed operations. -/
inductive KeyedRequest (J : Type)
  | submit (conflict : Conflict) (task : NewTask J)
  | cancelByKey
deriving DecidableEq, Repr

/-! ## Transactions -/

/-- Which statement a transaction executes next. -/
inductive KeyedPhase (J : Type)
  /-- `lock_key` is taken; next `get_key` -/
  | locked
  /-- the key points at a task; next `get`, or `cancel` for `cancel_by_key` -/
  | pointed (taskId : String)
  /-- the strategy declined a live task; next `cancel` -/
  | declined (taskId : String)
  /-- the key is free; next `insert_task` -/
  | free
  /-- the task is inserted; next `upsert_key` -/
  | inserted
  /-- nothing left to execute; next the commit, then the reply -/
  | done (reply : Option (Task J))
  /-- `AlreadyExists` is raised; next the rollback -/
  | refused
deriving DecidableEq, Repr

/-- An open transaction on a key and what it wrote so far. -/
structure KeyedTx (J : Type) where
  key : String
  request : KeyedRequest J
  phase : KeyedPhase J
  canceledRow : Option (Task J)
  insertedRow : Option (Task J)
  pointedAtMs : Option Int
deriving DecidableEq, Repr

/-- A transaction that just took the lock of its key. -/
def KeyedTx.opened (key : String) (request : KeyedRequest J) : KeyedTx J where
  key := key
  request := request
  phase := .locked
  canceledRow := none
  insertedRow := none
  pointedAtMs := none

/-- The ids of the rows a transaction wrote. -/
def KeyedTx.held (tx : KeyedTx J) : List String :=
  tx.canceledRow.toList.map Task.id ++ tx.insertedRow.toList.map Task.id

/-- What the transaction does once its key turned out to point nowhere. -/
def KeyedTx.afterMissing (tx : KeyedTx J) : KeyedTx J :=
  match tx.request with
  | .submit _ _ => { tx with phase := .free }
  | .cancelByKey => { tx with phase := .done none }

/-- `cancel` inside the transaction: the canceled version of a live row is written. -/
def KeyedTx.cancelRow (tx : KeyedTx J) (db : Database J) (taskId : String) (nowMs : Int) :
    KeyedTx J :=
  let written := (Postgres.cancel nowMs taskId db).2.head?
  match tx.request with
  | .submit _ _ => { tx with phase := .free, canceledRow := written }
  | .cancelByKey => { tx with phase := .done written, canceledRow := written }

/-- Execute the next statement of a transaction against the committed rows; nothing it
reads is a row it wrote itself. -/
def KeyedTx.advance (tx : KeyedTx J) (db : Database J) (nowMs : Int) : Option (KeyedTx J) :=
  match tx.phase with
  | .locked =>
      match db.getKey tx.key with
      | none => some tx.afterMissing
      | some taskId => some { tx with phase := .pointed taskId }
  | .pointed taskId =>
      match tx.request with
      | .cancelByKey => some (tx.cancelRow db taskId nowMs)
      | .submit conflict _ =>
          match db.get taskId with
          | none => some tx.afterMissing
          | some row =>
              if conflict = .reject then some { tx with phase := .refused }
              else if reusable conflict row.status then some { tx with phase := .done (some row) }
              else if row.status.isTerminal then some { tx with phase := .free }
              else some { tx with phase := .declined taskId }
  | .declined taskId => some (tx.cancelRow db taskId nowMs)
  | .free =>
      match tx.request with
      | .submit _ n =>
          if (db.get n.id).isNone then
            some { tx with
              phase := .inserted
              insertedRow := some (n.row (nowMs + n.delayMs) nowMs) }
          else none
      | .cancelByKey => none
  | .inserted => some { tx with phase := .done tx.insertedRow, pointedAtMs := some nowMs }
  | .done _ | .refused => none

/-- The new version of the row the transaction canceled, written back. -/
def KeyedTx.putCanceled (tx : KeyedTx J) (db : Database J) : Database J :=
  match tx.canceledRow with
  | some row => db.putTask row
  | none => db

/-- Commit: what the transaction wrote becomes visible at once. -/
def KeyedTx.commit (tx : KeyedTx J) (db : Database J) : Option (Database J) :=
  match tx.insertedRow, tx.pointedAtMs with
  | some row, some atMs =>
      ((tx.putCanceled db).insertTask? row).bind fun db' => db'.upsertKey? tx.key row.id atMs
  | _, _ => some (tx.putCanceled db)

/-! ## What a commit makes visible -/

theorem KeyedTx.get_putCanceled (tx : KeyedTx J) (db : Database J) (id : String) :
    (tx.putCanceled db).get id = db.get id ∨
      ∃ row, tx.canceledRow = some row ∧ row.id = id ∧ (tx.putCanceled db).get id = some row := by
  unfold putCanceled
  split
  · rename_i row hrow
    rw [Database.get_putTask]
    split
    · rename_i hid
      cases db.get id with
      | none => exact Or.inl rfl
      | some t => exact Or.inr ⟨row, hrow, hid, rfl⟩
    · exact Or.inl rfl
  · exact Or.inl rfl

theorem KeyedTx.getKey_putCanceled (tx : KeyedTx J) (db : Database J) (key : String) :
    (tx.putCanceled db).getKey key = db.getKey key := by
  unfold putCanceled
  split <;> rfl

/-- The rows after a commit: the inserted row, the canceled row, and what was there. -/
theorem KeyedTx.get_commit {tx : KeyedTx J} {db db' : Database J} (h : tx.commit db = some db')
    (id : String) :
    (∃ row, tx.insertedRow = some row ∧ tx.pointedAtMs.isSome ∧ row.id = id ∧
      db'.get id = some row) ∨ db'.get id = (tx.putCanceled db).get id := by
  unfold commit at h
  split at h
  · rename_i row atMs hrow hat
    rcases Option.bind_eq_some_iff.mp h with ⟨mid, hinsert, hupsert⟩
    rw [Database.get_upsertKey? hupsert, Database.get_insertTask? hinsert]
    split
    · rename_i hid
      exact Or.inl ⟨row, hrow, by simp [hat], hid, rfl⟩
    · exact Or.inr rfl
  · cases h
    exact Or.inr rfl

/-- The keys after a commit: only the key of the transaction may point elsewhere. -/
theorem KeyedTx.getKey_commit {tx : KeyedTx J} {db db' : Database J}
    (h : tx.commit db = some db') (key : String) :
    (∃ row, tx.insertedRow = some row ∧ tx.pointedAtMs.isSome ∧ tx.key = key ∧
      db'.getKey key = some row.id) ∨
    ((tx.key = key → tx.insertedRow = none ∨ tx.pointedAtMs = none) ∧
      db'.getKey key = db.getKey key) := by
  unfold commit at h
  split at h
  · rename_i row atMs hrow hat
    rcases Option.bind_eq_some_iff.mp h with ⟨mid, hinsert, hupsert⟩
    rw [Database.getKey_upsertKey? hupsert]
    split
    · rename_i hkey
      exact Or.inl ⟨row, hrow, by simp [hat], hkey, rfl⟩
    · rename_i hkey
      rw [Database.getKey_insertTask? hinsert, getKey_putCanceled]
      exact Or.inr ⟨fun h => absurd h hkey, rfl⟩
  · rename_i hnone
    cases h
    refine Or.inr ⟨fun _ => ?_, getKey_putCanceled tx db key⟩
    cases hrow : tx.insertedRow with
    | none => exact Or.inl rfl
    | some row =>
        cases hat : tx.pointedAtMs with
        | none => exact Or.inr rfl
        | some atMs => exact absurd hat (hnone row atMs hrow)

/-! ## The system -/

/-- The committed rows, the key each task was submitted under, and the open transactions,
at most one for each key. -/
structure KeyState (J : Type) where
  db : Database J
  submittedUnder : String → Option String
  txs : KeyedTable (KeyedTx.key (J := J))

/-- A fresh database and no open transaction. -/
def KeyState.fresh : KeyState J where
  db := Database.empty
  submittedUnder := fun _ => none
  txs := KeyedTable.empty

/-- The rows written by open transactions. -/
def KeyState.heldRows (s : KeyState J) (id : String) : Bool :=
  s.txs.rows.any fun tx => decide (id ∈ tx.held)

/-- The row an insert is about. -/
def Statement.insertsId : Statement J → String → Bool
  | .insertTask n, id => decide (n.id = id)
  | _, _ => false

/-- Whether a statement has to wait for an open transaction. -/
def KeyState.waits (s : KeyState J) (st : Statement J) : Bool :=
  s.txs.rows.any fun tx => tx.held.any fun id => st.addresses id || st.insertsId id

/-- The statements outside keyed transactions, retries left out. -/
def Statement.unkeyed : Statement J → Bool
  | .retry _ _ | .upsertKey _ _ => false
  | _ => true

/-- Whether an open transaction shuts out every other writer. -/
def Dialect.exclusive : Dialect → Bool
  | .sqlite => true
  | .postgres => false

/-- A label of the system. -/
inductive KeyedStep (J : Type)
  /-- a statement on its own -/
  | statement (nowMs : Int) (st : Statement J)
  /-- a keyed operation takes the lock of its key -/
  | begin (key : String) (request : KeyedRequest J)
  /-- the transaction on a key executes its next statement -/
  | advance (key : String) (nowMs : Int)
  /-- the transaction on a key commits -/
  | commit (key : String)
  /-- the transaction on a key is rolled back -/
  | rollback (key : String)

/-- Record under which key an insert was made. -/
def recordInsert (submittedUnder : String → Option String) (id : String) (key : Option String) :
    String → Option String :=
  fun id' => if id' = id then key else submittedUnder id'

/-- The record after a statement on its own: an accepted insert is a submit without key. -/
def recordStatement (submittedUnder : String → Option String) (st : Statement J)
    (reply : Reply J) : String → Option String :=
  match st with
  | .insertTask n =>
      if reply.names n.id then recordInsert submittedUnder n.id none else submittedUnder
  | _ => submittedUnder

/-- The record after a commit: the inserted row was submitted under the key. -/
def KeyedTx.record (tx : KeyedTx J) (submittedUnder : String → Option String) :
    String → Option String :=
  match tx.insertedRow, tx.pointedAtMs with
  | some row, some _ => recordInsert submittedUnder row.id (some tx.key)
  | _, _ => submittedUnder

/-- Keyed transactions next to every other statement. -/
def keyed (d : Dialect) : Machine (KeyState J) (KeyedStep J) := fun s l =>
  match l with
  | .statement nowMs st =>
      if st.unkeyed = true ∧ s.waits st = false ∧ (d.exclusive = true → s.txs.rows = []) then
        let out := exec d s.heldRows nowMs st s.db
        some { s with
          db := out.1
          submittedUnder := recordStatement s.submittedUnder st out.2 }
      else none
  | .begin key request =>
      if d.exclusive = true → s.txs.rows = [] then
        (s.txs.insert? (KeyedTx.opened key request)).map fun txs => { s with txs := txs }
      else none
  | .advance key nowMs => do
      let tx ← s.txs.find? key
      let tx' ← tx.advance s.db nowMs
      if ∀ id ∈ tx'.held, id ∈ tx.held ∨ s.heldRows id = false then
        some { s with
          txs := s.txs.updateWhere (fun t => t.key = tx'.key) (KeyedTable.replaceWith tx') }
      else none
  | .commit key => do
      let tx ← s.txs.find? key
      match tx.phase with
      | .done _ =>
          let db ← tx.commit s.db
          some
            { db := db
              submittedUnder := tx.record s.submittedUnder
              txs := s.txs.deleteWhere fun t => t.key = key }
      | _ => none
  | .rollback key => do
      let _ ← s.txs.find? key
      some { s with txs := s.txs.deleteWhere fun t => t.key = key }

end CairnQ
