import CairnQ.Keys.Uniqueness
import CairnQ.Transition.Past
import CairnQ.Transition.Simulation

/-!
# Linearization of keyed operations

A keyed submit and `cancel_by_key` are transactions of several statements, and at READ COMMITTED
anybody's statements, retries left out, are executed between them.  All the same each of them
takes effect in one step: a serial store, which executes a keyed operation at once, goes through
the same rows and gives the same answers.  The step is the commit of an operation that writes, and
the last read of one that does not.

What carries the proof is that others leave alone what a transaction has decided on: they
neither point its key nor bring a settled task back, and they do not touch the row it canceled.

Main results:

- Theorem `KeyedTx.Decided.of_outside`: what a transaction has decided stays right whatever others
  commit.
- Theorem `keyed_linearizable`: a run is matched, step by step, by a run of the serial store.
-/

namespace CairnQ

open Relational Transition

variable {J : Type}

/-! ## The serial store -/

/-- What a keyed operation gives back: a task or none, or `AlreadyExists`. -/
inductive KeyedReply (J : Type)
  | task (t : Option (Task J))
  | refused

/-- A keyed operation and its reply. -/
structure KeyedAnswer (J : Type) where
  key : String
  request : KeyedRequest J
  reply : KeyedReply J

/-- The clock at each write of an operation. -/
structure KeyedTimes where
  cancelMs : Int
  insertMs : Int
  pointMs : Int

/-- The task that a key points at. -/
def Database.taskUnder (db : Database J) (key : String) : Option (Task J) :=
  (db.getKey key).bind db.get

/-- Insert a new task, and point the key at it. -/
def Database.insertUnder (db : Database J) (key : String) (n : NewTask J) (times : KeyedTimes) :
    Option (Database J × KeyedReply J) :=
  let row := n.row (times.insertMs + n.delayMs) times.insertMs
  (db.insertTask? row).bind fun mid =>
    (mid.upsertKey? key row.id times.pointMs).map fun db' => (db', .task (some row))

/-- A keyed operation in one step.  A submit is about the task under its key, if there is one: it
is refused, takes that task, or cancels what is left of it and inserts its own. -/
def KeyedRequest.perform (key : String) (times : KeyedTimes) (db : Database J) :
    KeyedRequest J → Option (Database J × KeyedReply J)
  | .submit conflict n =>
      match db.taskUnder key with
      | none => db.insertUnder key n times
      | some t =>
          if conflict = .reject then some (db, .refused)
          else if reusable conflict t.status then some (db, .task (some t))
          else (Postgres.cancel times.cancelMs t.id db).1.insertUnder key n times
  | .cancelByKey =>
      match db.getKey key with
      | none => some (db, .task none)
      | some id =>
          let out := Postgres.cancel times.cancelMs id db
          some (out.1, .task out.2.head?)

/-- The rows, and the keyed operations performed so far. -/
structure SerialState (J : Type) where
  db : Database J
  answers : List (KeyedAnswer J)

/-- A fresh database. -/
def SerialState.fresh : SerialState J where
  db := Database.empty
  answers := []

/-- A label of the serial store. -/
inductive SerialStep (J : Type)
  | statement (held : String → Bool) (nowMs : Int) (st : Statement J)
  | operation (key : String) (request : KeyedRequest J) (times : KeyedTimes)

/-- The serial store: no statement is executed within a keyed operation. -/
def serialized (d : Dialect) : Machine (SerialState J) (SerialStep J)
  | s, .statement held nowMs st =>
      if st.unkeyed = true then some { s with db := (exec d held nowMs st s.db).1 } else none
  | s, .operation key request times =>
      (request.perform key times s.db).map fun out =>
        { db := out.1, answers := s.answers ++ [⟨key, request, out.2⟩] }

/-! ## The transactions, observed -/

/-- A run of keyed transactions, with the operations begun and those answered. -/
structure KeyedHistory (J : Type) where
  state : KeyState J
  begun : List (String × KeyedRequest J)
  answered : List (KeyedAnswer J)

/-- Nothing has begun. -/
def KeyedHistory.fresh : KeyedHistory J where
  state := KeyState.fresh
  begun := []
  answered := []

/-- The operation that a step begins. -/
def KeyedStep.begins : KeyedStep J → List (String × KeyedRequest J)
  | .begin key request => [(key, request)]
  | _ => []

/-- The reply of a transaction that commits. -/
def KeyedTx.committed (tx : KeyedTx J) : List (KeyedAnswer J) :=
  match tx.phase with
  | .done reply => [⟨tx.key, tx.request, .task reply⟩]
  | _ => []

/-- `AlreadyExists` leaves a transaction with its rollback. -/
def KeyedTx.rolledBack (tx : KeyedTx J) : List (KeyedAnswer J) :=
  match tx.phase with
  | .refused => [⟨tx.key, tx.request, .refused⟩]
  | _ => []

/-- The answer that a step gives. -/
def KeyState.answers (s : KeyState J) : KeyedStep J → List (KeyedAnswer J)
  | .commit key => (s.txs.find? key).toList.flatMap KeyedTx.committed
  | .rollback key => (s.txs.find? key).toList.flatMap KeyedTx.rolledBack
  | _ => []

/-- Keyed transactions next to every other statement, observed. -/
def observed (d : Dialect) : Machine (KeyedHistory J) (KeyedStep J) := fun h l =>
  (keyed d h.state l).map fun s =>
    { state := s
      begun := h.begun ++ l.begins
      answered := h.answered ++ h.state.answers l }

/-- The id that a step stores a new task under. -/
def KeyState.newId? (s : KeyState J) : KeyedStep J → Option String
  | .statement _ (.insertTask n) => some n.id
  | .commit key => (s.txs.find? key).bind fun tx => tx.insertedRow.map Task.id
  | _ => none

/-- The task that the key was read to point at, while the transaction relies on it. -/
def KeyedTx.aim? (tx : KeyedTx J) : Option String :=
  match tx.phase with
  | .pointed taskId | .declined taskId => some taskId
  | _ => none

/-- A new task does not take the id of a purged one that an open transaction still aims at, as ids
are not used twice. -/
def NewIds (h : KeyedHistory J) (l : KeyedStep J) : Prop :=
  ∀ id, h.state.newId? l = some id → ∀ tx ∈ h.state.txs.rows, tx.aim? ≠ some id

instance (h : KeyedHistory J) (l : KeyedStep J) : Decidable (NewIds h l) :=
  decidable_of_iff
    (∀ id ∈ (h.state.newId? l).toList, ∀ tx ∈ h.state.txs.rows, tx.aim? ≠ some id)
    (by simp only [NewIds, Option.mem_toList])

/-- What a step comes to in the serial store.  A statement is executed there too; a keyed operation
is performed at a statement of its transaction or at the commit, and the other steps of it are
silent. -/
inductive Linearized : KeyedStep J → List (SerialStep J) → Prop
  | statement (held : String → Bool) (nowMs : Int) (st : Statement J) :
      Linearized (.statement nowMs st) [.statement held nowMs st]
  | begun (key : String) (request : KeyedRequest J) : Linearized (.begin key request) []
  | decided (key : String) (nowMs : Int) : Linearized (.advance key nowMs) []
  | read (key : String) (nowMs : Int) (request : KeyedRequest J) (times : KeyedTimes) :
      Linearized (.advance key nowMs) [.operation key request times]
  | answered (key : String) : Linearized (.commit key) []
  | written (key : String) (request : KeyedRequest J) (times : KeyedTimes) :
      Linearized (.commit key) [.operation key request times]
  | rolledBack (key : String) : Linearized (.rollback key) []

/-! ## Cancelling one row -/

/-- A live row is canceled: its canceled version is stored and returned. -/
theorem cancel_of_live {db : Database J} {t : Task J} (ht : db.get t.id = some t)
    (hlive : t.status = .queued ∨ t.status = .running) (nowMs : Int) :
    Postgres.cancel nowMs t.id db =
      (db.putTask ((setCancel nowMs).set t), [(setCancel nowMs).set t]) := by
  refine Prod.ext (Database.eq_of_rows ?_ rfl) ?_
  · refine List.map_congr_left fun r hr => ?_
    by_cases hrt : r.id = t.id
    · have hsame : r = t := KeyedTable.row_unique hr (KeyedTable.find?_eq_some_iff.mp ht).1 hrt
      subst hsame
      simp [hlive, KeyedTable.replaceWith]
    · simp [hrt]
  · have hrows : (db.tasks.rows.filter fun r => decide (r.id = t.id) &&
        decide (r.status = .queued ∨ r.status = .running)) = [t] := by
      have hone := KeyedTable.filter_key_eq db.tasks t.id
      rw [show db.tasks.find? t.id = some t from ht, Option.toList_some] at hone
      rw [← List.filter_filter, List.filter_comm, hone]
      simp [hlive]
    show (db.tasks.rows.filter _).map _ = _
    rw [hrows]
    rfl

/-- Where there is no live row, nothing is canceled. -/
theorem cancel_of_over {db : Database J} {id : String}
    (hover : ∀ t, db.get id = some t → t.status.isTerminal = true) (nowMs : Int) :
    Postgres.cancel nowMs id db = (db, []) := by
  have hnone : ∀ r ∈ db.tasks.rows, ¬(decide (r.id = id) &&
      decide (r.status = .queued ∨ r.status = .running)) = true := by
    intro r hr hboth
    rw [Bool.and_eq_true, decide_eq_true_eq, decide_eq_true_eq] at hboth
    have hterminal := hover r (KeyedTable.find?_eq_some_iff.mpr ⟨hr, hboth.1⟩)
    rcases hboth.2 with hstatus | hstatus <;> simp [hstatus, TaskStatus.isTerminal] at hterminal
  refine Prod.ext (Database.eq_of_rows ?_ rfl) ?_
  · exact (List.map_congr_left fun r hr => if_neg (hnone r hr)).trans (List.map_id _)
  · show (db.tasks.rows.filter _).map _ = []
    rw [List.filter_eq_nil_iff.mpr hnone]
    rfl

theorem cancel_of_terminal {db : Database J} {t : Task J} (ht : db.get t.id = some t)
    (hterminal : t.status.isTerminal = true) (nowMs : Int) :
    Postgres.cancel nowMs t.id db = (db, []) := by
  refine cancel_of_over (fun r hr => ?_) nowMs
  cases ht.symm.trans hr
  exact hterminal

/-! ## What a transaction has decided -/

/-- The key points at a task, or did until the task was purged. -/
def PointsAt (db : Database J) (key id : String) : Prop :=
  db.getKey key = some id ∨ (db.getKey key = none ∧ db.get id = none)

/-- A task that is still stored is the one its key points at. -/
theorem PointsAt.getKey {db : Database J} {key : String} {t : Task J} (h : PointsAt db key t.id)
    (ht : db.get t.id = some t) : db.getKey key = some t.id := by
  rcases h with hkey | ⟨-, hgone⟩
  · exact hkey
  · cases ht.symm.trans hgone

theorem PointsAt.taskUnder {db : Database J} {key id : String} (h : PointsAt db key id) :
    db.taskUnder key = db.get id := by
  rcases h with hkey | ⟨hkey, hgone⟩
  · rw [Database.taskUnder, hkey, Option.bind_some]
  · rw [Database.taskUnder, hkey, Option.bind_none, hgone]

/-- The way to the insert of a submit: the key is free, or the strategy declines a task that is
over, or one whose canceled version the transaction holds. -/
inductive Clears (db : Database J) (key : String) (conflict : Conflict) : Option (Task J) → Prop
  | free (hfree : db.taskUnder key = none) : Clears db key conflict none
  | settled {t : Task J} (hkey : db.getKey key = some t.id) (ht : db.get t.id = some t)
      (hconflict : conflict ≠ .reject) (hdeclined : reusable conflict t.status = false)
      (hterminal : t.status.isTerminal = true) : Clears db key conflict none
  | canceled {t : Task J} {nowMs : Int} (hkey : db.getKey key = some t.id)
      (ht : db.get t.id = some t) (hconflict : conflict ≠ .reject)
      (hdeclined : reusable conflict t.status = false)
      (hlive : t.status = .queued ∨ t.status = .running) :
      Clears db key conflict (some ((setCancel nowMs).set t))

/-- What holds of a transaction at each of its phases.  One that is done without having written
has been right when it read. -/
inductive KeyedTx.Decided (db : Database J) : KeyedTx J → Prop
  | locked (key : String) (request : KeyedRequest J) : Decided db (.opened key request)
  | pointed {key id : String} {request : KeyedRequest J} (hpoints : PointsAt db key id) :
      Decided db { KeyedTx.opened key request with phase := .pointed id }
  | declined {key id : String} {n : NewTask J} (hpoints : PointsAt db key id) :
      Decided db { KeyedTx.opened key (.submit .replace n) with phase := .declined id }
  | free {key : String} {conflict : Conflict} {n : NewTask J} {canceledRow : Option (Task J)}
      (hclears : Clears db key conflict canceledRow) :
      Decided db
        { KeyedTx.opened key (.submit conflict n) with phase := .free, canceledRow := canceledRow }
  | inserted {key : String} {conflict : Conflict} {n : NewTask J} {canceledRow : Option (Task J)}
      (hclears : Clears db key conflict canceledRow) (insertMs : Int) :
      Decided db
        { KeyedTx.opened key (.submit conflict n) with
          phase := .inserted
          canceledRow := canceledRow
          insertedRow := some (n.row (insertMs + n.delayMs) insertMs) }
  | submitted {key : String} {conflict : Conflict} {n : NewTask J} {canceledRow : Option (Task J)}
      (hclears : Clears db key conflict canceledRow) (insertMs pointMs : Int) :
      Decided db
        { KeyedTx.opened key (.submit conflict n) with
          phase := .done (some (n.row (insertMs + n.delayMs) insertMs))
          canceledRow := canceledRow
          insertedRow := some (n.row (insertMs + n.delayMs) insertMs)
          pointedAtMs := some pointMs }
  | canceled {key : String} {t : Task J} (hkey : db.getKey key = some t.id)
      (ht : db.get t.id = some t) (hlive : t.status = .queued ∨ t.status = .running)
      (nowMs : Int) :
      Decided db
        { KeyedTx.opened key .cancelByKey with
          phase := .done (some ((setCancel nowMs).set t))
          canceledRow := some ((setCancel nowMs).set t) }
  | read (key : String) (request : KeyedRequest J) (reply : Option (Task J)) :
      Decided db { KeyedTx.opened key request with phase := .done reply }
  | refused (key : String) (request : KeyedRequest J) :
      Decided db { KeyedTx.opened key request with phase := .refused }

/-! ### Others -/

/-- What others may commit next to a transaction: they do not point its key, which goes with its
task; a task that is over stays as it is or goes; the task the transaction aims at does not come
back; and the rows it wrote are left alone. -/
structure Outside (db db' : Database J) (tx : KeyedTx J) : Prop where
  key : db'.getKey tx.key = db.getKey tx.key ∨
    (db'.getKey tx.key = none ∧ ∀ id, db.getKey tx.key = some id → db'.get id = none)
  settled : ∀ id t, db.get id = some t → t.status.isTerminal = true →
    db'.get id = none ∨ db'.get id = some t
  aim : ∀ id, tx.aim? = some id → db.get id = none → db'.get id = none
  held : ∀ id ∈ tx.held, db'.get id = db.get id

section Stable

variable {db db' : Database J} {tx : KeyedTx J}

theorem PointsAt.of_outside {id : String} (h : PointsAt db tx.key id) (haim : tx.aim? = some id)
    (hout : Outside db db' tx) : PointsAt db' tx.key id := by
  rcases h with hkey | ⟨hkey, hgone⟩
  · rcases hout.key with hsame | ⟨hnone, hgone⟩
    · exact Or.inl (hsame.trans hkey)
    · exact Or.inr ⟨hnone, hgone id hkey⟩
  · refine Or.inr ⟨?_, hout.aim id haim hgone⟩
    rcases hout.key with hsame | ⟨hnone, -⟩
    · exact hsame.trans hkey
    · exact hnone

/-- A row the transaction wrote keeps its key. -/
theorem Outside.key_of_held (hout : Outside db db' tx) {t : Task J}
    (hkey : db.getKey tx.key = some t.id) (ht : db.get t.id = some t) (hheld : t.id ∈ tx.held) :
    db'.getKey tx.key = some t.id ∧ db'.get t.id = some t := by
  have hrow := (hout.held t.id hheld).trans ht
  refine ⟨?_, hrow⟩
  rcases hout.key with hsame | ⟨-, hgone⟩
  · exact hsame.trans hkey
  · rw [hgone t.id hkey] at hrow
    cases hrow

theorem Clears.of_outside {conflict : Conflict} {canceledRow : Option (Task J)}
    (h : Clears db tx.key conflict canceledRow) (hrow : tx.canceledRow = canceledRow)
    (hout : Outside db db' tx) : Clears db' tx.key conflict canceledRow := by
  cases h with
  | free hfree =>
      -- a key that points at no task is not there
      have hkey : db.getKey tx.key = none := by
        cases hkey : db.getKey tx.key with
        | none => rfl
        | some id =>
            have hsome := Database.get_of_getKey hkey
            rw [Database.taskUnder, hkey, Option.bind_some] at hfree
            rw [hfree] at hsome
            cases hsome
      refine .free ?_
      have hkey' : db'.getKey tx.key = none := by
        rcases hout.key with hsame | ⟨hnone, -⟩
        · exact hsame.trans hkey
        · exact hnone
      rw [Database.taskUnder, hkey', Option.bind_none]
  | @settled t hkey ht hconflict hdeclined hterminal =>
      rcases hout.key with hsame | ⟨hnone, -⟩
      · rcases hout.settled t.id t ht hterminal with hgone | hkept
        · have hsome := Database.get_of_getKey (hsame.trans hkey)
          rw [hgone] at hsome
          cases hsome
        · exact .settled (hsame.trans hkey) hkept hconflict hdeclined hterminal
      · refine .free ?_
        rw [Database.taskUnder, hnone, Option.bind_none]
  | @canceled t nowMs hkey ht hconflict hdeclined hlive =>
      have hheld : t.id ∈ tx.held := by
        simp [KeyedTx.held, hrow]
      rcases hout.key_of_held hkey ht hheld with ⟨hkey', ht'⟩
      exact .canceled hkey' ht' hconflict hdeclined hlive

/-- What a transaction has decided stays right whatever others commit. -/
theorem KeyedTx.Decided.of_outside (h : tx.Decided db) (hout : Outside db db' tx) :
    tx.Decided db' := by
  cases h with
  | locked key request => exact .locked key request
  | pointed hpoints => exact .pointed (hpoints.of_outside rfl hout)
  | declined hpoints => exact .declined (hpoints.of_outside rfl hout)
  | free hclears => exact .free (hclears.of_outside rfl hout)
  | inserted hclears insertMs => exact .inserted (hclears.of_outside rfl hout) insertMs
  | submitted hclears insertMs pointMs =>
      exact .submitted (hclears.of_outside rfl hout) insertMs pointMs
  | @canceled key t hkey ht hlive nowMs =>
      have hheld : t.id ∈ KeyedTx.held
          { KeyedTx.opened key .cancelByKey with
            phase := .done (some ((setCancel nowMs).set t))
            canceledRow := some ((setCancel nowMs).set t) } := by
        simp [KeyedTx.held]
      rcases hout.key_of_held hkey ht hheld with ⟨hkey', ht'⟩
      exact .canceled hkey' ht' hlive nowMs
  | read key request reply => exact .read key request reply
  | refused key request => exact .refused key request

end Stable

/-! ### Its own statements -/

/-- The answer of a transaction that takes effect without a commit: it is over, and has not
written. -/
def KeyedTx.performed (tx : KeyedTx J) : List (KeyedAnswer J) :=
  if tx.held.isEmpty then tx.committed ++ tx.rolledBack else []

/-- What one statement of a transaction comes to: a decision for the next one, or the whole
operation at once, if it does not write. -/
structure KeyedTx.Moved (db : Database J) (tx tx' : KeyedTx J) : Prop where
  decided : tx'.Decided db
  key : tx'.key = tx.key
  request : tx'.request = tx.request
  before : tx.performed = []
  after : tx'.performed = [] ∨
    ∃ times reply, tx.request.perform tx.key times db = some (db, reply) ∧
      tx'.performed = [⟨tx.key, tx.request, reply⟩]

section Own

variable {db : Database J} {nowMs : Int}

/-- Some reading of the clock. -/
def KeyedTimes.const (nowMs : Int) : KeyedTimes := ⟨nowMs, nowMs, nowMs⟩

theorem not_terminal_of_live {status : TaskStatus} (hlive : ¬status.isTerminal = true) :
    status = .queued ∨ status = .running := by
  cases status <;> simp_all [TaskStatus.isTerminal]

theorem moved_locked {key : String} {request : KeyedRequest J} {tx' : KeyedTx J}
    (hstep : (KeyedTx.opened key request).advance db nowMs = some tx') :
    (KeyedTx.opened key request).Moved db tx' := by
  simp only [KeyedTx.advance, KeyedTx.opened] at hstep
  cases hkey : db.getKey key with
  | some id =>
      simp only [hkey, Option.some.injEq] at hstep
      subst hstep
      exact ⟨.pointed (Or.inl hkey), rfl, rfl, rfl, Or.inl rfl⟩
  | none =>
      simp only [hkey, KeyedTx.afterMissing] at hstep
      cases request with
      | submit conflict n =>
          cases hstep
          refine ⟨.free (.free ?_), rfl, rfl, rfl, Or.inl rfl⟩
          rw [Database.taskUnder, hkey, Option.bind_none]
      | cancelByKey =>
          cases hstep
          refine ⟨.read key .cancelByKey none, rfl, rfl, rfl,
            Or.inr ⟨.const nowMs, .task none, ?_, rfl⟩⟩
          simp [KeyedRequest.perform, KeyedTx.opened, hkey]

/-- `cancel_by_key` with the task its key points at. -/
theorem moved_cancelByKey {key id : String} (hpoints : PointsAt db key id) :
    KeyedTx.Moved db { KeyedTx.opened key .cancelByKey with phase := .pointed id }
      (KeyedTx.cancelRow { KeyedTx.opened key .cancelByKey with phase := .pointed id } db id
        nowMs) := by
  by_cases hlive : ∃ t, db.get id = some t ∧ (t.status = .queued ∨ t.status = .running)
  · rcases hlive with ⟨t, ht, hlive⟩
    have hid := Database.id_of_get ht
    subst hid
    have hkey := hpoints.getKey ht
    simp only [KeyedTx.cancelRow, cancel_of_live ht hlive, KeyedTx.opened, List.head?_cons]
    exact ⟨.canceled hkey ht hlive nowMs, rfl, rfl, rfl, Or.inl rfl⟩
  · have hover : ∀ t, db.get id = some t → t.status.isTerminal = true := by
      intro t ht
      by_contra hterminal
      exact hlive ⟨t, ht, not_terminal_of_live hterminal⟩
    simp only [KeyedTx.cancelRow, cancel_of_over hover, KeyedTx.opened, List.head?_nil]
    refine ⟨.read key .cancelByKey none, rfl, rfl, rfl, Or.inr ⟨.const nowMs, .task none, ?_, rfl⟩⟩
    rcases hpoints with hkey | ⟨hkey, -⟩
    · simp [KeyedRequest.perform, hkey, cancel_of_over hover]
    · simp [KeyedRequest.perform, hkey]

/-- `get` of a submit. -/
theorem moved_get {key id : String} {conflict : Conflict} {n : NewTask J} {tx' : KeyedTx J}
    (hpoints : PointsAt db key id)
    (hstep : KeyedTx.advance
      { KeyedTx.opened key (.submit conflict n) with phase := .pointed id } db nowMs = some tx') :
    KeyedTx.Moved db { KeyedTx.opened key (.submit conflict n) with phase := .pointed id } tx' := by
  simp only [KeyedTx.advance, KeyedTx.opened] at hstep
  cases ht : db.get id with
  | none =>
      simp only [ht, KeyedTx.afterMissing, Option.some.injEq] at hstep
      subst hstep
      exact ⟨.free (.free (hpoints.taskUnder.trans ht)), rfl, rfl, rfl, Or.inl rfl⟩
  | some t =>
      have hid := Database.id_of_get ht
      subst hid
      have hkey := hpoints.getKey ht
      have hunder := hpoints.taskUnder.trans ht
      simp only [ht] at hstep
      split at hstep
      · rename_i hreject
        cases hstep
        refine ⟨.refused key _, rfl, rfl, rfl, Or.inr ⟨.const nowMs, .refused, ?_, rfl⟩⟩
        simp [KeyedRequest.perform, KeyedTx.opened, hunder, hreject]
      · rename_i hreject
        split at hstep
        · rename_i hreusable
          cases hstep
          refine ⟨.read key _ (some t), rfl, rfl, rfl,
            Or.inr ⟨.const nowMs, .task (some t), ?_, rfl⟩⟩
          simp [KeyedRequest.perform, KeyedTx.opened, hunder, hreject, hreusable]
        · rename_i hdeclined
          rw [Bool.not_eq_true] at hdeclined
          split at hstep
          · rename_i hterminal
            cases hstep
            exact ⟨.free (.settled hkey ht hreject hdeclined hterminal), rfl, rfl, rfl, Or.inl rfl⟩
          · rename_i hlive
            cases hstep
            -- only `replace` declines a live task
            have hreplace : conflict = .replace := by
              by_contra hother
              simp [reusable, hother, hlive] at hdeclined
            subst hreplace
            exact ⟨.declined hpoints, rfl, rfl, rfl, Or.inl rfl⟩

/-- `cancel` of a submit that replaces the task. -/
theorem moved_replace {key id : String} {n : NewTask J} (hpoints : PointsAt db key id) :
    KeyedTx.Moved db { KeyedTx.opened key (.submit .replace n) with phase := .declined id }
      (KeyedTx.cancelRow { KeyedTx.opened key (.submit .replace n) with phase := .declined id } db
        id nowMs) := by
  have hreplace : ∀ t : Task J, reusable .replace t.status = false := fun t => rfl
  have hconflict : Conflict.replace ≠ .reject := by decide
  cases ht : db.get id with
  | none =>
      have hover : ∀ t, db.get id = some t → t.status.isTerminal = true := by
        intro t ht'
        cases ht.symm.trans ht'
      simp only [KeyedTx.cancelRow, cancel_of_over hover, KeyedTx.opened, List.head?_nil]
      exact ⟨.free (.free (hpoints.taskUnder.trans ht)), rfl, rfl, rfl, Or.inl rfl⟩
  | some t =>
      have hid := Database.id_of_get ht
      subst hid
      have hkey := hpoints.getKey ht
      by_cases hterminal : t.status.isTerminal = true
      · simp only [KeyedTx.cancelRow, cancel_of_terminal ht hterminal, KeyedTx.opened,
          List.head?_nil]
        exact ⟨.free (.settled hkey ht hconflict (hreplace t) hterminal), rfl, rfl, rfl, Or.inl rfl⟩
      · have hlive := not_terminal_of_live hterminal
        simp only [KeyedTx.cancelRow, cancel_of_live ht hlive, KeyedTx.opened, List.head?_cons]
        exact ⟨.free (.canceled hkey ht hconflict (hreplace t) hlive), rfl, rfl, rfl, Or.inl rfl⟩

/-- Every statement of a transaction decides on the next, or performs the operation. -/
theorem KeyedTx.Decided.advance {tx tx' : KeyedTx J} (h : tx.Decided db)
    (hstep : tx.advance db nowMs = some tx') : tx.Moved db tx' := by
  cases h with
  | locked key request => exact moved_locked hstep
  | @pointed key id request hpoints =>
      cases request with
      | submit conflict n => exact moved_get hpoints hstep
      | cancelByKey =>
          cases hstep
          exact moved_cancelByKey hpoints
  | declined hpoints =>
      cases hstep
      exact moved_replace hpoints
  | free hclears =>
      simp only [KeyedTx.advance, KeyedTx.opened, Option.ite_none_right_eq_some,
        Option.some.injEq] at hstep
      rcases hstep with ⟨-, rfl⟩
      exact ⟨.inserted hclears nowMs, rfl, rfl, by simp [performed, committed, rolledBack],
        Or.inl (by simp [performed, held])⟩
  | inserted hclears insertMs =>
      cases hstep
      exact ⟨.submitted hclears insertMs nowMs, rfl, rfl, by simp [performed, held],
        Or.inl (by simp [performed, held])⟩
  | submitted | canceled | read | refused => cases hstep

end Own

/-! ### Its commit -/

section Commit

variable {db db' : Database J}

/-- The insert of a submit, and the key it points. -/
theorem insertUnder_of_commit {key : String} {n : NewTask J} {times : KeyedTimes}
    (h : ((db.insertTask? (n.row (times.insertMs + n.delayMs) times.insertMs)).bind fun mid =>
      mid.upsertKey? key (n.row (times.insertMs + n.delayMs) times.insertMs).id times.pointMs) =
        some db') :
    db.insertUnder key n times =
      some (db', .task (some (n.row (times.insertMs + n.delayMs) times.insertMs))) := by
  rcases Option.bind_eq_some_iff.mp h with ⟨mid, hinsert, hupsert⟩
  simp only [Database.insertUnder, hinsert, Option.bind_some, hupsert, Option.map_some]

/-- The commit of a submit does what the submit does in one step. -/
theorem perform_of_clears {key : String} {conflict : Conflict} {n : NewTask J}
    {canceledRow : Option (Task J)} (h : Clears db key conflict canceledRow)
    {insertMs pointMs : Int}
    (hcommit : KeyedTx.commit
      { KeyedTx.opened key (.submit conflict n) with
        phase := .done (some (n.row (insertMs + n.delayMs) insertMs))
        canceledRow := canceledRow
        insertedRow := some (n.row (insertMs + n.delayMs) insertMs)
        pointedAtMs := some pointMs } db = some db') :
    ∃ times, (KeyedRequest.submit conflict n).perform key times db =
      some (db', .task (some (n.row (insertMs + n.delayMs) insertMs))) := by
  cases h with
  | free hfree =>
      refine ⟨⟨0, insertMs, pointMs⟩, ?_⟩
      simp only [KeyedRequest.perform, hfree]
      exact insertUnder_of_commit hcommit
  | @settled t hkey ht hconflict hdeclined hterminal =>
      refine ⟨⟨0, insertMs, pointMs⟩, ?_⟩
      simp only [KeyedRequest.perform, Database.taskUnder, hkey, Option.bind_some, ht, hconflict,
        hdeclined, cancel_of_terminal ht hterminal, if_false, Bool.false_eq_true]
      exact insertUnder_of_commit hcommit
  | @canceled t nowMs hkey ht hconflict hdeclined hlive =>
      refine ⟨⟨nowMs, insertMs, pointMs⟩, ?_⟩
      simp only [KeyedRequest.perform, Database.taskUnder, hkey, Option.bind_some, ht, hconflict,
        hdeclined, cancel_of_live ht hlive, if_false, Bool.false_eq_true]
      exact insertUnder_of_commit hcommit

/-- A commit makes visible what the operation does in one step, or nothing if it was performed
before. -/
theorem KeyedTx.Decided.commit {tx : KeyedTx J} (h : tx.Decided db) {reply : Option (Task J)}
    (hphase : tx.phase = .done reply) (hcommit : tx.commit db = some db') :
    (tx.performed = [⟨tx.key, tx.request, .task reply⟩] ∧ db' = db) ∨
      (tx.performed = [] ∧
        ∃ times, tx.request.perform tx.key times db = some (db', .task reply)) := by
  cases h with
  | locked | pointed | declined | free | inserted | refused => cases hphase
  | submitted hclears insertMs pointMs =>
      cases hphase
      exact Or.inr ⟨by simp [performed, held], perform_of_clears hclears hcommit⟩
  | canceled hkey ht hlive nowMs =>
      cases hphase
      cases hcommit
      refine Or.inr ⟨by simp [performed, held], ⟨nowMs, 0, 0⟩, ?_⟩
      simp [KeyedRequest.perform, opened, hkey, cancel_of_live ht hlive, putCanceled]
  | read key request reply =>
      cases hphase
      cases hcommit
      exact Or.inl ⟨rfl, rfl⟩

end Commit

/-! ## Others stay outside -/

section Others

variable {d : Dialect} {s : KeyState J} {tx : KeyedTx J}

theorem outside_statement {nowMs : Int} {st : Statement J} (hunkeyed : st.unkeyed = true)
    (hwaits : s.waits st = false) (hexclusive : d.exclusive = true → s.txs.rows = [])
    (htx : tx ∈ s.txs.rows)
    (hnew : ∀ id, s.newId? (.statement nowMs st) = some id → tx.aim? ≠ some id) :
    Outside s.db (exec d s.heldRows nowMs st s.db).1 tx where
  key := by
    have hpoints : ∀ key taskId, st ≠ .upsertKey key taskId := fun _ _ h => by
      simp [h, Statement.unkeyed] at hunkeyed
    rw [exec_eq, Postgres.exec_getKey _ _ _ hpoints]
    cases hkey : s.db.getKey tx.key with
    | none => exact Or.inl rfl
    | some id =>
        cases hgone : (Postgres.exec (d.locked s.heldRows) nowMs st s.db).1.get id with
        | none =>
            refine Or.inr ⟨by simp [hgone], fun id' hid' => ?_⟩
            cases hid'
            exact hgone
        | some t => exact Or.inl (by simp [hgone])
  settled id t ht hterminal := by
    rw [exec_eq]
    cases ht' : (Postgres.exec (d.locked s.heldRows) nowMs st s.db).1.get id with
    | none => exact Or.inl rfl
    | some t' =>
        rcases Postgres.exec_get_some ht' with ⟨hsame, -⟩ | ⟨r, hr, heff, -⟩ | ⟨hnone, -⟩
        · exact Or.inr (hsame.symm.trans ht)
        · cases ht.symm.trans hr
          rcases heff.of_terminal hterminal with ⟨-, _, rfl⟩
          cases hunkeyed
        · cases ht.symm.trans hnone
  aim id haim hnone := by
    rw [exec_eq]
    cases ht' : (Postgres.exec (d.locked s.heldRows) nowMs st s.db).1.get id with
    | none => rfl
    | some t' =>
        rcases Postgres.exec_get_some ht' with ⟨hsame, -⟩ | ⟨r, hr, -⟩ | ⟨-, ⟨n, rfl, rfl⟩, -⟩
        · cases hnone.symm.trans hsame
        · cases hnone.symm.trans hr
        · exact absurd haim (hnew id (congrArg some (Database.id_of_get ht')))
  held id hid := get_exec_of_held hwaits hexclusive htx hid

theorem outside_commit {db' : Database J} {other : KeyedTx J} (h : KeyInvariant s)
    (hother : other ∈ s.txs.rows) (htx : tx ∈ s.txs.rows) (hne : tx.key ≠ other.key)
    (hcommit : other.commit s.db = some db')
    (hnew : ∀ id, s.newId? (.commit other.key) = some id → tx.aim? ≠ some id) :
    Outside s.db db' tx where
  key := by
    rcases KeyedTx.getKey_commit hcommit tx.key with ⟨-, -, -, hkey, -⟩ | ⟨-, hsame⟩
    · exact absurd hkey.symm hne
    · exact Or.inl hsame
  settled id t ht hterminal := by
    have hinv := h.txs other hother
    rcases KeyedTx.get_commit hcommit id with ⟨row, hrow, -, rfl, -⟩ | hsame
    · cases ht.symm.trans (hinv.inserted row hrow).1
    · rcases other.get_putCanceled s.db id with hget | ⟨row, hrow, rfl, -⟩
      · exact Or.inr (hsame.trans (hget.trans ht))
      · rcases hinv.canceled row hrow with ⟨r, -, hr, hlive, -⟩
        cases ht.symm.trans hr
        rcases hlive with hstatus | hstatus <;> rw [hstatus] at hterminal <;> cases hterminal
  aim id haim hnone := by
    rcases KeyedTx.get_commit hcommit id with ⟨row, hrow, -, rfl, -⟩ | hsame
    · refine absurd haim (hnew row.id ?_)
      simp [KeyState.newId?, KeyedTable.find?_of_mem hother, hrow]
    · rcases other.get_putCanceled s.db id with hget | ⟨row, hrow, rfl, -⟩
      · exact hsame.trans (hget.trans hnone)
      · rcases (h.txs other hother).canceled row hrow with ⟨r, -, hr, -⟩
        cases hnone.symm.trans hr
  held := (foreign_commit h hother htx hne hcommit).held

end Others

/-! ## Accounts of a key -/

/-- The operations of one key: those answered and the one performed by an open transaction are, in
order, among those the serial store performed, and these and the one not yet performed are among
those begun. -/
structure KeyTally (answered answers : List (KeyedAnswer J)) (begun : List (KeyedRequest J))
    (open? : Option (KeyedTx J)) : Prop where
  answered : (answered ++ open?.toList.flatMap KeyedTx.performed).Sublist answers
  begun : (answers.map KeyedAnswer.request ++ open?.toList.flatMap fun tx =>
    if tx.performed.isEmpty then [tx.request] else []).Sublist begun

namespace KeyTally

variable {answered answers : List (KeyedAnswer J)} {begun : List (KeyedRequest J)}
  {tx tx' : KeyedTx J} {answer : KeyedAnswer J}

theorem start : KeyTally ([] : List (KeyedAnswer J)) [] [] none :=
  ⟨List.Sublist.refl _, List.Sublist.refl _⟩

theorem opens (h : KeyTally answered answers begun none) (hperformed : tx.performed = []) :
    KeyTally answered answers (begun ++ [tx.request]) (some tx) where
  answered := by simpa [hperformed] using h.answered
  begun := by
    have hbegun := h.begun
    rw [Option.toList_none, List.flatMap_nil, List.append_nil] at hbegun
    simpa [hperformed] using hbegun.append (List.Sublist.refl [tx.request])

theorem moves (h : KeyTally answered answers begun (some tx)) (hbefore : tx.performed = [])
    (hafter : tx'.performed = []) (hrequest : tx'.request = tx.request) :
    KeyTally answered answers begun (some tx') where
  answered := by simpa [hbefore, hafter] using h.answered
  begun := by simpa [hbefore, hafter, hrequest] using h.begun

theorem performs (h : KeyTally answered answers begun (some tx)) (hbefore : tx.performed = [])
    (hafter : tx'.performed = [answer]) (hrequest : answer.request = tx.request) :
    KeyTally answered (answers ++ [answer]) begun (some tx') where
  answered := by
    have hanswered := h.answered
    simp only [Option.toList_some, List.flatMap_singleton, hbefore, List.append_nil] at hanswered
    simpa [hafter] using hanswered.append (List.Sublist.refl [answer])
  begun := by simpa [hbefore, hafter, hrequest] using h.begun

/-- A transaction whose operation was performed ends, with its answer or without. -/
theorem ends (h : KeyTally answered answers begun (some tx)) {given : List (KeyedAnswer J)}
    (hgiven : given.Sublist tx.performed) : KeyTally (answered ++ given) answers begun none where
  answered := by
    have hanswered := h.answered
    simp only [Option.toList_some, List.flatMap_singleton] at hanswered
    simpa using ((List.Sublist.refl answered).append hgiven).trans hanswered
  begun := by
    simpa using (List.sublist_append_left _ _).trans h.begun

/-- A transaction performs its operation as it ends. -/
theorem commits (h : KeyTally answered answers begun (some tx)) (hbefore : tx.performed = [])
    (hrequest : answer.request = tx.request) :
    KeyTally (answered ++ [answer]) (answers ++ [answer]) begun none where
  answered := by
    have hanswered := h.answered
    simp only [Option.toList_some, List.flatMap_singleton, hbefore, List.append_nil] at hanswered
    simpa using hanswered.append (List.Sublist.refl [answer])
  begun := by simpa [hbefore, hrequest] using h.begun

end KeyTally

/-! ## The match -/

/-- The two stores hold the same rows, the transactions have decided rightly, and every key has its
accounts. -/
structure Matches (h : KeyedHistory J) (t : SerialState J) : Prop where
  db : t.db = h.state.db
  keys : KeyInvariant h.state
  decided : ∀ tx ∈ h.state.txs.rows, tx.Decided h.state.db
  tally : ∀ key, KeyTally (h.answered.filter fun a => a.key = key)
    (t.answers.filter fun a => a.key = key) ((h.begun.filter fun b => b.1 = key).map Prod.snd)
    (h.state.txs.find? key)

theorem matches_fresh : Matches (KeyedHistory.fresh (J := J)) SerialState.fresh where
  db := rfl
  keys := KeyInvariant.fresh
  decided _ htx := nomatch htx
  tally _ := .start

section Match

variable {d : Dialect} {h : KeyedHistory J} {t : SerialState J}

/-- One more answer, in the accounts of its key and in no other. -/
theorem filter_key_concat (answers : List (KeyedAnswer J)) (answer : KeyedAnswer J) (key : String) :
    (answers ++ [answer]).filter (fun a => a.key = key) =
      (answers.filter fun a => a.key = key) ++ if answer.key = key then [answer] else [] := by
  by_cases hkey : answer.key = key <;> simp [hkey]

theorem Matches.statement (hm : Matches h t) {nowMs : Int} {st : Statement J}
    (hunkeyed : st.unkeyed = true) (hwaits : h.state.waits st = false)
    (hexclusive : d.exclusive = true → h.state.txs.rows = [])
    (hnew : NewIds h (.statement nowMs st)) {s : KeyState J} (hkeys : KeyInvariant s)
    (hdb : s.db = (exec d h.state.heldRows nowMs st h.state.db).1)
    (htxs : s.txs = h.state.txs) :
    ∃ t', (serialized d).Steps anyStep t [.statement h.state.heldRows nowMs st] t' ∧
      Matches { h with state := s } t' := by
  refine ⟨{ t with db := (exec d h.state.heldRows nowMs st t.db).1 },
    .single trivial (by simp [serialized, hunkeyed]), ?_⟩
  refine ⟨by rw [hm.db, hdb], hkeys, fun tx htx => ?_, fun key => ?_⟩
  · rw [htxs] at htx
    rw [hdb]
    exact (hm.decided tx htx).of_outside (outside_statement hunkeyed hwaits hexclusive htx
      fun id hid => hnew id hid tx htx)
  · rw [htxs]
    exact hm.tally key

theorem Matches.begin (hm : Matches h t) {key : String} {request : KeyedRequest J}
    {txs : KeyedTable (KeyedTx.key (J := J))}
    (hinsert : h.state.txs.insert? (KeyedTx.opened key request) = some txs)
    (hkeys : KeyInvariant { h.state with txs := txs }) :
    Matches
      { h with
        state := { h.state with txs := txs }
        begun := h.begun ++ [(key, request)] } t := by
  refine ⟨hm.db, hkeys, fun tx htx => ?_, fun key' => ?_⟩
  · rcases (KeyedTable.mem_insert? hinsert).mp htx with htx | rfl
    · exact hm.decided tx htx
    · exact .locked key request
  · have hold := hm.tally key'
    show KeyTally _ _ _ (txs.find? key')
    rw [KeyedTable.find?_insert? hinsert]
    by_cases hkey : key = key'
    · subst hkey
      have hfree : h.state.txs.find? key = none := by
        have hsome : h.state.txs.insert? (KeyedTx.opened key request) ≠ none := by simp [hinsert]
        rw [Ne, KeyedTable.insert?_eq_none_iff] at hsome
        simpa [KeyedTx.opened] using hsome
      rw [hfree] at hold
      have hopens := hold.opens (show (KeyedTx.opened key request).performed = [] from rfl)
      simpa [KeyedTx.opened] using hopens
    · simpa [KeyedTx.opened, hkey] using hold

theorem Matches.advance (hm : Matches h t) {key : String} {nowMs : Int} {tx tx' : KeyedTx J}
    (htx : h.state.txs.find? key = some tx) (hadvance : tx.advance h.state.db nowMs = some tx')
    {txs : KeyedTable (KeyedTx.key (J := J))}
    (htxs : txs = h.state.txs.updateWhere (fun r => r.key = tx'.key) (KeyedTable.replaceWith tx'))
    (hkeys : KeyInvariant { h.state with txs := txs }) :
    ∃ block t', Linearized (.advance key nowMs) block ∧
      (serialized d).Steps anyStep t block t' ∧
      Matches { h with state := { h.state with txs := txs } } t' := by
  rcases KeyedTable.find?_eq_some_iff.mp htx with ⟨hmem, rfl⟩
  have hmoved := (hm.decided tx hmem).advance hadvance
  have hdecided : ∀ other ∈ txs.rows, other.Decided h.state.db := by
    intro other hother
    rw [htxs] at hother
    rcases KeyedTable.mem_replaceWith hother with rfl | ⟨hother, -⟩
    · exact hmoved.decided
    · exact hm.decided other hother
  have hfind : ∀ key', txs.find? key' = if tx.key = key' then some tx' else
      h.state.txs.find? key' := by
    intro key'
    rw [htxs, KeyedTable.find?_replaceWith, hmoved.key]
    split
    · rename_i hkey
      rw [← hkey, htx, Option.map_some]
    · rfl
  rcases hmoved.after with hafter | ⟨times, reply, hperform, hafter⟩
  · refine ⟨[], t, .decided _ _, .nil t, hm.db, hkeys, hdecided, fun key' => ?_⟩
    show KeyTally _ _ _ (txs.find? key')
    have hold := hm.tally key'
    rw [hfind]
    split
    · rename_i hkey
      rw [← hkey, htx] at hold
      rw [← hkey]
      exact hold.moves hmoved.before hafter hmoved.request
    · exact hold
  · refine ⟨[.operation tx.key tx.request times],
      { t with answers := t.answers ++ [⟨tx.key, tx.request, reply⟩] }, .read _ _ _ _,
      .single trivial ?_, hm.db, hkeys, hdecided, fun key' => ?_⟩
    · rw [← hm.db] at hperform
      simp [serialized, hperform]
    · show KeyTally _ _ _ (txs.find? key')
      have hold := hm.tally key'
      rw [hfind, filter_key_concat]
      split
      · rename_i hkey
        rw [← hkey, htx] at hold
        rw [← hkey]
        exact hold.performs hmoved.before hafter rfl
      · rw [List.append_nil]
        exact hold

/-- A transaction on a key is no longer open. -/
theorem find?_ended (txs : KeyedTable (KeyedTx.key (J := J))) (key key' : String) :
    (txs.deleteWhere fun r => r.key = key).find? key' =
      if key = key' then none else txs.find? key' := by
  rw [KeyedTable.find?_deleteWhere]
  cases hfind : txs.find? key' with
  | none => simp
  | some tx =>
      have hkey := KeyedTable.key_of_find? hfind
      by_cases hsame : key = key'
      · simp [hsame, hkey]
      · have hne : tx.key ≠ key := fun h => hsame (h.symm.trans hkey)
        simp [hsame, hne]

theorem Matches.commit (hm : Matches h t) {key : String} {tx : KeyedTx J}
    {reply : Option (Task J)} {db' : Database J} (htx : h.state.txs.find? key = some tx)
    (hphase : tx.phase = .done reply) (hcommit : tx.commit h.state.db = some db')
    (hnew : NewIds h (.commit key)) {s : KeyState J} (hkeys : KeyInvariant s) (hdb : s.db = db')
    (htxs : s.txs = h.state.txs.deleteWhere fun r => r.key = key) :
    ∃ block t', Linearized (.commit key) block ∧ (serialized d).Steps anyStep t block t' ∧
      Matches
        { h with state := s, answered := h.answered ++ [⟨key, tx.request, .task reply⟩] } t' := by
  rcases KeyedTable.find?_eq_some_iff.mp htx with ⟨hmem, rfl⟩
  have hdecided : ∀ other ∈ s.txs.rows, other.Decided s.db := by
    intro other hother
    rw [htxs] at hother
    rcases KeyedTable.mem_deleteWhere.mp hother with ⟨hother, hne⟩
    rw [hdb]
    exact (hm.decided other hother).of_outside (outside_commit hm.keys hmem hother
      (of_decide_eq_false hne) hcommit fun id hid => hnew id hid other hother)
  rcases (hm.decided tx hmem).commit hphase hcommit with
    ⟨hperformed, rfl⟩ | ⟨hbefore, times, hperform⟩
  · refine ⟨[], t, .answered _, .nil t, by rw [hm.db, hdb], hkeys, hdecided, fun key' => ?_⟩
    show KeyTally _ _ _ (s.txs.find? key')
    have hold := hm.tally key'
    rw [htxs, find?_ended, filter_key_concat]
    split
    · rename_i hkey
      rw [← hkey, htx] at hold
      rw [← hkey]
      refine hold.ends ?_
      rw [hperformed]
    · rw [List.append_nil]
      exact hold
  · refine ⟨[.operation tx.key tx.request times],
      { db := db', answers := t.answers ++ [⟨tx.key, tx.request, .task reply⟩] }, .written _ _ _,
      .single trivial ?_, hdb.symm, hkeys, hdecided, fun key' => ?_⟩
    · rw [← hm.db] at hperform
      simp [serialized, hperform]
    · show KeyTally _ _ _ (s.txs.find? key')
      have hold := hm.tally key'
      rw [htxs, find?_ended, filter_key_concat, filter_key_concat]
      split
      · rename_i hkey
        rw [← hkey, htx] at hold
        rw [← hkey]
        exact hold.commits hbefore rfl
      · rw [List.append_nil, List.append_nil]
        exact hold

/-- A refused operation has been performed when it is rolled back. -/
theorem KeyedTx.Decided.rolledBack_sublist {db : Database J} {tx : KeyedTx J}
    (hdecided : tx.Decided db) : tx.rolledBack.Sublist tx.performed := by
  cases hdecided with
  | refused key request => exact List.Sublist.refl _
  | _ => exact List.nil_sublist _

theorem Matches.rollback (hm : Matches h t) {key : String} {tx : KeyedTx J}
    (htx : h.state.txs.find? key = some tx)
    {txs : KeyedTable (KeyedTx.key (J := J))}
    (htxs : txs = h.state.txs.deleteWhere fun r => r.key = key)
    (hkeys : KeyInvariant { h.state with txs := txs }) :
    Matches
      { h with state := { h.state with txs := txs }, answered := h.answered ++ tx.rolledBack }
      t := by
  rcases KeyedTable.find?_eq_some_iff.mp htx with ⟨hmem, rfl⟩
  refine ⟨hm.db, hkeys, fun other hother => ?_, fun key' => ?_⟩
  · have hother' : other ∈ txs.rows := hother
    rw [htxs] at hother'
    exact hm.decided other (KeyedTable.mem_deleteWhere.mp hother').1
  · show KeyTally _ _ _ (txs.find? key')
    have hold := hm.tally key'
    have hgiven : ∀ a ∈ tx.rolledBack, a.key = tx.key := by
      intro a ha
      unfold KeyedTx.rolledBack at ha
      split at ha
      · rw [List.mem_singleton.mp ha]
      · cases ha
    rw [htxs, find?_ended, List.filter_append]
    split
    · rename_i hkey
      have hall : (tx.rolledBack.filter fun a => a.key = key') = tx.rolledBack :=
        List.filter_eq_self.mpr fun a ha => decide_eq_true ((hgiven a ha).trans hkey)
      rw [← hkey, htx] at hold
      rw [hall, ← hkey]
      exact hold.ends (hm.decided tx hmem).rolledBack_sublist
    · rename_i hkey
      have hnone : (tx.rolledBack.filter fun a => a.key = key') = [] :=
        List.filter_eq_nil_iff.mpr fun a ha => by simpa [hgiven a ha] using hkey
      rw [hnone, List.append_nil]
      exact hold

/-- Every step is matched by at most one step of the serial store. -/
theorem Matches.step {h' : KeyedHistory J} {l : KeyedStep J} (hm : Matches h t) (hnew : NewIds h l)
    (hstep : observed d h l = some h') :
    ∃ block t', Linearized l block ∧ (serialized d).Steps anyStep t block t' ∧ Matches h' t' := by
  rcases Option.map_eq_some_iff.mp hstep with ⟨s, hs, rfl⟩
  have hkeys := hm.keys.step hs
  cases l with
  | statement nowMs st =>
      simp only [KeyedStep.begins, KeyState.answers, List.append_nil]
      simp only [keyed] at hs
      split at hs
      · rename_i hguard
        cases hs
        rcases hm.statement hguard.1 hguard.2.1 hguard.2.2 hnew hkeys rfl rfl with
          ⟨t', hsteps, hmatch⟩
        exact ⟨_, t', .statement h.state.heldRows nowMs st, hsteps, hmatch⟩
      · cases hs
  | begin key request =>
      simp only [KeyedStep.begins, KeyState.answers, List.append_nil]
      simp only [keyed] at hs
      split at hs
      · rcases Option.map_eq_some_iff.mp hs with ⟨txs, hinsert, rfl⟩
        exact ⟨[], t, .begun key request, .nil t, hm.begin hinsert hkeys⟩
      · cases hs
  | advance key nowMs =>
      simp only [KeyedStep.begins, KeyState.answers, List.append_nil]
      rcases Option.bind_eq_some_iff.mp hs with ⟨tx, htx, hrest⟩
      rcases Option.bind_eq_some_iff.mp hrest with ⟨tx', hadvance, hs⟩
      split at hs
      · cases hs
        exact hm.advance htx hadvance rfl hkeys
      · cases hs
  | commit key =>
      rcases Option.bind_eq_some_iff.mp hs with ⟨tx, htx, hrest⟩
      split at hrest
      · rename_i reply hphase
        rcases Option.bind_eq_some_iff.mp hrest with ⟨db', hcommit, hs⟩
        cases hs
        have hgiven : h.state.answers (.commit key) = [⟨key, tx.request, .task reply⟩] := by
          simp [KeyState.answers, htx, KeyedTx.committed, hphase,
            (KeyedTable.find?_eq_some_iff.mp htx).2]
        simp only [KeyedStep.begins, List.append_nil, hgiven]
        exact hm.commit htx hphase hcommit hnew hkeys rfl rfl
      · cases hrest
  | rollback key =>
      rcases Option.bind_eq_some_iff.mp hs with ⟨tx, htx, hs⟩
      cases hs
      have hgiven : h.state.answers (.rollback key) = tx.rolledBack := by
        simp [KeyState.answers, htx]
      simp only [KeyedStep.begins, List.append_nil, hgiven]
      exact ⟨[], t, .rolledBack key, .nil t, hm.rollback htx rfl hkeys⟩

end Match

/-! ## Linearizability -/

/-- Keyed operations are linearizable.  A run of keyed transactions next to everybody's statements,
retries left out, is matched by a run of the serial store that executes the same statements and
performs each keyed operation within its transaction: after any number of steps the two stores
hold the same rows, and for every key the operations answered are, in order and with their
answers, among those performed, which are among those begun. -/
theorem keyed_linearizable {d : Dialect} {ls : List (KeyedStep J)} {h : KeyedHistory J}
    (hsteps : (observed d).Steps NewIds KeyedHistory.fresh ls h) :
    ∃ blocks : List (List (SerialStep J)), List.Forall₂ Linearized ls blocks ∧
      ∀ k, ∃ u v, (observed d).Steps NewIds KeyedHistory.fresh (ls.take k) u ∧
        (serialized d).Steps anyStep SerialState.fresh (blocks.take k).flatten v ∧
        v.db = u.state.db ∧
        ∀ key, (u.answered.filter fun a => a.key = key).Sublist
            (v.answers.filter fun a => a.key = key) ∧
          ((v.answers.filter fun a => a.key = key).map KeyedAnswer.request).Sublist
            ((u.begun.filter fun b => b.1 = key).map Prod.snd) := by
  have hmatch : ∀ (u : KeyedHistory J) (v : SerialState J) l u', Matches u v → NewIds u l →
      observed d u l = some u' →
      ∃ block v', Linearized l block ∧ (serialized d).Steps anyStep v block v' ∧ Matches u' v' :=
    fun u v l u' hm hnew hstep => hm.step hnew hstep
  rcases Machine.Steps.blocks hmatch hsteps matches_fresh with ⟨blocks, hall, hprefix⟩
  refine ⟨blocks, hall, fun k => ?_⟩
  rcases hprefix k with ⟨u, v, hu, hv, hm⟩
  refine ⟨u, v, hu, hv, hm.db, fun key => ⟨?_, ?_⟩⟩
  · exact (List.sublist_append_left _ _).trans (hm.tally key).answered
  · exact (List.sublist_append_left _ _).trans (hm.tally key).begun

/-- The recovery that comes between the cancel and the insert of a replacement comes before all of
it in the serial store. -/
theorem keyed_linearizable_replacedRun :
    (observed .postgres).admits NewIds KeyedHistory.fresh replacedRun = true ∧
      ∃ blocks : List (List (SerialStep Nat)), List.Forall₂ Linearized replacedRun blocks ∧
        ∃ v, (serialized .postgres).Steps anyStep SerialState.fresh blocks.flatten v ∧
          v.db.getKey "k" = some "b" ∧ (v.answers.filter fun a => a.key = "k").length = 2 := by
  have hadmits : (observed .postgres).admits NewIds KeyedHistory.fresh replacedRun = true := rfl
  have hsteps := Machine.steps_of_admits hadmits
  rcases keyed_linearizable hsteps with ⟨blocks, hall, hprefix⟩
  rcases hprefix replacedRun.length with ⟨u, v, hu, hv, hdb, haccounts⟩
  rw [List.take_length] at hu
  have hend : u = (observed .postgres).drive KeyedHistory.fresh replacedRun := hu.unique hsteps
  rw [List.take_of_length_le (Nat.le_of_eq hall.length_eq.symm)] at hv
  rcases haccounts "k" with ⟨hanswered, hbegun⟩
  have hanswers := hanswered.length_le
  have hperformed := hbegun.length_le
  rw [List.length_map, List.length_map] at hperformed
  rw [hend] at hanswers hperformed
  refine ⟨hadmits, blocks, hall, v, hv, ?_, Nat.le_antisymm hperformed hanswers⟩
  rw [hdb, hend]
  rfl

end CairnQ
