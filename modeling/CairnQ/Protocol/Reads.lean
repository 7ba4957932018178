import CairnQ.Protocol.Runs

/-!
# Reading the depth of a queue

The read behind backpressure, and which statements can make what it counts grow.
A queue's depth is the number of its rows with status queued.  Apart from an insert
into the queue, only a statement that puts a task back in line adds to it: a
recovery, a retry, or a failure with attempts left.

Main results:

- Theorem `depth_step_le`: no other statement adds to the depth.
- Theorem `depth_insert`: an insert adds one row, or none when its id is taken.
-/

namespace CairnQ

open Relational Transition

variable {J : Type}

/-- `queue = :queue and status = 'queued'`. -/
def queuedOn (queue : String) (t : Task J) : Bool :=
  decide (t.queue = queue) && decide (t.status = .queued)

/-- The number of queued rows of a queue. -/
def Database.depth (db : Database J) (queue : String) : Nat :=
  db.tasks.rows.countP (queuedOn queue)

/-- `queue_depth.sql`: the headroom under {lit}`maxDepth`, from a scan bounded by it. -/
def queueDepth (queue : String) (maxDepth : Nat) (db : Database J) : Nat :=
  maxDepth - ((db.tasks.rows.filter (queuedOn queue)).take maxDepth).length

theorem queueDepth_eq (queue : String) (maxDepth : Nat) (db : Database J) :
    queueDepth queue maxDepth db = maxDepth - db.depth queue := by
  rw [queueDepth, List.length_take, Database.depth, List.countP_eq_length_filter]
  omega

/-- The statements that can put a task of the table back in line. -/
def Statement.requeues : Statement J → Bool
  | .recoverLeases _ | .retry _ _ => true
  | .owned _ _ (.fail _ retryable _) => retryable
  | _ => false

/-- The statements that can add to the depth of a queue. -/
def Statement.fills (queue : String) : Statement J → Bool
  | .insertTask n => decide (n.queue = queue)
  | st => st.requeues

/-- A statement that does not requeue leaves a row queued only where it was. -/
theorem Effect.queuedOn_of_queuedOn {nowMs : Int} {st : Statement J} {t t' : Task J}
    {queue : String} (heff : Effect nowMs st t t') (hst : st.requeues = false)
    (h : queuedOn queue t' = true) : queuedOn queue t = true := by
  have hqueued : t'.status = .queued := by
    simp only [queuedOn, Bool.and_eq_true, decide_eq_true_eq] at h
    exact h.2
  cases heff with
  | claimed _ => cases hqueued
  | recovered _ => cases hst
  | @written workerId write t howned =>
      cases write with
      | heartbeat leaseMs => exact h
      | progress value message => exact h
      | complete result =>
          simp only [OwnedWrite.setList, setComplete] at hqueued
          split at hqueued <;> cases hqueued
      | succeed result message => cases hqueued
      | fail error retryable delayMs =>
          have hno : retryable = false := hst
          simp only [OwnedWrite.setList, setFail, hno, Bool.false_and, Bool.false_eq_true,
            if_false] at hqueued
          split at hqueued <;> cases hqueued
  | renewed _ _ => exact h
  | @canceled t hlive =>
      rcases hlive with hstatus | hstatus
      · simp [setCancel, hstatus] at hqueued
      · simp [setCancel, hstatus] at hqueued
  | retried _ => cases hst

/-- No statement adds to the depth of a queue but those that fill it. -/
theorem Postgres.depth_exec_le {locked : String → Bool} {nowMs : Int} {st : Statement J}
    {db : Database J} {queue : String} (hst : st.fills queue = false) :
    (Postgres.exec locked nowMs st db).1.depth queue ≤ db.depth queue := by
  by_cases hupdates : st.updates = true ∧ ∀ key taskId, st ≠ .upsertKey key taskId
  · rcases hupdates with ⟨hupdates, hkey⟩
    have hno : st.requeues = false := by
      cases st with
      | insertTask n => cases hupdates
      | _ => exact hst
    have hrows : (Postgres.exec locked nowMs st db).1 =
        db.updateTasks (st.selects locked nowMs db) (st.assigns nowMs) := by
      rcases Postgres.exec_eq_updateReturning locked nowMs db hupdates hkey with h | h <;>
        rw [h] <;> rfl
    rw [hrows]
    refine KeyedTable.countP_updateWhere_le fun t ht hsel hqueued => ?_
    have hget : db.get t.id = some t := KeyedTable.find?_of_mem ht
    exact (Statement.effect_of_selects hget hsel).queuedOn_of_queuedOn hno hqueued
  · cases st with
    | insertTask n =>
        rcases Postgres.exec_insertTask locked nowMs n db with ⟨-, db', hinsert, hexec⟩ |
          ⟨-, hexec⟩
        · rw [hexec, Database.depth, Database.rows_insertTask? hinsert]
          have hother : n.queue ≠ queue := of_decide_eq_false hst
          simp [Database.depth, queuedOn, NewTask.row, hother]
        · rw [hexec]
    | purge olderThanMs queue' status name limit =>
        exact KeyedTable.countP_deleteWhere_le _ _ _
    | upsertKey key taskId =>
        simp only [Postgres.exec, Postgres.upsertKey]
        cases hupsert : db.upsertKey? key taskId nowMs with
        | none => exact Nat.le_refl _
        | some db' =>
            refine Nat.le_of_eq ?_
            show db'.tasks.rows.countP _ = _
            rw [Database.tasks_upsertKey? hupsert]
            rfl
    | _ => exact absurd ⟨rfl, by simp⟩ hupdates

/-- No statement adds to the depth of a queue but those that fill it. -/
theorem depth_step_le {d : Dialect} {s s' : ProtocolState J} {e : Execution J}
    (hstep : protocol d s e = some s') {queue : String} (hst : e.statement.fills queue = false) :
    s'.db.depth queue ≤ s.db.depth queue := by
  rcases protocol_eq_some_iff.mp hstep with ⟨-, rfl⟩
  simp only [exec_eq]
  exact Postgres.depth_exec_le hst

/-- An insert into the queue adds one row, or none when its id is taken. -/
theorem depth_insert {d : Dialect} {s s' : ProtocolState J} {e : Execution J}
    (hstep : protocol d s e = some s') {n : NewTask J} (hst : e.statement = .insertTask n) :
    s'.db.depth n.queue = s.db.depth n.queue + 1 ∨ s'.db.depth n.queue = s.db.depth n.queue := by
  rcases protocol_eq_some_iff.mp hstep with ⟨-, rfl⟩
  simp only [exec_eq, hst]
  rcases Postgres.exec_insertTask (d.locked e.held) e.nowMs n s.db with ⟨-, db', hinsert, hexec⟩ |
    ⟨-, hexec⟩
  · rw [hexec]
    refine Or.inl ?_
    rw [Database.depth, Database.rows_insertTask? hinsert]
    simp [Database.depth, queuedOn, NewTask.row]
  · rw [hexec]
    exact Or.inr rfl

end CairnQ
