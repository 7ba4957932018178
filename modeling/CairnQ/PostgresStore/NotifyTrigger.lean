import CairnQ.PostgresStore.WakeChannel
import CairnQ.Protocol.Runs

/-!
# The notify trigger

`0003_notify.sql`: the row trigger on `cairnq_tasks` that calls `pg_notify` for the rows a
statement inserts or updates.  It fires for an update only when the statement assigns the
status, whatever the value, and never for a row that is left running.

Main results:

- Theorem `notificationsOf_eq`: what the trigger sends for a row is what its change of status
  calls for.
- Theorem `trigger_announces`: so over any run each terminal entry of a task is announced once.
-/

namespace CairnQ

open Relational Transition

variable {J : Type}

/-! ## The trigger -/

/-- A call of `pg_notify`. -/
structure Notification where
  channel : String
  payload : String
deriving DecidableEq, Repr

/-- What a row trigger is called with: `tg_op`, `old` and `new`. -/
inductive RowWrite (J : Type)
  | inserted (new : Task J)
  | updated (old new : Task J)

/-- `new`. -/
def RowWrite.new : RowWrite J → Task J
  | .inserted new | .updated _ new => new

/-- The function `cairnq_notify`. -/
def cairnqNotify : RowWrite J → List Notification
  | .inserted new => if new.status = .queued then [⟨queuedChannel, new.queue⟩] else []
  | .updated old new =>
      if new.status = .queued ∧ old.status ≠ new.status then [⟨queuedChannel, new.queue⟩]
      else if new.status.isTerminal ∧ ¬old.status.isTerminal then [⟨doneChannel, new.id⟩]
      else []

/-- The write assigns the status of the task. -/
def OwnedWrite.setsStatus : OwnedWrite J → Bool
  | .complete _ | .succeed _ _ | .fail _ _ _ => true
  | .heartbeat _ | .progress _ _ => false

/-- `insert or update of status`: the events the trigger is declared for. -/
def Statement.setsStatus : Statement J → Bool
  | .insertTask _ | .claim _ _ _ _ | .recoverLeases _ | .cancel _ | .retry _ _ => true
  | .owned _ _ write => write.setsStatus
  | .heartbeatBatch _ _ _ | .purge _ _ _ _ _ | .upsertKey _ _ => false

/-- The trigger `cairnq_tasks_notify`, with its `when (new.status is distinct from 'running')`. -/
def notifyTrigger (st : Statement J) (w : RowWrite J) : List Notification :=
  if st.setsStatus ∧ w.new.status ≠ .running then cairnqNotify w else []

/-- The rows of `cairnq_tasks` that a statement inserts or updates, one write for each. -/
def Statement.writes (locked : String → Bool) (nowMs : Int) (db : Database J)
    (st : Statement J) : List (RowWrite J) :=
  match st with
  | .insertTask n =>
      if (db.get n.id).isSome then [] else [.inserted (n.row (nowMs + n.delayMs) nowMs)]
  | st => (db.tasks.rows.filter (st.selects locked nowMs db)).map fun t =>
      .updated t ((st.assigns nowMs).set t)

/-- What an execution sends. -/
def Execution.notifications (db : Database J) (e : Execution J) : List Notification :=
  (e.statement.writes e.held e.nowMs db).flatMap (notifyTrigger e.statement)

/-- What an execution sends for the row of an id. -/
def Execution.notificationsOf (db : Database J) (e : Execution J) (id : String) :
    List Notification :=
  ((e.statement.writes e.held e.nowMs db).filter fun w => decide (w.new.id = id)).flatMap
    (notifyTrigger e.statement)

/-! ## What is to be announced -/

/-- What the change of a row calls for: its queue is told when it becomes queued, and its id when
its status goes from one that is not terminal to one that is. -/
def announcement (old new : Option (Task J)) : List Notification :=
  match old, new with
  | none, some new => if new.status = .queued then [⟨queuedChannel, new.queue⟩] else []
  | some old, some new =>
      if old.status ≠ .queued ∧ new.status = .queued then [⟨queuedChannel, new.queue⟩]
      else if old.status.isTerminal = false ∧ new.status.isTerminal = true then
        [⟨doneChannel, new.id⟩]
      else []
  | _, none => []

theorem announcement_self (row : Option (Task J)) : announcement row row = [] := by
  cases row with
  | none => rfl
  | some t =>
      simp only [announcement]
      rw [if_neg (fun h => h.1 h.2), if_neg (fun h => by simp [h.1] at h)]

/-- A row whose status stays is not announced. -/
theorem announcement_of_status {old new : Task J} (h : new.status = old.status) :
    announcement (some old) (some new) = [] := by
  simp only [announcement, h]
  rw [if_neg (fun h => h.1 h.2), if_neg (fun h => by simp [h.1] at h)]

/-- An updated row that is left running calls for nothing. -/
theorem announcement_of_running {old new : Task J} (h : new.status = .running) :
    announcement (some old) (some new) = [] := by
  simp [announcement, h, TaskStatus.isTerminal]

/-- The function sends what the change calls for. -/
theorem cairnqNotify_updated (old new : Task J) :
    cairnqNotify (.updated old new) = announcement (some old) (some new) := by
  simp only [cairnqNotify, announcement, Bool.not_eq_true]
  by_cases hqueued : new.status = .queued
  · simp [hqueued, TaskStatus.isTerminal]
  · simp [hqueued, and_comm]

/-- A statement that does not assign the status keeps it. -/
theorem Statement.status_assigns {st : Statement J} (h : st.setsStatus = false) (nowMs : Int)
    (t : Task J) : ((st.assigns nowMs).set t).status = t.status := by
  cases st with
  | owned id workerId write =>
      cases write with
      | heartbeat leaseMs => rfl
      | progress value message => rfl
      | complete result => cases h
      | succeed result message => cases h
      | fail error retryable delayMs => cases h
  | heartbeatBatch ids workerId leaseMs => rfl
  | purge olderThanMs queue status name limit => rfl
  | upsertKey key taskId => rfl
  | insertTask n => cases h
  | claim filter workerId leaseMs limit => cases h
  | recoverLeases error => cases h
  | cancel id => cases h
  | retry id resetAttempt => cases h

/-- The trigger sends what the update of a row calls for. -/
theorem notifyTrigger_updated (st : Statement J) (nowMs : Int) (t : Task J) :
    notifyTrigger st (.updated t ((st.assigns nowMs).set t)) =
      announcement (some t) (some ((st.assigns nowMs).set t)) := by
  unfold notifyTrigger
  split
  · exact cairnqNotify_updated _ _
  · rename_i hquiet
    by_cases hsets : st.setsStatus = true
    · have hrunning : ((st.assigns nowMs).set t).status = .running := by
        simpa [hsets, RowWrite.new] using hquiet
      exact (announcement_of_running hrunning).symm
    · rw [announcement_of_status (st.status_assigns (Bool.not_eq_true _ ▸ hsets) nowMs t)]

/-! ## One statement -/

/-- Every statement but the insert writes the rows it selects. -/
theorem Statement.writes_eq (locked : String → Bool) (nowMs : Int) (db : Database J)
    {st : Statement J} (h : ∀ n, st ≠ .insertTask n) : st.writes locked nowMs db =
      (db.tasks.rows.filter (st.selects locked nowMs db)).map fun t =>
        .updated t ((st.assigns nowMs).set t) := by
  cases st with
  | insertTask n => exact absurd rfl (h n)
  | _ => rfl

/-- The writes of one row. -/
theorem Statement.filter_writes (locked : String → Bool) (nowMs : Int) (db : Database J)
    {st : Statement J} (h : ∀ n, st ≠ .insertTask n) (id : String) :
    ((st.writes locked nowMs db).filter fun w => decide (w.new.id = id)) =
      (((db.get id).filter (st.selects locked nowMs db)).map fun t =>
        RowWrite.updated t ((st.assigns nowMs).set t)).toList := by
  have hrows : ((db.tasks.rows.filter (st.selects locked nowMs db)).filter
      fun t => decide (t.id = id)) = ((db.get id).filter (st.selects locked nowMs db)).toList := by
    rw [List.filter_comm, KeyedTable.filter_key_eq, Database.get]
    cases db.tasks.find? id with
    | none => rfl
    | some t =>
        by_cases hsel : st.selects locked nowMs db t = true
        · simp [hsel, Option.filter_some_pos]
        · simp [hsel, Option.filter_some_neg]
  have hid : ((fun w : RowWrite J => decide (w.new.id = id)) ∘ fun t =>
      RowWrite.updated t ((st.assigns nowMs).set t)) = fun t => decide (t.id = id) := by
    funext t
    simp [RowWrite.new]
  rw [st.writes_eq locked nowMs db h, List.filter_map, hid, hrows]
  cases (db.get id).filter (st.selects locked nowMs db) <;> rfl

/-- The row of an id after a statement that writes the rows it selects, or deletes rows. -/
theorem Statement.get_exec (locked : String → Bool) (nowMs : Int) (db : Database J)
    {st : Statement J} (h : ∀ n, st ≠ .insertTask n) (id : String) :
    ((Postgres.exec locked nowMs st db).1.get id = none ∧
        ∀ t, st.selects locked nowMs db t = false) ∨
      (Postgres.exec locked nowMs st db).1.get id = (db.get id).map fun t =>
        if st.selects locked nowMs db t then (st.assigns nowMs).set t else t := by
  by_cases hst : st.updates = true
  · exact Or.inr (Postgres.exec_get_update locked nowMs db hst id)
  · cases st with
    | insertTask n => exact absurd rfl (h n)
    | purge olderThanMs queue status name limit =>
        have hget := get_deleteSelected
          (fun t => purgeable (nowMs - olderThanMs) queue status name t && !locked t.id) limit db id
        cases hleft : (Postgres.exec locked nowMs (.purge olderThanMs queue status name limit)
            db).1.get id with
        | none => exact Or.inl ⟨rfl, fun _ => rfl⟩
        | some t =>
            have hkept : (Postgres.exec locked nowMs (.purge olderThanMs queue status name limit)
                db).1.get id = _ := hget
            rw [hleft] at hkept
            have hrow := (Option.filter_eq_some_iff.mp hkept.symm).1
            exact Or.inr (by simp [hrow, Statement.selects])
    | _ => exact absurd rfl hst

/-- What the trigger sends for a row is what its change calls for. -/
theorem notificationsOf_eq (db : Database J) (e : Execution J) (id : String) :
    e.notificationsOf db id = announcement (db.get id)
      ((exec .postgres e.held e.nowMs e.statement db).1.get id) := by
  rcases e with ⟨nowMs, held, st⟩
  by_cases hinsert : ∀ n, st ≠ .insertTask n
  · rw [Execution.notificationsOf, st.filter_writes held nowMs db hinsert]
    rcases st.get_exec held nowMs db hinsert id with ⟨hgone, hnone⟩ | hget
    · have hquiet : (db.get id).filter (st.selects held nowMs db) = none :=
        Option.filter_eq_none_iff.mpr fun t _ => by simp [hnone t]
      rw [exec, hgone, hquiet]
      cases db.get id <;> rfl
    · rw [exec, hget]
      cases hrow : db.get id with
      | none => rfl
      | some t =>
          by_cases hsel : st.selects held nowMs db t = true
          · simp [hsel, Option.filter_some_pos, notifyTrigger_updated]
          · simp [hsel, Option.filter_some_neg, announcement_self]
  · push Not at hinsert
    rcases hinsert with ⟨n, rfl⟩
    rw [Execution.notificationsOf, Statement.writes, exec]
    rcases Postgres.exec_insertTask held nowMs n db with ⟨hfree, db', hdb', hexec⟩ | ⟨htaken, hexec⟩
    · rw [hexec, Database.get_insertTask? hdb']
      by_cases hid : n.id = id
      · subst hid
        simp [hfree, RowWrite.new, NewTask.row, notifyTrigger, Statement.setsStatus, cairnqNotify,
          announcement]
      · have hne : (n.row (nowMs + n.delayMs) nowMs).id ≠ id := hid
        rw [if_neg hne, announcement_self]
        simp [hfree, RowWrite.new, NewTask.row, hid]
    · rw [hexec, announcement_self]
      simp [htaken]

/-! ## Silence -/

/-- The statements that are to wake nobody. -/
def Statement.Quiet (db : Database J) : Statement J → Prop
  | .claim _ _ _ _ | .heartbeatBatch _ _ _ | .owned _ _ (.heartbeat _)
  | .owned _ _ (.progress _ _) | .purge _ _ _ _ _ | .upsertKey _ _ => True
  | .cancel id => ∀ t, db.get id = some t → t.status = .running
  | _ => False

/-- A trigger that does not fire sends nothing. -/
theorem notifyTrigger_of_running {st : Statement J} {w : RowWrite J} (h : w.new.status = .running) :
    notifyTrigger st w = [] :=
  if_neg fun hfires => hfires.2 h

theorem notifyTrigger_of_not_setsStatus {st : Statement J} (h : st.setsStatus = false)
    (w : RowWrite J) : notifyTrigger st w = [] :=
  if_neg fun hfires => by simp [h] at hfires

/-- A quiet statement sends nothing. -/
theorem notifications_of_quiet {db : Database J} {e : Execution J} (h : e.statement.Quiet db) :
    e.notifications db = [] := by
  rcases e with ⟨nowMs, held, st⟩
  refine List.flatMap_eq_nil_iff.mpr fun w hw => ?_
  cases st with
  | claim filter workerId leaseMs limit =>
      rcases List.mem_map.mp hw with ⟨t, -, rfl⟩
      exact notifyTrigger_of_running rfl
  | cancel id =>
      rcases List.mem_map.mp hw with ⟨t, ht, rfl⟩
      rcases List.mem_filter.mp ht with ⟨hmem, hsel⟩
      have hid : t.id = id := by
        simp only [Statement.selects, Bool.and_eq_true, decide_eq_true_eq] at hsel
        exact hsel.1
      have hrunning : t.status = .running := h t (hid ▸ KeyedTable.find?_of_mem hmem)
      exact notifyTrigger_of_running (by simp [RowWrite.new, Statement.assigns, setCancel, hrunning])
  | owned id workerId write =>
      refine notifyTrigger_of_not_setsStatus ?_ w
      cases write with
      | heartbeat leaseMs => rfl
      | progress value message => rfl
      | complete result => cases h
      | succeed result message => cases h
      | fail error retryable delayMs => cases h
  | heartbeatBatch ids workerId leaseMs => exact notifyTrigger_of_not_setsStatus rfl w
  | purge olderThanMs queue status name limit => exact notifyTrigger_of_not_setsStatus rfl w
  | upsertKey key taskId => exact notifyTrigger_of_not_setsStatus rfl w
  | insertTask n => cases h
  | recoverLeases error => cases h
  | retry id resetAttempt => cases h

/-! ## Whole runs -/

/-- The ids of the rows whose status went from one that is not terminal to one that is. -/
def endedBy (before after : Database J) : List String :=
  (after.tasks.rows.filter fun t => t.status.isTerminal &&
    (before.get t.id).any fun old => !old.status.isTerminal).map Task.id

/-- A database, what has been sent, and the terminal entries there have been. -/
structure AnnouncedState (J : Type) where
  protocol : ProtocolState J
  sent : List Notification
  endings : List String

/-- A fresh database, and nothing sent. -/
def AnnouncedState.fresh (clockMs : Int) : AnnouncedState J where
  protocol := ProtocolState.fresh clockMs
  sent := []
  endings := []

/-- The protocol on Postgres, with the trigger and a record of the terminal entries. -/
def announcing : Machine (AnnouncedState J) (Execution J) := fun s e =>
  (CairnQ.protocol .postgres s.protocol e).map fun p =>
    { protocol := p
      sent := s.sent ++ e.notifications s.protocol.db
      endings := s.endings ++ endedBy s.protocol.db p.db }

/-- The row of an id ended in one step if its change is announced. -/
theorem count_endedBy (before after : Database J) (id : String) :
    (endedBy before after).count id =
      (announcement (before.get id) (after.get id)).count ⟨doneChannel, id⟩ := by
  have hchannel : queuedChannel ≠ doneChannel := by decide
  have hrows : (endedBy before after).count id = ((after.get id).toList.filter fun t =>
      t.status.isTerminal &&
        (before.get t.id).any fun old => !old.status.isTerminal).length := by
    rw [Database.get, ← KeyedTable.filter_key_eq, List.filter_comm, ← List.countP_eq_length_filter,
      endedBy, List.count, List.countP_map]
    rfl
  rw [hrows]
  cases hnew : after.get id with
  | none => cases before.get id <;> rfl
  | some new =>
      have hid : new.id = id := Database.id_of_get hnew
      cases hold : before.get id with
      | none => by_cases hqueued : new.status = .queued <;>
          simp [announcement, hid, hold, hqueued, hchannel]
      | some old =>
          by_cases hqueued : new.status = .queued
          · by_cases hsame : old.status = .queued <;>
              simp [announcement, hid, hold, hqueued, hchannel, hsame, TaskStatus.isTerminal]
          · by_cases hends : old.status.isTerminal = false ∧ new.status.isTerminal = true
            · simp [announcement, hid, hold, hqueued, hends]
            · simp only [announcement, hqueued, and_false, if_false, if_neg hends, List.count_nil,
                Option.toList_some, List.length_eq_zero_iff]
              refine List.filter_eq_nil_iff.mpr fun t ht => ?_
              rw [List.mem_singleton.mp ht, hid, hold]
              intro hboth
              simp only [Option.any_some, Bool.and_eq_true, Bool.not_eq_true'] at hboth
              exact hends ⟨hboth.2, hboth.1⟩

/-- Only the write of a row announces its end. -/
theorem count_notifications (db : Database J) (e : Execution J) (id : String) :
    (e.notifications db).count ⟨doneChannel, id⟩ =
      (e.notificationsOf db id).count ⟨doneChannel, id⟩ := by
  have hchannel : queuedChannel ≠ doneChannel := by decide
  have hother : ∀ w : RowWrite J, w.new.id ≠ id →
      (notifyTrigger e.statement w).count ⟨doneChannel, id⟩ = 0 := by
    intro w hne
    refine List.count_eq_zero.mpr fun hmem => ?_
    unfold notifyTrigger at hmem
    split at hmem
    · cases w with
      | inserted new =>
          simp only [cairnqNotify] at hmem
          split at hmem
          · simp [hchannel.symm] at hmem
          · cases hmem
      | updated old new =>
          simp only [cairnqNotify] at hmem
          split at hmem
          · simp [hchannel.symm] at hmem
          · split at hmem
            · simp only [List.mem_singleton, Notification.mk.injEq, true_and] at hmem
              exact hne hmem.symm
            · cases hmem
    · cases hmem
  unfold Execution.notifications Execution.notificationsOf
  induction e.statement.writes e.held e.nowMs db with
  | nil => rfl
  | cons w ws ih =>
      rw [List.flatMap_cons, List.count_append, ih]
      by_cases hid : w.new.id = id
      · rw [List.filter_cons_of_pos (by simpa using hid), List.flatMap_cons, List.count_append]
      · rw [List.filter_cons_of_neg (by simpa using hid), hother w hid, Nat.zero_add]

/-- The trigger announces exactly the right transitions.  Whatever statement is executed next in
whatever state: for every row it sends what the change of that row calls for and nothing else,
and a claim, a heartbeat, a progress report and the cancel of a running task send nothing at
all.  So in every run a task has been announced as done as often as it entered a terminal
status. -/
theorem trigger_announces {clockMs : Int} {s : AnnouncedState J}
    (hreach : announcing.Reachable anyStep (.fresh clockMs) s) :
    (∀ id, s.sent.count ⟨doneChannel, id⟩ = s.endings.count id) ∧
      ∀ e s', announcing s e = some s' →
        s'.sent = s.sent ++ e.notifications s.protocol.db ∧
        (∀ id, e.notificationsOf s.protocol.db id =
          announcement (s.protocol.db.get id) (s'.protocol.db.get id)) ∧
        (∀ n ∈ e.notifications s.protocol.db, ∃ id, n ∈ e.notificationsOf s.protocol.db id) ∧
        (e.statement.Quiet s.protocol.db → e.notifications s.protocol.db = []) := by
  have hstep : ∀ (s : AnnouncedState J) e s', announcing s e = some s' →
      s'.sent = s.sent ++ e.notifications s.protocol.db ∧
        s'.endings = s.endings ++ endedBy s.protocol.db s'.protocol.db ∧
        s'.protocol.db = (exec .postgres e.held e.nowMs e.statement s.protocol.db).1 := by
    intro s e s' h
    rcases Option.map_eq_some_iff.mp h with ⟨p, hp, rfl⟩
    rcases protocol_eq_some_iff.mp hp with ⟨-, rfl⟩
    exact ⟨rfl, rfl, rfl⟩
  constructor
  · refine hreach.invariant (I := fun s => ∀ id, s.sent.count ⟨doneChannel, id⟩ =
      s.endings.count id) (fun s e s' hcounts _ h id => ?_) fun id => rfl
    rcases hstep s e s' h with ⟨hsent, hendings, hdb⟩
    rw [hsent, hendings, List.count_append, List.count_append, hcounts, count_endedBy,
      count_notifications, notificationsOf_eq, hdb]
  · intro e s' h
    rcases hstep s e s' h with ⟨hsent, -, hdb⟩
    refine ⟨hsent, fun id => ?_, fun n hn => ?_, notifications_of_quiet⟩
    · rw [notificationsOf_eq, hdb]
    · rcases List.mem_flatMap.mp hn with ⟨w, hw, hnw⟩
      exact ⟨w.new.id, List.mem_flatMap.mpr ⟨w, List.mem_filter.mpr ⟨hw, by simp⟩, hnw⟩⟩

/-- A task is submitted, claimed twice and failed for good. -/
def failedRun : List (Execution Nat) :=
  [.alone 0 (.insertTask (.plain "t" "work" 2 7)),
    .alone 1 (.claim (.claimOneQueue "default" none) "w" 10 1),
    .alone 2 (.owned "t" "w" (.fail 8 true 0)),
    .alone 3 (.claim (.claimOneQueue "default" none) "w" 10 1),
    .alone 20 (.recoverLeases 9)]

theorem trigger_announces_failedRun :
    ((announcing.drive (.fresh 0) failedRun).sent.count ⟨doneChannel, "t"⟩) =
      (announcing.drive (.fresh 0) failedRun).endings.count "t" :=
  (trigger_announces (Machine.reachable_drive announcing (.fresh 0) failedRun
    fun _ _ _ => trivial)).1 "t"

/-- The queue is told of the submission and of the requeue, the task is done once. -/
example : (announcing.drive (.fresh 0) failedRun).sent =
    [⟨queuedChannel, "default"⟩, ⟨queuedChannel, "default"⟩, ⟨doneChannel, "t"⟩] := by
  decide +kernel

end CairnQ
