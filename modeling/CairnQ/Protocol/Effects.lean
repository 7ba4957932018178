import CairnQ.Protocol.Execution

/-!
# What a statement does to one row

Everything later proofs need to know about the statements is said once, by
{lit}`Effect`: the row a statement touches, the condition it checked and the row it
leaves behind.  All statements but the insert and the purge are one guarded
update, and {lit}`Statement.selects` and {lit}`Statement.assigns` are its `where` and its
`set`.

Main results:

- Theorem `exec_get_update`: a row after an updating statement.
- Theorem `exec_get_some`: a row after any statement is untouched, the result of an
  {lit}`Effect`, or freshly inserted.
- Theorem `exec_get_none`: only a purge removes a row.
- Theorem `exec_names`: an updating statement names a row in its reply exactly when
  it selected it.
- Theorem `exec_rows`: a returned row is the row the statement left in the table.
-/

namespace CairnQ

open Relational

variable {J : Type}

/-! ## Conditions as propositions -/

/-- A worker holds a live lease on a task. -/
def Owned (workerId : String) (nowMs : Int) (t : Task J) : Prop :=
  t.status = .running ∧ t.workerId = some workerId ∧ ∃ u, t.leaseUntilMs = some u ∧ nowMs < u

theorem owned_iff {workerId : String} {nowMs : Int} {t : Task J} :
    owned workerId nowMs t = true ↔ Owned workerId nowMs t := by
  simp [owned, Owned, Option.any_eq_true, and_assoc]

/-- A running task's lease has run out. -/
def Expired (nowMs : Int) (t : Task J) : Prop :=
  t.status = .running ∧ ∃ u, t.leaseUntilMs = some u ∧ u ≤ nowMs

theorem leaseExpired_iff {nowMs : Int} {t : Task J} :
    leaseExpired nowMs t = true ↔ Expired nowMs t := by
  simp [leaseExpired, Expired, Option.any_eq_true]

/-- A task may be drawn by a claim with the given filter. -/
def Claimable (filter : ClaimFilter) (nowMs : Int) (t : Task J) : Prop :=
  t.status = .queued ∧ filter.queueOk t.queue = true ∧ filter.nameOk t.name = true ∧
    t.runAtMs ≤ nowMs

theorem claimable_iff {filter : ClaimFilter} {nowMs : Int} {t : Task J} :
    claimable filter.queueOk filter.nameOk nowMs t = true ↔ Claimable filter nowMs t := by
  simp [claimable, Claimable, and_assoc]

/-! ## Effects -/

@[simp]
theorem SetList.id_set (u : SetList J) (t : Task J) : (u.set t).id = t.id :=
  u.key_set t

/-- The `set` list of an ownership-checked write. -/
def OwnedWrite.setList (nowMs : Int) : OwnedWrite J → SetList J
  | .heartbeat leaseMs => setHeartbeat (nowMs + leaseMs) nowMs
  | .progress value message => setProgress value message nowMs
  | .complete result => setComplete result nowMs
  | .succeed result message => setSucceed result message nowMs
  | .fail error retryable delayMs => setFail error retryable delayMs nowMs

/-- What a statement executed at {lit}`nowMs` may do to a row it selects: the condition
it checked on the old row, and the new row. -/
inductive Effect (nowMs : Int) : Statement J → Task J → Task J → Prop
  | claimed {filter : ClaimFilter} {workerId : String} {leaseMs limit : Int} {t : Task J}
      (hclaimable : Claimable filter nowMs t) :
      Effect nowMs (.claim filter workerId leaseMs limit) t
        ((setClaim workerId (nowMs + leaseMs) nowMs).set t)
  | recovered {error : J} {t : Task J} (hexpired : Expired nowMs t) :
      Effect nowMs (.recoverLeases error) t ((setRecover error nowMs).set t)
  | written {workerId : String} {write : OwnedWrite J} {t : Task J}
      (howned : Owned workerId nowMs t) :
      Effect nowMs (.owned t.id workerId write) t ((write.setList nowMs).set t)
  | renewed {ids : List String} {workerId : String} {leaseMs : Int} {t : Task J}
      (hid : t.id ∈ ids) (howned : Owned workerId nowMs t) :
      Effect nowMs (.heartbeatBatch ids workerId leaseMs) t
        ((setHeartbeat (nowMs + leaseMs) nowMs).set t)
  | canceled {t : Task J} (hlive : t.status = .queued ∨ t.status = .running) :
      Effect nowMs (.cancel t.id) t ((setCancel nowMs).set t)
  | retried {t : Task J} {resetAttempt : Bool}
      (hstopped : t.status = .failed ∨ t.status = .canceled) :
      Effect nowMs (.retry t.id resetAttempt) t ((setRetry resetAttempt nowMs).set t)

/-- A statement keeps the attempt limit of every row. -/
theorem Effect.maxAttempts_eq {nowMs : Int} {st : Statement J} {t t' : Task J}
    (h : Effect nowMs st t t') : t'.maxAttempts = t.maxAttempts := by
  cases h with
  | @written workerId write t howned => cases write <;> rfl
  | claimed _ | recovered _ | renewed _ _ | canceled _ | retried _ => rfl

/-- A row that runs after an effect was claimed by it, or ran before as the same attempt
under the same worker. -/
theorem Effect.of_running {nowMs : Int} {st : Statement J} {t t' : Task J}
    (heff : Effect nowMs st t t') (hrunning : t'.status = .running) :
    (∃ filter w leaseMs limit, st = .claim filter w leaseMs limit ∧ t'.workerId = some w) ∨
      (t.status = .running ∧ t'.workerId = t.workerId ∧ t'.attempt = t.attempt ∧
        ∀ filter w leaseMs limit, st ≠ .claim filter w leaseMs limit) := by
  cases heff with
  | @claimed filter w leaseMs limit t _ =>
      exact Or.inl ⟨filter, w, leaseMs, limit, rfl, rfl⟩
  | recovered hexpired =>
      simp only [setRecover] at hrunning
      split at hrunning
      · cases hrunning
      · split at hrunning <;> cases hrunning
  | @written workerId write t howned =>
      refine Or.inr ⟨howned.1, ?_⟩
      cases write with
      | heartbeat leaseMs => exact ⟨rfl, rfl, by simp⟩
      | progress value message => exact ⟨rfl, rfl, by simp⟩
      | complete result =>
          simp only [OwnedWrite.setList, setComplete] at hrunning
          split at hrunning <;> cases hrunning
      | succeed result message => cases hrunning
      | fail error retryable delayMs =>
          simp only [OwnedWrite.setList, setFail] at hrunning
          split at hrunning
          · cases hrunning
          · split at hrunning <;> cases hrunning
  | renewed _ howned => exact Or.inr ⟨howned.1, rfl, rfl, by simp⟩
  | @canceled t hlive =>
      rcases hlive with hqueued | hstatus
      · simp [setCancel, hqueued] at hrunning
      · exact Or.inr ⟨hstatus, rfl, rfl, by simp⟩
  | retried _ => cases hrunning

/-! ## Updating statements -/

/-- Every statement but the insert and the purge is one guarded update. -/
def Statement.updates : Statement J → Bool
  | .insertTask _ | .purge _ _ _ _ _ => false
  | _ => true

/-- The ids a statement names itself, rather than drawing rows by a condition. -/
def Statement.addresses : Statement J → String → Bool
  | .owned id' _ _, id | .cancel id', id | .retry id' _, id => decide (id = id')
  | .heartbeatBatch ids _ _, id => decide (id ∈ ids)
  | _, _ => false

/-- The `where` condition of an updating statement. -/
def Statement.selects (locked : String → Bool) (nowMs : Int) (db : Database J)
    (st : Statement J) (t : Task J) : Bool :=
  match st with
  | .claim filter _ _ limit =>
      decide (t.id ∈ db.tasks.selectKeys
        (fun t => claimable filter.queueOk filter.nameOk nowMs t && !locked t.id)
        claimOrder limit)
  | .recoverLeases _ => leaseExpired nowMs t && !locked t.id
  | .owned id workerId _ => decide (t.id = id) && CairnQ.owned workerId nowMs t
  | .heartbeatBatch ids workerId _ => decide (t.id ∈ ids) && CairnQ.owned workerId nowMs t
  | .cancel id => decide (t.id = id) && decide (t.status = .queued ∨ t.status = .running)
  | .retry id _ => decide (t.id = id) && decide (t.status = .failed ∨ t.status = .canceled)
  | .insertTask _ | .purge _ _ _ _ _ | .upsertKey _ _ => false

/-- The `set` list of an updating statement. -/
def Statement.assigns (nowMs : Int) : Statement J → SetList J
  | .claim _ workerId leaseMs _ => setClaim workerId (nowMs + leaseMs) nowMs
  | .recoverLeases error => setRecover error nowMs
  | .owned _ _ write => write.setList nowMs
  | .heartbeatBatch _ _ leaseMs => setHeartbeat (nowMs + leaseMs) nowMs
  | .cancel _ => setCancel nowMs
  | .retry _ resetAttempt => setRetry resetAttempt nowMs
  | .insertTask _ | .purge _ _ _ _ _ | .upsertKey _ _ => { set := id, key_set := fun _ => rfl }

/-- A row whose id a bounded selection names is eligible itself. -/
theorem eligible_of_mem_selectKeys {db : Database J} {eligible : Task J → Bool}
    {le : Task J → Task J → Prop} [DecidableRel le] {limit : Int} {id : String} {t : Task J}
    (ht : db.get id = some t) (h : t.id ∈ db.tasks.selectKeys eligible le limit) :
    eligible t = true := by
  rcases KeyedTable.exists_row_of_mem_selectKeys h with ⟨r, hr, helig, hkey⟩
  rwa [KeyedTable.row_unique hr (KeyedTable.find?_eq_some_iff.mp ht).1 hkey] at helig

/-- A stored row that a statement selects undergoes its effect. -/
theorem Statement.effect_of_selects {locked : String → Bool} {nowMs : Int} {db : Database J}
    {st : Statement J} {id : String} {t : Task J} (ht : db.get id = some t)
    (h : st.selects locked nowMs db t = true) : Effect nowMs st t ((st.assigns nowMs).set t) := by
  cases st with
  | claim filter workerId leaseMs limit =>
      have helig := eligible_of_mem_selectKeys ht (of_decide_eq_true h)
      rw [Bool.and_eq_true, claimable_iff] at helig
      exact Effect.claimed helig.1
  | recoverLeases error =>
      rw [Statement.selects, Bool.and_eq_true, leaseExpired_iff] at h
      exact Effect.recovered h.1
  | owned id' workerId write =>
      rw [Statement.selects, Bool.and_eq_true, decide_eq_true_eq, owned_iff] at h
      exact h.1 ▸ Effect.written h.2
  | heartbeatBatch ids workerId leaseMs =>
      rw [Statement.selects, Bool.and_eq_true, decide_eq_true_eq, owned_iff] at h
      exact Effect.renewed h.1 h.2
  | cancel id' =>
      rw [Statement.selects, Bool.and_eq_true, decide_eq_true_eq, decide_eq_true_eq] at h
      exact h.1 ▸ Effect.canceled h.2
  | retry id' resetAttempt =>
      rw [Statement.selects, Bool.and_eq_true, decide_eq_true_eq, decide_eq_true_eq] at h
      exact h.1 ▸ Effect.retried h.2
  | insertTask n => cases h
  | purge olderThanMs queue status name limit => cases h
  | upsertKey key taskId => cases h

/-- A statement that draws its rows passes over the locked ones. -/
theorem Statement.not_selects_of_locked {locked : String → Bool} {nowMs : Int} {db : Database J}
    {st : Statement J} {id : String} {t : Task J} (ht : db.get id = some t)
    (hlocked : locked id = true) (haddr : st.addresses id = false) :
    st.selects locked nowMs db t = false := by
  have hid : t.id = id := Database.id_of_get ht
  cases st with
  | claim filter workerId leaseMs limit =>
      refine decide_eq_false fun h => ?_
      have helig := eligible_of_mem_selectKeys ht h
      simp [hid, hlocked] at helig
  | recoverLeases error => simp [Statement.selects, hid, hlocked]
  | owned id' workerId write =>
      have hne : id ≠ id' := of_decide_eq_false haddr
      simp [Statement.selects, hid, hne]
  | heartbeatBatch ids workerId leaseMs =>
      have hne : id ∉ ids := of_decide_eq_false haddr
      simp [Statement.selects, hid, hne]
  | cancel id' =>
      have hne : id ≠ id' := of_decide_eq_false haddr
      simp [Statement.selects, hid, hne]
  | retry id' resetAttempt =>
      have hne : id ≠ id' := of_decide_eq_false haddr
      simp [Statement.selects, hid, hne]
  | insertTask n => rfl
  | purge olderThanMs queue status name limit => rfl
  | upsertKey key taskId => rfl

/-- The draw all claim statements make, on Postgres. -/
theorem Postgres.execClaim_eq (locked : String → Bool) (clockMs : Int) (workerId : String)
    (leaseMs limit : Int) (filter : ClaimFilter) (db : Database J) :
    Postgres.execClaim locked clockMs workerId leaseMs limit filter db =
      drawClaim (fun t => claimable filter.queueOk filter.nameOk clockMs t && !locked t.id)
        workerId (clockMs + leaseMs) clockMs limit db := by
  cases filter <;> exact joinClaim_eq ..

/-- The shape all ownership-checked writes have, on Postgres. -/
theorem Postgres.execOwned_eq (clockMs : Int) (id workerId : String) (write : OwnedWrite J)
    (db : Database J) : Postgres.execOwned clockMs id workerId write db =
      ownedWrite id workerId (write.setList clockMs) clockMs db := by
  cases write <;> rfl

/-- The two columns `heartbeat_batch.sql` returns of a renewed row. -/
def renewedColumns (t : Task J) : String × Option Int :=
  (t.id, t.cancelRequestedAtMs)

/-- An updating statement other than a key upsert is one `update ... returning`. -/
theorem Postgres.exec_eq_updateReturning (locked : String → Bool) (nowMs : Int)
    {st : Statement J} (db : Database J) (hst : st.updates = true)
    (hkey : ∀ key taskId, st ≠ .upsertKey key taskId) :
    let out := updateReturning (st.selects locked nowMs db) (st.assigns nowMs) db
    Postgres.exec locked nowMs st db = (out.1, .tasks out.2) ∨
      Postgres.exec locked nowMs st db = (out.1, .renewed (out.2.map renewedColumns)) := by
  cases st with
  | claim filter workerId leaseMs limit =>
      exact Or.inl (congrArg replyTasks (execClaim_eq ..))
  | owned id workerId write => exact Or.inl (congrArg replyTasks (execOwned_eq ..))
  | recoverLeases error => exact Or.inl (congrArg replyTasks (updateSelected_eq ..))
  | cancel id => exact Or.inl rfl
  | retry id resetAttempt => exact Or.inl rfl
  | heartbeatBatch ids workerId leaseMs => exact Or.inr rfl
  | upsertKey key taskId => exact absurd rfl (hkey key taskId)
  | insertTask n => cases hst
  | purge olderThanMs queue status name limit => cases hst

/-- A key upsert changes no task and returns none. -/
theorem Postgres.exec_upsertKey (locked : String → Bool) (nowMs : Int) (key taskId : String)
    (db : Database J) :
    (∀ id, (Postgres.exec locked nowMs (.upsertKey key taskId) db).1.get id = db.get id) ∧
      (∀ id, (Postgres.exec locked nowMs (.upsertKey key taskId) db).2.names id = false) ∧
      (Postgres.exec locked nowMs (.upsertKey key taskId) db).2.rows = [] := by
  simp only [Postgres.exec, Postgres.upsertKey]
  cases hupsert : db.upsertKey? key taskId nowMs with
  | none => exact ⟨fun _ => rfl, fun _ => rfl, rfl⟩
  | some db' => exact ⟨Database.get_upsertKey? hupsert, fun _ => rfl, rfl⟩

/-- A row after an updating statement. -/
theorem Postgres.exec_get_update (locked : String → Bool) (nowMs : Int) {st : Statement J}
    (db : Database J) (hst : st.updates = true) (id : String) :
    (Postgres.exec locked nowMs st db).1.get id = (db.get id).map fun t =>
      if st.selects locked nowMs db t then (st.assigns nowMs).set t else t := by
  by_cases hkey : ∀ key taskId, st ≠ .upsertKey key taskId
  · rcases Postgres.exec_eq_updateReturning locked nowMs db hst hkey with h | h <;>
      rw [h, updateReturning] <;> exact Database.get_updateTasks ..
  · push Not at hkey
    rcases hkey with ⟨key, taskId, rfl⟩
    rw [(Postgres.exec_upsertKey locked nowMs key taskId db).1 id]
    simp [Statement.selects]

/-- An updating statement names the rows it selected. -/
theorem Postgres.exec_names (locked : String → Bool) (nowMs : Int) {st : Statement J}
    (db : Database J) (hst : st.updates = true) (id : String) :
    (Postgres.exec locked nowMs st db).2.names id = true ↔
      ∃ t, db.get id = some t ∧ st.selects locked nowMs db t = true := by
  have hreturned : (∃ r ∈ (updateReturning (st.selects locked nowMs db)
      (st.assigns nowMs) db).2, r.id = id) ↔
      ∃ t, db.get id = some t ∧ st.selects locked nowMs db t = true := by
    simp only [updateReturning, KeyedTable.mem_returning_iff]
    constructor
    · rintro ⟨r, ⟨t, ht, hsel, rfl⟩, hid⟩
      rw [SetList.id_set] at hid
      exact ⟨t, hid ▸ KeyedTable.find?_of_mem ht, hsel⟩
    · rintro ⟨t, ht, hsel⟩
      refine ⟨_, ⟨t, (KeyedTable.find?_eq_some_iff.mp ht).1, hsel, rfl⟩, ?_⟩
      rw [SetList.id_set]
      exact Database.id_of_get ht
  by_cases hkey : ∀ key taskId, st ≠ .upsertKey key taskId
  · rw [← hreturned]
    rcases Postgres.exec_eq_updateReturning locked nowMs db hst hkey with h | h <;> rw [h]
    · simp [Reply.names]
    · simp only [Reply.names, List.any_map, List.any_eq_true, Function.comp_apply,
        decide_eq_true_eq]
      rfl
  · push Not at hkey
    rcases hkey with ⟨key, taskId, rfl⟩
    simp [(Postgres.exec_upsertKey locked nowMs key taskId db).2.1 id, Statement.selects]

/-! ## Inversion -/

/-- The row an insert leaves under its id. -/
def Statement.inserts (nowMs : Int) (st : Statement J) (t : Task J) : Prop :=
  ∃ n : NewTask J, st = .insertTask n ∧ t = n.row (nowMs + n.delayMs) nowMs

/-- An insert succeeds exactly when the id is free. -/
theorem Postgres.exec_insertTask (locked : String → Bool) (nowMs : Int) (n : NewTask J)
    (db : Database J) :
    (db.get n.id = none ∧ ∃ db', db.insertTask? (n.row (nowMs + n.delayMs) nowMs) = some db' ∧
      Postgres.exec locked nowMs (.insertTask n) db =
        (db', .tasks [n.row (nowMs + n.delayMs) nowMs])) ∨
      ((db.get n.id).isSome ∧
        Postgres.exec locked nowMs (.insertTask n) db = (db, .error .primaryKey)) := by
  simp only [Postgres.exec, Postgres.insertTask, Option.map_map]
  cases hinsert : db.insertTask? (n.row (nowMs + n.delayMs) nowMs) with
  | none => exact Or.inr ⟨Database.insertTask?_eq_none_iff.mp hinsert, rfl⟩
  | some db' =>
      have hfree : ¬(db.get (n.row (nowMs + n.delayMs) nowMs).id).isSome := by
        rw [← Database.insertTask?_eq_none_iff, hinsert]
        simp
      exact Or.inl ⟨by simpa [NewTask.row] using hfree, db', rfl, rfl⟩

/-- A purge deletes the rows it names. -/
theorem get_deleteSelected (eligible : Task J → Bool) (limit : Int) (db : Database J)
    (id : String) : (deleteSelected eligible limit db).1.get id =
      (db.get id).filter fun t => !decide (t.id ∈ (deleteSelected eligible limit db).2) := by
  simp only [deleteSelected, Database.get_deleteTasks]
  cases hget : db.get id with
  | none => rfl
  | some t =>
      have hmem : t ∈ db.tasks.rows := (KeyedTable.find?_eq_some_iff.mp hget).1
      have hnamed : t.id ∈ (db.tasks.rows.filter fun t =>
          decide (t.id ∈ db.tasks.selectKeys eligible completedOrder limit)).map Task.id ↔
          t.id ∈ db.tasks.selectKeys eligible completedOrder limit := by
        simp only [List.mem_map, List.mem_filter, decide_eq_true_eq]
        constructor
        · rintro ⟨r, ⟨-, hr⟩, hid⟩
          rwa [← hid]
        · intro h
          exact ⟨t, ⟨hmem, h⟩, rfl⟩
      simp only [Option.filter_some, hnamed]

/-- A row after any statement is untouched, the result of an effect on the old row, or
freshly inserted under a free id; the reply names it in the last two cases. -/
theorem Postgres.exec_get_some {locked : String → Bool} {nowMs : Int} {st : Statement J}
    {db : Database J} {id : String} {t' : Task J}
    (h : (Postgres.exec locked nowMs st db).1.get id = some t') :
    (db.get id = some t' ∧ (Postgres.exec locked nowMs st db).2.names id = false) ∨
      (∃ t, db.get id = some t ∧ Effect nowMs st t t' ∧
        (Postgres.exec locked nowMs st db).2.names id = true) ∨
      (db.get id = none ∧ st.inserts nowMs t' ∧
        (Postgres.exec locked nowMs st db).2.names id = true) := by
  by_cases hst : st.updates = true
  · have hnames := Postgres.exec_names locked nowMs db hst id
    rw [Postgres.exec_get_update locked nowMs db hst] at h
    rcases Option.map_eq_some_iff.mp h with ⟨t, ht, hset⟩
    split at hset
    · rename_i hsel
      exact Or.inr (Or.inl ⟨t, ht, hset ▸ Statement.effect_of_selects ht hsel,
        hnames.mpr ⟨t, ht, hsel⟩⟩)
    · rename_i hsel
      refine Or.inl ⟨hset ▸ ht, Bool.eq_false_iff.mpr fun hnamed => ?_⟩
      rcases hnames.mp hnamed with ⟨r, hr, hrsel⟩
      rw [ht] at hr
      cases hr
      exact hsel hrsel
  · cases st with
    | insertTask n =>
        rcases Postgres.exec_insertTask locked nowMs n db with ⟨hfree, db', hinsert, hexec⟩ | hexec
        · rw [hexec] at h ⊢
          rw [Database.get_insertTask? hinsert] at h
          split at h
          · rename_i hid
            exact Or.inr (Or.inr ⟨hid ▸ hfree, ⟨n, rfl, (Option.some.inj h).symm⟩,
              by simp [Reply.names, hid]⟩)
          · rename_i hid
            exact Or.inl ⟨h, by simpa [Reply.names] using hid⟩
        · rw [hexec.2] at h ⊢
          exact Or.inl ⟨h, rfl⟩
    | purge olderThanMs queue status name limit =>
        simp only [Postgres.exec, Postgres.purge, get_deleteSelected, Option.filter_eq_some_iff,
          Bool.not_eq_true', decide_eq_false_iff_not] at h
        refine Or.inl ⟨h.1, decide_eq_false ?_⟩
        rw [← Database.id_of_get h.1]
        exact h.2
    | _ => exact absurd rfl hst

/-- Only a purge removes a row, and only one it selects. -/
theorem Postgres.exec_get_none {locked : String → Bool} {nowMs : Int} {st : Statement J}
    {db : Database J} {id : String} {t : Task J} (ht : db.get id = some t)
    (h : (Postgres.exec locked nowMs st db).1.get id = none) :
    ∃ olderThanMs queue status name limit, st = .purge olderThanMs queue status name limit ∧
      purgeable (nowMs - olderThanMs) queue status name t = true ∧ locked id = false := by
  by_cases hst : st.updates = true
  · rw [Postgres.exec_get_update locked nowMs db hst, ht] at h
    cases h
  · cases st with
    | insertTask n =>
        rcases Postgres.exec_insertTask locked nowMs n db with ⟨-, db', hinsert, hexec⟩ | hexec
        · rw [hexec, Database.get_insertTask? hinsert, ht] at h
          split at h <;> cases h
        · rw [hexec.2, ht] at h
          cases h
    | purge olderThanMs queue status name limit =>
        simp only [Postgres.exec, Postgres.purge, deleteSelected, Database.get_deleteTasks, ht,
          Option.filter_eq_none_iff, Bool.not_eq_true', decide_eq_false_iff_not,
          Option.some.injEq, forall_eq', not_not] at h
        have helig := eligible_of_mem_selectKeys ht h
        rw [Bool.and_eq_true, Bool.not_eq_true', Database.id_of_get ht] at helig
        exact ⟨olderThanMs, queue, status, name, limit, rfl, helig.1, helig.2⟩
    | _ => exact absurd rfl hst

/-- A returned row is in the table afterwards; it is the result of an effect on the old
row, or freshly inserted. -/
theorem Postgres.exec_rows {locked : String → Bool} {nowMs : Int} {st : Statement J}
    {db : Database J} {t' : Task J} (h : t' ∈ (Postgres.exec locked nowMs st db).2.rows) :
    (Postgres.exec locked nowMs st db).1.get t'.id = some t' ∧
      ((∃ t, db.get t'.id = some t ∧ st.selects locked nowMs db t = true ∧ Effect nowMs st t t') ∨
        (db.get t'.id = none ∧ st.inserts nowMs t')) := by
  by_cases hst : st.updates = true
  · have hmem : t' ∈ (updateReturning (st.selects locked nowMs db) (st.assigns nowMs) db).2 := by
      by_cases hkey : ∀ key taskId, st ≠ .upsertKey key taskId
      · rcases Postgres.exec_eq_updateReturning locked nowMs db hst hkey with heq | heq <;>
          rw [heq] at h
        · exact h
        · cases h
      · push Not at hkey
        rcases hkey with ⟨key, taskId, rfl⟩
        rw [(Postgres.exec_upsertKey locked nowMs key taskId db).2.2] at h
        cases h
    rcases KeyedTable.exists_find?_of_mem_returning hmem with ⟨t, ht, hsel, hset⟩
    rw [Postgres.exec_get_update locked nowMs db hst]
    refine ⟨?_, Or.inl ⟨t, ht, hsel, hset ▸ Statement.effect_of_selects ht hsel⟩⟩
    rw [Database.get, ht, Option.map_some, if_pos hsel, hset]
  · cases st with
    | insertTask n =>
        rcases Postgres.exec_insertTask locked nowMs n db with ⟨hfree, db', hinsert, hexec⟩ | hexec
        · rw [hexec] at h ⊢
          rcases List.mem_singleton.mp h with rfl
          rw [Database.get_insertTask? hinsert]
          exact ⟨if_pos rfl, Or.inr ⟨hfree, n, rfl, rfl⟩⟩
        · rw [hexec.2] at h
          cases h
    | purge olderThanMs queue status name limit => cases h
    | _ => exact absurd rfl hst

/-- A claim returns the rows it names, each once. -/
theorem Postgres.exec_claim_rows (locked : String → Bool) (nowMs : Int) (filter : ClaimFilter)
    (workerId : String) (leaseMs limit : Int) (db : Database J) :
    let reply := (Postgres.exec locked nowMs (.claim filter workerId leaseMs limit) db).2
    (reply.rows.map Task.id).Nodup ∧
      ∀ id, reply.names id = true ↔ ∃ r ∈ reply.rows, r.id = id := by
  simp only [Postgres.exec, Postgres.execClaim_eq, drawClaim, updateReturning, replyTasks,
    Reply.rows, Reply.names, List.any_eq_true, decide_eq_true_eq, implies_true, and_true]
  exact KeyedTable.nodup_returning ..

/-- Outside a key upsert, a key survives a statement exactly when its task does. -/
theorem Postgres.exec_getKey (locked : String → Bool) (nowMs : Int) {st : Statement J}
    (db : Database J) (hst : ∀ key taskId, st ≠ .upsertKey key taskId) (key : String) :
    (Postgres.exec locked nowMs st db).1.getKey key =
      (db.getKey key).filter fun id => ((Postgres.exec locked nowMs st db).1.get id).isSome := by
  -- a statement that keeps every row keeps every key
  have hkept : (Postgres.exec locked nowMs st db).1.getKey key = db.getKey key →
      (∀ id, (db.get id).isSome → ((Postgres.exec locked nowMs st db).1.get id).isSome) →
      (Postgres.exec locked nowMs st db).1.getKey key =
        (db.getKey key).filter fun id =>
          ((Postgres.exec locked nowMs st db).1.get id).isSome := by
    intro hkeys hrows
    rw [hkeys]
    cases hkey : db.getKey key with
    | none => rfl
    | some id => simp [Option.filter_some, hrows id (Database.get_of_getKey hkey)]
  by_cases hupdates : st.updates = true
  · refine hkept ?_ ?_
    · rcases Postgres.exec_eq_updateReturning locked nowMs db hupdates hst with h | h <;>
        rw [h] <;> exact Database.getKey_updateTasks ..
    · intro id hid
      rw [Postgres.exec_get_update locked nowMs db hupdates, Option.isSome_map]
      exact hid
  · cases st with
    | insertTask n =>
        rcases Postgres.exec_insertTask locked nowMs n db with ⟨-, db', hinsert, hexec⟩ | ⟨-, hexec⟩
        · refine hkept ?_ ?_ <;> rw [hexec]
          · exact Database.getKey_insertTask? hinsert key
          · intro id hid
            rw [Database.get_insertTask? hinsert]
            split
            · rfl
            · exact hid
        · exact hkept (by rw [hexec]) (by rw [hexec]; exact fun _ h => h)
    | purge olderThanMs queue status name limit => exact Database.getKey_deleteTasks ..
    | upsertKey key taskId => exact absurd rfl (hst key taskId)
    | _ => exact absurd rfl hupdates

/-- A row another transaction holds changes only through its own address. -/
theorem Postgres.exec_get_locked {locked : String → Bool} {nowMs : Int} {st : Statement J}
    {db : Database J} {id : String} {t : Task J} (ht : db.get id = some t)
    (hlocked : locked id = true) (haddr : st.addresses id = false) :
    (Postgres.exec locked nowMs st db).1.get id = some t := by
  cases hget : (Postgres.exec locked nowMs st db).1.get id with
  | none =>
      rcases Postgres.exec_get_none ht hget with ⟨_, _, _, _, _, -, -, hfree⟩
      rw [hlocked] at hfree
      cases hfree
  | some t' =>
      by_cases hst : st.updates = true
      · rw [Postgres.exec_get_update locked nowMs db hst, ht, Option.map_some,
          Statement.not_selects_of_locked ht hlocked haddr] at hget
        simpa using hget.symm
      · rcases Postgres.exec_get_some hget with ⟨h, -⟩ | ⟨r, -, heff, -⟩ | ⟨hnone, -⟩
        · rw [← h, ht]
        · cases heff <;> exact absurd rfl hst
        · rw [ht] at hnone
          cases hnone

/-! ## Ownership-checked writes -/

/-- The rows that an ownership-checked write returns. -/
theorem rows_exec_owned (d : Dialect) (held : String → Bool) (nowMs : Int) (id workerId : String)
    (write : OwnedWrite J) (db : Database J) :
    (exec d held nowMs (.owned id workerId write) db).2.rows =
      (db.tasks.rows.filter fun t => decide (t.id = id) && owned workerId nowMs t).map
        (write.setList nowMs).set := by
  rw [exec_eq]
  simp only [Postgres.exec, Postgres.execOwned_eq]
  rfl

/-- An ownership-checked write returns the new version of a row that its worker owns, if there
is one. -/
theorem rows_exec_owned_cases (d : Dialect) (held : String → Bool) (nowMs : Int)
    (id workerId : String) (write : OwnedWrite J) (db : Database J) :
    ((exec d held nowMs (.owned id workerId write) db).2.rows = [] ∧
      ∀ r, db.get id = some r → ¬Owned workerId nowMs r) ∨
      ∃ r rest, (exec d held nowMs (.owned id workerId write) db).2.rows =
          (write.setList nowMs).set r :: rest ∧
        db.get id = some r ∧ Owned workerId nowMs r := by
  rw [rows_exec_owned]
  cases hrows : db.tasks.rows.filter fun t => decide (t.id = id) && owned workerId nowMs t with
  | nil =>
      refine Or.inl ⟨rfl, fun r hr howned => ?_⟩
      have hmem := (KeyedTable.find?_eq_some_iff.mp hr).1
      have hout := List.filter_eq_nil_iff.mp hrows r hmem
      rw [Database.id_of_get hr, owned_iff.mpr howned] at hout
      simp at hout
  | cons r rest =>
      have hmem : r ∈ db.tasks.rows.filter
          fun t => decide (t.id = id) && owned workerId nowMs t := by
        rw [hrows]
        exact List.mem_cons_self
      rw [List.mem_filter, Bool.and_eq_true, decide_eq_true_eq, owned_iff] at hmem
      rcases hmem with ⟨hstored, rfl, howned⟩
      exact Or.inr ⟨r, _, rfl, KeyedTable.find?_of_mem hstored, howned⟩

end CairnQ
