import CairnQ.Keys.KeyedTransaction

/-!
# Key uniqueness

A task is in play when it is queued or running and nobody asked to cancel it.  At most
one task submitted under a key is in play at any time, and it is the task the key
points at.

The argument follows a transaction.  Nobody else points its key, and outside a retry
no row that is not in play comes into play.  So once the transaction has read that its
key is free, or has canceled the task the key pointed at, no task of the key is in
play until the transaction inserts the next one.

Main results:

- Theorem `KeyedTx.Inv.of_foreign`: what a transaction learned stays true whatever
  others commit.
- Theorem `key_unique`: at most one task of a key is in play, the key points at it and
  never at a missing task, and no reuse strategy returns a failed or canceled task.
-/

namespace CairnQ

open Relational Transition

variable {J : Type}

/-! ## Tasks in play -/

/-- A live task that nobody asked to cancel. -/
def Task.InPlay (t : Task J) : Prop :=
  (t.status = .queued ∨ t.status = .running) ∧ t.cancelRequestedAtMs = none

/-- Outside a retry, a row in play after an effect was in play before. -/
theorem Effect.inPlay {nowMs : Int} {st : Statement J} {t t' : Task J}
    (heff : Effect nowMs st t t') (hretry : ∀ id resetAttempt, st ≠ .retry id resetAttempt)
    (h : t'.InPlay) : t.InPlay := by
  cases heff with
  | claimed hclaimable => exact ⟨Or.inl hclaimable.1, h.2⟩
  | recovered hexpired => exact ⟨Or.inr hexpired.1, h.2⟩
  | @written workerId write t howned =>
      refine ⟨Or.inr howned.1, ?_⟩
      cases write <;> exact h.2
  | renewed _ howned => exact ⟨Or.inr howned.1, h.2⟩
  | canceled hlive =>
      rcases hlive with hstatus | hstatus <;> simp [Task.InPlay, setCancel, hstatus] at h
  | retried _ => exact absurd rfl (hretry _ _)

/-- The canceled version of a live row is not in play. -/
theorem not_inPlay_setCancel {t : Task J} (hlive : t.status = .queued ∨ t.status = .running)
    (nowMs : Int) : ¬((setCancel nowMs).set t).InPlay := by
  rcases hlive with hstatus | hstatus <;> simp [Task.InPlay, setCancel, hstatus]

/-! ## What a transaction knows -/

/-- What holds of an open transaction and the committed rows. -/
structure KeyedTx.Inv (db : Database J) (tx : KeyedTx J) : Prop where
  /-- the key points where it was read to point, or nowhere any more -/
  pointed : ∀ taskId, tx.phase = .pointed taskId ∨ tx.phase = .declined taskId →
    ∀ id, db.getKey tx.key = some id → id = taskId
  /-- with the task of the transaction on its way in, the key points at a task that is
  not in play, or that the transaction canceled -/
  cleared : tx.phase = .free ∨ tx.insertedRow.isSome → ∀ id t, db.getKey tx.key = some id →
    db.get id = some t → t.InPlay → ∃ row, tx.canceledRow = some row ∧ row.id = id
  /-- the row it canceled has not changed since -/
  canceled : ∀ row, tx.canceledRow = some row → ∃ t nowMs, db.get row.id = some t ∧
    (t.status = .queued ∨ t.status = .running) ∧ row = (setCancel nowMs).set t
  /-- the id of the row it inserted is still free -/
  inserted : ∀ row, tx.insertedRow = some row → db.get row.id = none ∧ row.status = .queued
  /-- what a reuse strategy is about to return -/
  returned : ∀ conflict n row, tx.request = .submit conflict n →
    conflict = .reuse ∨ conflict = .reuseSucceeded → tx.phase = .done (some row) →
      row.status ≠ .failed ∧ row.status ≠ .canceled

/-- What others may commit next to a transaction: they do not point its key, bring no row
into play but a new one, and leave the rows it wrote alone. -/
structure Foreign (db db' : Database J) (tx : KeyedTx J) : Prop where
  pointer : ∀ id, db'.getKey tx.key = some id → db.getKey tx.key = some id
  inPlay : ∀ id t', db'.get id = some t' → t'.InPlay →
    db.get id = none ∨ ∃ t, db.get id = some t ∧ t.InPlay
  held : ∀ id ∈ tx.held, db'.get id = db.get id

/-- What a transaction learned stays true whatever others commit. -/
theorem KeyedTx.Inv.of_foreign {db db' : Database J} {tx : KeyedTx J} (h : tx.Inv db)
    (hforeign : Foreign db db' tx) : tx.Inv db' where
  pointed taskId hphase id hid := h.pointed taskId hphase id (hforeign.pointer id hid)
  cleared hphase id t hid ht hplay := by
    have hold := hforeign.pointer id hid
    rcases hforeign.inPlay id t ht hplay with hnone | ⟨t₀, ht₀, hplay₀⟩
    · have hsome := Database.get_of_getKey hold
      rw [hnone] at hsome
      cases hsome
    · exact h.cleared hphase id t₀ hold ht₀ hplay₀
  canceled row hrow := by
    rcases h.canceled row hrow with ⟨t, nowMs, ht, hlive, hset⟩
    refine ⟨t, nowMs, ?_, hlive, hset⟩
    rw [hforeign.held row.id (by simp [held, hrow])]
    exact ht
  inserted row hrow := by
    refine ⟨?_, (h.inserted row hrow).2⟩
    rw [hforeign.held row.id (by simp [held, hrow])]
    exact (h.inserted row hrow).1
  returned := h.returned

theorem KeyedTx.Inv.opened (db : Database J) (key : String) (request : KeyedRequest J) :
    (KeyedTx.opened key request).Inv db where
  pointed taskId hphase := by simp [KeyedTx.opened] at hphase
  cleared hphase := by simp [KeyedTx.opened] at hphase
  canceled row hrow := by cases hrow
  inserted row hrow := by cases hrow
  returned conflict n row _ _ hphase := by cases hphase

/-! ### Its own statements -/

/-- What `cancel` writes inside a transaction. -/
theorem head?_cancel_eq_some {db : Database J} {taskId : String} {nowMs : Int} {row : Task J}
    (h : (Postgres.cancel nowMs taskId db).2.head? = some row) :
    row.id = taskId ∧ ∃ t, db.get taskId = some t ∧
      (t.status = .queued ∨ t.status = .running) ∧ row = (setCancel nowMs).set t := by
  rcases KeyedTable.exists_find?_of_mem_returning (List.mem_of_mem_head? h) with ⟨t, ht, hp, hset⟩
  rw [Bool.and_eq_true, decide_eq_true_eq, decide_eq_true_eq] at hp
  have hid : row.id = taskId := by
    rw [← hset, SetList.id_set]
    exact hp.1
  exact ⟨hid, t, hid ▸ ht, hp.2, hset.symm⟩

/-- A row that `cancel` does not return is not live. -/
theorem not_inPlay_of_head?_cancel {db : Database J} {taskId : String} {nowMs : Int} {t : Task J}
    (h : (Postgres.cancel nowMs taskId db).2.head? = none) (ht : db.get taskId = some t) :
    ¬t.InPlay := by
  intro hplay
  have hmem := KeyedTable.mem_returning_of_find? (u := setCancel nowMs)
    (p := fun t => decide (t.id = taskId) && decide (t.status = .queued ∨ t.status = .running))
    ht (by simp [Database.id_of_get ht, hplay.1])
  rw [List.head?_eq_none_iff] at h
  change _ ∈ (Postgres.cancel nowMs taskId db).2 at hmem
  rw [h] at hmem
  cases hmem

/-- After `cancel` no task of the key is in play but the canceled one. -/
theorem KeyedTx.Inv.cancelRow {db : Database J} {tx : KeyedTx J} (h : tx.Inv db)
    {taskId : String} (hpointed : ∀ id, db.getKey tx.key = some id → id = taskId) (nowMs : Int) :
    (tx.cancelRow db taskId nowMs).Inv db := by
  have hcleared : ∀ id t, db.getKey tx.key = some id → db.get id = some t → t.InPlay →
      ∃ row, (Postgres.cancel nowMs taskId db).2.head? = some row ∧ row.id = id := by
    intro id t hid ht hplay
    have htask := hpointed id hid
    subst htask
    cases hhead : (Postgres.cancel nowMs id db).2.head? with
    | none => exact absurd hplay (not_inPlay_of_head?_cancel hhead ht)
    | some row => exact ⟨row, rfl, (head?_cancel_eq_some hhead).1⟩
  have hcanceled : ∀ row, (Postgres.cancel nowMs taskId db).2.head? = some row →
      ∃ t nowMs, db.get row.id = some t ∧ (t.status = .queued ∨ t.status = .running) ∧
        row = (setCancel nowMs).set t := by
    intro row hrow
    rcases head?_cancel_eq_some hrow with ⟨hid, t, ht, hlive, hset⟩
    exact ⟨t, nowMs, hid ▸ ht, hlive, hset⟩
  unfold KeyedTx.cancelRow
  cases hrequest : tx.request with
  | submit conflict n =>
      exact
        { pointed := by simp
          cleared := fun _ => hcleared
          canceled := hcanceled
          inserted := h.inserted
          returned := by simp }
  | cancelByKey =>
      exact
        { pointed := by simp
          cleared := fun _ => hcleared
          canceled := hcanceled
          inserted := h.inserted
          returned := by simp }

/-- A transaction that found its key free. -/
theorem KeyedTx.Inv.afterMissing {db : Database J} {tx : KeyedTx J} (h : tx.Inv db)
    (hfree : ∀ id t, db.getKey tx.key = some id → db.get id = some t → ¬t.InPlay) :
    tx.afterMissing.Inv db := by
  unfold KeyedTx.afterMissing
  cases hrequest : tx.request with
  | submit conflict n =>
      exact
        { pointed := by simp
          cleared := fun _ id t hid ht hplay => absurd hplay (hfree id t hid ht)
          canceled := h.canceled
          inserted := h.inserted
          returned := by simp }
  | cancelByKey =>
      exact
        { pointed := by simp
          cleared := fun _ id t hid ht hplay => absurd hplay (hfree id t hid ht)
          canceled := h.canceled
          inserted := h.inserted
          returned := by simp }

theorem KeyedTx.key_cancelRow (tx : KeyedTx J) (db : Database J) (taskId : String) (nowMs : Int) :
    (tx.cancelRow db taskId nowMs).key = tx.key := by
  unfold KeyedTx.cancelRow
  split <;> rfl

theorem KeyedTx.key_afterMissing (tx : KeyedTx J) : tx.afterMissing.key = tx.key := by
  unfold KeyedTx.afterMissing
  split <;> rfl

/-- `get` decides what becomes of a submit whose key points at a task. -/
theorem KeyedTx.Inv.afterGet {db : Database J} {tx : KeyedTx J} (h : tx.Inv db) {taskId : String}
    (hphase : tx.phase = .pointed taskId) (conflict : Conflict) {row : Task J}
    (hrow : db.get taskId = some row) :
    (reusable conflict row.status = true →
      ({ tx with phase := .done (some row) } : KeyedTx J).Inv db) ∧
    (row.status.isTerminal = true → ({ tx with phase := .free } : KeyedTx J).Inv db) ∧
    ({ tx with phase := .declined taskId } : KeyedTx J).Inv db := by
  have hpointed := h.pointed taskId (Or.inl hphase)
  have hcleared : tx.insertedRow.isSome → _ := fun hsome => h.cleared (Or.inr hsome)
  refine ⟨fun hreusable => ?_, fun hterminal => ?_, ?_⟩
  · exact
      { pointed := by simp
        cleared := fun hsome => hcleared (by simpa using hsome)
        canceled := h.canceled
        inserted := h.inserted
        returned := by
          intro conflict' n' row' _ _ hdone
          simp only [KeyedPhase.done.injEq, Option.some.injEq] at hdone
          exact hdone ▸ status_of_reusable hreusable }
  · exact
      { pointed := by simp
        cleared := by
          intro _ id t hid ht hplay
          rw [hpointed id hid, hrow] at ht
          cases ht
          rcases hplay.1 with hstatus | hstatus <;>
            simp [hstatus, TaskStatus.isTerminal] at hterminal
        canceled := h.canceled
        inserted := h.inserted
        returned := by simp }
  · exact
      { pointed := by
          intro taskId' hphase' id hid
          simp only [reduceCtorEq, KeyedPhase.declined.injEq, false_or] at hphase'
          exact (hpointed id hid).trans hphase'
        cleared := fun hsome => hcleared (by simpa using hsome)
        canceled := h.canceled
        inserted := h.inserted
        returned := by simp }

/-- Each statement of a transaction keeps what the transaction knows, and its key. -/
theorem KeyedTx.Inv.advance {db : Database J} {tx tx' : KeyedTx J} {nowMs : Int} (h : tx.Inv db)
    (hstep : tx.advance db nowMs = some tx') : tx'.Inv db ∧ tx'.key = tx.key := by
  unfold KeyedTx.advance at hstep
  split at hstep
  · -- `get_key`
    split at hstep
    · rename_i hnone
      cases hstep
      refine ⟨h.afterMissing fun id t hid => ?_, tx.key_afterMissing⟩
      rw [hnone] at hid
      cases hid
    · rename_i taskId hsome
      cases hstep
      refine ⟨?_, rfl⟩
      exact
        { pointed := by
            intro taskId' hphase' id hid
            simp only [KeyedPhase.pointed.injEq, reduceCtorEq, or_false] at hphase'
            rw [hsome] at hid
            exact (Option.some.inj hid).symm.trans hphase'
          cleared := fun hphase => h.cleared (Or.inr (by simpa using hphase))
          canceled := h.canceled
          inserted := h.inserted
          returned := by simp }
  · -- `get`, or `cancel` for `cancel_by_key`
    rename_i taskId hphase
    split at hstep
    · cases hstep
      exact ⟨h.cancelRow (h.pointed taskId (Or.inl hphase)) nowMs, tx.key_cancelRow ..⟩
    · rename_i conflict n _
      split at hstep
      · rename_i hnone
        cases hstep
        refine ⟨h.afterMissing fun id t hid ht => ?_, tx.key_afterMissing⟩
        rw [h.pointed taskId (Or.inl hphase) id hid, hnone] at ht
        cases ht
      · rename_i row hrow
        obtain ⟨hreused, hfree, hdeclined⟩ := h.afterGet hphase conflict hrow
        split at hstep
        · cases hstep
          refine ⟨?_, rfl⟩
          exact
            { pointed := by simp
              cleared := fun hphase => h.cleared (Or.inr (by simpa using hphase))
              canceled := h.canceled
              inserted := h.inserted
              returned := by simp }
        · split at hstep
          · rename_i hreusable
            cases hstep
            exact ⟨hreused hreusable, rfl⟩
          · split at hstep
            · rename_i hterminal
              cases hstep
              exact ⟨hfree hterminal, rfl⟩
            · cases hstep
              exact ⟨hdeclined, rfl⟩
  · -- `cancel`
    rename_i taskId hphase
    cases hstep
    exact ⟨h.cancelRow (h.pointed taskId (Or.inr hphase)) nowMs, tx.key_cancelRow ..⟩
  · -- `insert_task`
    rename_i hphase
    split at hstep
    · rename_i conflict n hrequest
      split at hstep
      · rename_i hfree
        cases hstep
        refine ⟨?_, rfl⟩
        exact
          { pointed := by simp
            cleared := fun _ => h.cleared (Or.inl hphase)
            canceled := h.canceled
            inserted := by
              intro row hrow
              cases hrow
              exact ⟨by simpa [NewTask.row] using hfree, rfl⟩
            returned := by simp }
      · cases hstep
    · cases hstep
  · -- `upsert_key`
    rename_i hphase
    cases hstep
    refine ⟨?_, rfl⟩
    exact
      { pointed := by simp
        cleared := fun hphase => h.cleared (Or.inr (by simpa using hphase))
        canceled := h.canceled
        inserted := h.inserted
        returned := by
          intro conflict n row _ _ hdone
          simp only [KeyedPhase.done.injEq] at hdone
          simp [(h.inserted row hdone).2] }
  · cases hstep
  · cases hstep

/-! ## The invariant of the system -/

/-- What holds of every reachable state. -/
structure KeyInvariant (s : KeyState J) : Prop where
  pointer : ∀ key id, s.db.getKey key = some id → s.submittedUnder id = some key
  inPlay : ∀ id key t, s.submittedUnder id = some key → s.db.get id = some t → t.InPlay →
    s.db.getKey key = some id
  txs : ∀ tx ∈ s.txs.rows, tx.Inv s.db
  disjoint : ∀ tx ∈ s.txs.rows, ∀ tx' ∈ s.txs.rows, ∀ id, id ∈ tx.held → id ∈ tx'.held →
    tx.key = tx'.key

theorem KeyInvariant.fresh : KeyInvariant (J := J) KeyState.fresh where
  pointer key id h := by cases h
  inPlay id key t h := by cases h
  txs tx h := by cases h
  disjoint tx h := by cases h

theorem KeyState.heldRows_eq_true {s : KeyState J} {id : String} :
    s.heldRows id = true ↔ ∃ tx ∈ s.txs.rows, id ∈ tx.held := by
  simp [KeyState.heldRows]

/-- What a statement that does not wait leaves of the rows of open transactions. -/
theorem get_exec_of_held {d : Dialect} {s : KeyState J} {nowMs : Int} {st : Statement J}
    (hwaits : s.waits st = false) (hexclusive : d.exclusive = true → s.txs.rows = [])
    {tx : KeyedTx J} (htx : tx ∈ s.txs.rows) {id : String} (hid : id ∈ tx.held) :
    (exec d s.heldRows nowMs st s.db).1.get id = s.db.get id := by
  have hheld : s.heldRows id = true := KeyState.heldRows_eq_true.mpr ⟨tx, htx, hid⟩
  have hlocked : d.locked s.heldRows id = true := by
    cases d with
    | sqlite =>
        rw [hexclusive rfl] at htx
        cases htx
    | postgres => exact hheld
  have hnot : (st.addresses id || st.insertsId id) = false := by
    simp only [KeyState.waits, List.any_eq_false] at hwaits
    have hrow := hwaits tx htx
    simp only [List.any_eq_true, not_exists, not_and, Bool.not_eq_true] at hrow
    exact hrow id hid
  rw [Bool.or_eq_false_iff] at hnot
  rw [exec_eq]
  cases hget : s.db.get id with
  | some t => exact Postgres.exec_get_locked hget hlocked hnot.1
  | none =>
      cases hget' : (Postgres.exec (d.locked s.heldRows) nowMs st s.db).1.get id with
      | none => rfl
      | some t' =>
          rcases Postgres.exec_get_some hget' with ⟨h, -⟩ | ⟨t, ht, -⟩ | ⟨-, ⟨n, rfl, rfl⟩, -⟩
          · rw [hget] at h
            cases h
          · rw [hget] at ht
            cases ht
          · have := Database.id_of_get hget'
            simp only [Statement.insertsId, decide_eq_false_iff_not] at hnot
            exact absurd this hnot.2

/-- A statement outside keyed transactions is foreign to every open transaction. -/
theorem foreign_statement {d : Dialect} {s : KeyState J} {nowMs : Int} {st : Statement J}
    (hunkeyed : st.unkeyed = true) (hwaits : s.waits st = false)
    (hexclusive : d.exclusive = true → s.txs.rows = []) {tx : KeyedTx J}
    (htx : tx ∈ s.txs.rows) : Foreign s.db (exec d s.heldRows nowMs st s.db).1 tx where
  pointer id hid := by
    rw [exec_eq, Postgres.exec_getKey _ _ _ (fun _ _ h => by simp [h, Statement.unkeyed] at hunkeyed)]
      at hid
    exact (Option.filter_eq_some_iff.mp hid).1
  inPlay id t' ht' hplay := by
    rw [exec_eq] at ht'
    rcases Postgres.exec_get_some ht' with ⟨h, -⟩ | ⟨t, ht, heff, -⟩ | ⟨hnone, -⟩
    · exact Or.inr ⟨t', h, hplay⟩
    · exact Or.inr ⟨t, ht, heff.inPlay (fun _ _ h => by simp [h, Statement.unkeyed] at hunkeyed)
        hplay⟩
    · exact Or.inl hnone
  held id hid := get_exec_of_held hwaits hexclusive htx hid

/-- A statement on its own records nothing about a task that was there. -/
theorem recordStatement_of_get {d : Dialect} {held : String → Bool} {nowMs : Int}
    {st : Statement J} {db : Database J} (submittedUnder : String → Option String) {id : String}
    (hid : (db.get id).isSome) :
    recordStatement submittedUnder st (exec d held nowMs st db).2 id = submittedUnder id := by
  unfold recordStatement
  split
  · rename_i n
    rw [exec_eq]
    rcases Postgres.exec_insertTask (d.locked held) nowMs n db with ⟨hfree, -⟩ | ⟨-, hexec⟩
    · have hne : id ≠ n.id := by
        rintro rfl
        rw [hfree] at hid
        cases hid
      split
      · exact if_neg hne
      · rfl
    · rw [hexec]
      rfl
  · rfl

theorem KeyInvariant.statement {d : Dialect} {s : KeyState J} {nowMs : Int} {st : Statement J}
    (h : KeyInvariant s) (hunkeyed : st.unkeyed = true) (hwaits : s.waits st = false)
    (hexclusive : d.exclusive = true → s.txs.rows = []) :
    KeyInvariant { s with
      db := (exec d s.heldRows nowMs st s.db).1
      submittedUnder :=
        recordStatement s.submittedUnder st (exec d s.heldRows nowMs st s.db).2 } where
  pointer key id hid := by
    simp only [exec_eq] at hid
    rw [Postgres.exec_getKey _ _ _ (fun _ _ h => by simp [h, Statement.unkeyed] at hunkeyed)] at hid
    have hold := (Option.filter_eq_some_iff.mp hid).1
    exact (recordStatement_of_get _ (Database.get_of_getKey hold)).trans (h.pointer key id hold)
  inPlay id key t' hsubmitted ht' hplay := by
    simp only [exec_eq] at ht' ⊢
    rw [Postgres.exec_getKey _ _ _ (fun _ _ h => by simp [h, Statement.unkeyed] at hunkeyed)]
    have hold : (∃ t, s.db.get id = some t ∧ t.InPlay) → (s.db.getKey key).filter (fun id =>
        ((Postgres.exec (d.locked s.heldRows) nowMs st s.db).1.get id).isSome) = some id := by
      rintro ⟨t, ht, hplay⟩
      have hkept : s.submittedUnder id = some key :=
        (recordStatement_of_get _ (by rw [ht]; rfl)).symm.trans hsubmitted
      rw [h.inPlay id key t hkept ht hplay]
      exact Option.filter_some_pos (by rw [ht']; rfl)
    rcases Postgres.exec_get_some ht' with ⟨ht, -⟩ | ⟨t, ht, heff, -⟩ | ⟨hnone, ⟨n, rfl, rfl⟩, hnames⟩
    · exact hold ⟨t', ht, hplay⟩
    · exact hold ⟨t, ht,
        heff.inPlay (fun _ _ h => by simp [h, Statement.unkeyed] at hunkeyed) hplay⟩
    · -- a task submitted without a key
      have hid : n.id = id := Database.id_of_get ht'
      subst hid
      rw [← exec_eq] at hnames
      simp [recordStatement, hnames, recordInsert] at hsubmitted
  txs tx htx := (h.txs tx htx).of_foreign (foreign_statement hunkeyed hwaits hexclusive htx)
  disjoint := h.disjoint

theorem KeyInvariant.begin {s : KeyState J} {key : String} {request : KeyedRequest J}
    {txs : KeyedTable (KeyedTx.key (J := J))} (h : KeyInvariant s)
    (hinsert : s.txs.insert? (KeyedTx.opened key request) = some txs) :
    KeyInvariant { s with txs := txs } where
  pointer := h.pointer
  inPlay := h.inPlay
  txs tx htx := by
    rcases (KeyedTable.mem_insert? hinsert).mp htx with htx | rfl
    · exact h.txs tx htx
    · exact KeyedTx.Inv.opened s.db key request
  disjoint tx htx tx' htx' id hid hid' := by
    rcases (KeyedTable.mem_insert? hinsert).mp htx with htx | rfl
    · rcases (KeyedTable.mem_insert? hinsert).mp htx' with htx' | rfl
      · exact h.disjoint tx htx tx' htx' id hid hid'
      · cases hid'
    · cases hid

theorem KeyInvariant.advance {s : KeyState J} {tx tx' : KeyedTx J} {nowMs : Int}
    (h : KeyInvariant s) (htx : tx ∈ s.txs.rows) (hstep : tx.advance s.db nowMs = some tx')
    (hheld : ∀ id ∈ tx'.held, id ∈ tx.held ∨ s.heldRows id = false) :
    KeyInvariant { s with
      txs := s.txs.updateWhere (fun t => t.key = tx'.key) (KeyedTable.replaceWith tx') } := by
  obtain ⟨hinv, hkey⟩ := (h.txs tx htx).advance hstep
  -- a row the transaction holds now is held by no other
  have hown : ∀ other ∈ s.txs.rows, ∀ id, id ∈ tx'.held → id ∈ other.held → other.key = tx.key := by
    intro other hother id hid hid'
    rcases hheld id hid with hold | hfree
    · exact h.disjoint other hother tx htx id hid' hold
    · have := KeyState.heldRows_eq_true.mpr ⟨other, hother, hid'⟩
      rw [hfree] at this
      cases this
  refine ⟨h.pointer, h.inPlay, ?_, ?_⟩
  · intro other hother
    rcases KeyedTable.mem_replaceWith hother with rfl | ⟨hmem, -⟩
    · exact hinv
    · exact h.txs other hmem
  · intro a ha b hb id hida hidb
    rcases KeyedTable.mem_replaceWith ha with rfl | ⟨hmema, hnea⟩ <;>
      rcases KeyedTable.mem_replaceWith hb with rfl | ⟨hmemb, hneb⟩
    · rfl
    · exact absurd ((hown b hmemb id hida hidb).trans hkey.symm) hneb
    · exact absurd ((hown a hmema id hidb hida).trans hkey.symm) hnea
    · exact h.disjoint a hmema b hmemb id hida hidb

theorem KeyInvariant.rollback {s : KeyState J} (h : KeyInvariant s) (p : KeyedTx J → Bool) :
    KeyInvariant { s with txs := s.txs.deleteWhere p } where
  pointer := h.pointer
  inPlay := h.inPlay
  txs tx htx := h.txs tx (KeyedTable.mem_deleteWhere.mp htx).1
  disjoint a ha b hb :=
    h.disjoint a (KeyedTable.mem_deleteWhere.mp ha).1 b (KeyedTable.mem_deleteWhere.mp hb).1

/-! ### Commits -/

/-- A row in play after a commit was in play before, or is the one just inserted. -/
theorem KeyedTx.Inv.get_commit_of_inPlay {db db' : Database J} {tx : KeyedTx J} (h : tx.Inv db)
    (hcommit : tx.commit db = some db') {id : String} {t' : Task J} (ht' : db'.get id = some t')
    (hplay : t'.InPlay) :
    (∃ row, tx.insertedRow = some row ∧ tx.pointedAtMs.isSome ∧ row.id = id) ∨
      (db.get id = some t' ∧ ∀ row, tx.canceledRow = some row → row.id ≠ id) := by
  rcases KeyedTx.get_commit hcommit id with ⟨row, hrow, hat, hid, -⟩ | hsame
  · exact Or.inl ⟨row, hrow, hat, hid⟩
  · refine Or.inr ?_
    have hnot : ∀ row, tx.canceledRow = some row → ¬row.InPlay := by
      intro row hrow
      rcases h.canceled row hrow with ⟨t, nowMs, -, hlive, rfl⟩
      exact not_inPlay_setCancel hlive nowMs
    rw [ht'] at hsame
    rcases tx.get_putCanceled db id with hget | ⟨row, hrow, -, hget⟩
    · refine ⟨(hget.symm.trans hsame.symm), ?_⟩
      rintro row hrow rfl
      -- the canceled version is what a commit leaves under its id
      rcases h.canceled row hrow with ⟨t, -, ht, -⟩
      have hput : (tx.putCanceled db).get row.id = some row := by
        simp [KeyedTx.putCanceled, hrow, Database.get_putTask, ht]
      rw [hput] at hsame
      cases hsame
      exact hnot t' hrow hplay
    · rw [hget] at hsame
      cases hsame
      exact absurd hplay (hnot t' hrow)

/-- A commit is foreign to the transactions on other keys. -/
theorem foreign_commit {s : KeyState J} {db' : Database J} {tx other : KeyedTx J}
    (h : KeyInvariant s) (htx : tx ∈ s.txs.rows) (hother : other ∈ s.txs.rows)
    (hne : other.key ≠ tx.key) (hcommit : tx.commit s.db = some db') : Foreign s.db db' other where
  pointer id hid := by
    rcases KeyedTx.getKey_commit hcommit other.key with ⟨row, -, -, hkey, -⟩ | ⟨-, hsame⟩
    · exact absurd hkey.symm hne
    · exact hsame ▸ hid
  inPlay id t' ht' hplay := by
    rcases (h.txs tx htx).get_commit_of_inPlay hcommit ht' hplay with ⟨row, hrow, -, rfl⟩ | ⟨ht, -⟩
    · exact Or.inl ((h.txs tx htx).inserted row hrow).1
    · exact Or.inr ⟨t', ht, hplay⟩
  held id hid := by
    have hnot : id ∉ tx.held := fun hmem =>
      hne (h.disjoint other hother tx htx id hid hmem)
    rcases KeyedTx.get_commit hcommit id with ⟨row, hrow, -, rfl, -⟩ | hsame
    · exact absurd (by simp [KeyedTx.held, hrow]) hnot
    · rcases tx.get_putCanceled s.db id with hget | ⟨row, hrow, rfl, -⟩
      · exact hsame.trans hget
      · exact absurd (by simp [KeyedTx.held, hrow]) hnot

/-- A commit records nothing about a task it did not insert. -/
theorem KeyedTx.record_of_ne (tx : KeyedTx J) (submittedUnder : String → Option String)
    {id : String}
    (hid : ∀ row, tx.insertedRow = some row → tx.pointedAtMs.isSome → row.id ≠ id) :
    tx.record submittedUnder id = submittedUnder id := by
  unfold KeyedTx.record
  cases hrow : tx.insertedRow with
  | none => rfl
  | some row =>
      cases hat : tx.pointedAtMs with
      | none => rfl
      | some atMs => exact if_neg fun heq => hid row hrow (by rw [hat]; rfl) heq.symm

/-- A commit records the task it inserted. -/
theorem KeyedTx.record_of_inserted (tx : KeyedTx J) (submittedUnder : String → Option String)
    {row : Task J} (hrow : tx.insertedRow = some row) (hat : tx.pointedAtMs.isSome) :
    tx.record submittedUnder row.id = some tx.key := by
  rcases Option.isSome_iff_exists.mp hat with ⟨atMs, hat⟩
  simp [KeyedTx.record, hrow, hat, recordInsert]

theorem KeyInvariant.commit {s : KeyState J} {db' : Database J} {tx : KeyedTx J}
    (h : KeyInvariant s) (htx : tx ∈ s.txs.rows) (hcommit : tx.commit s.db = some db') :
    KeyInvariant
      { db := db'
        submittedUnder := tx.record s.submittedUnder
        txs := s.txs.deleteWhere fun t => t.key = tx.key } := by
  have hinv := h.txs tx htx
  refine ⟨?_, ?_, ?_, ?_⟩
  · intro key id hid
    rcases KeyedTx.getKey_commit hcommit key with ⟨row, hrow, hat, rfl, hpoint⟩ | ⟨-, hsame⟩
    · rw [hid] at hpoint
      cases hpoint
      exact tx.record_of_inserted _ hrow hat
    · rw [hid] at hsame
      refine (tx.record_of_ne _ ?_).trans (h.pointer key id hsame.symm)
      rintro row hrow - rfl
      have := Database.get_of_getKey hsame.symm
      rw [(hinv.inserted row hrow).1] at this
      cases this
  · intro id key t' hsubmitted ht' hplay
    rcases hinv.get_commit_of_inPlay hcommit ht' hplay with ⟨row, hrow, hat, rfl⟩ | ⟨ht, hnot⟩
    · -- the task just submitted
      have hkey : key = tx.key :=
        Option.some.inj (hsubmitted.symm.trans (tx.record_of_inserted _ hrow hat))
      subst hkey
      rcases KeyedTx.getKey_commit hcommit tx.key with ⟨row', hrow', -, -, hpoint⟩ | ⟨hcase, -⟩
      · rw [hrow] at hrow'
        cases hrow'
        exact hpoint
      · rcases hcase rfl with hnone | hnone
        · rw [hrow] at hnone
          cases hnone
        · rw [hnone] at hat
          cases hat
    · -- a task submitted before
      have hne : ∀ row, tx.insertedRow = some row → tx.pointedAtMs.isSome → row.id ≠ id := by
        rintro row hrow - rfl
        rw [(hinv.inserted row hrow).1] at ht
        cases ht
      have hold := h.inPlay id key t' ((tx.record_of_ne _ hne).symm.trans hsubmitted) ht hplay
      rcases KeyedTx.getKey_commit hcommit key with ⟨row, hrow, -, rfl, -⟩ | ⟨-, hsame⟩
      · rcases hinv.cleared (Or.inr (by rw [hrow]; rfl)) id t' hold ht hplay with ⟨c, hc, hcid⟩
        exact absurd hcid (hnot c hc)
      · rw [hsame]
        exact hold
  · intro other hother
    rcases KeyedTable.mem_deleteWhere.mp hother with ⟨hmem, hne⟩
    exact (h.txs other hmem).of_foreign
      (foreign_commit h htx hmem (of_decide_eq_false hne) hcommit)
  · intro a ha b hb
    exact h.disjoint a (KeyedTable.mem_deleteWhere.mp ha).1 b (KeyedTable.mem_deleteWhere.mp hb).1

/-- What a transaction wrote can always be committed. -/
theorem KeyedTx.Inv.commit_isSome {db : Database J} {tx : KeyedTx J} (h : tx.Inv db) :
    (tx.commit db).isSome := by
  unfold KeyedTx.commit
  split
  · rename_i row atMs hrow hat
    have hfree : ¬((tx.putCanceled db).get row.id).isSome := by
      rcases tx.get_putCanceled db row.id with hget | ⟨c, hc, hid, -⟩
      · simp [hget, (h.inserted row hrow).1]
      · -- the canceled row is stored, the inserted one is not
        rcases h.canceled c hc with ⟨t, -, ht, -⟩
        rw [hid, (h.inserted row hrow).1] at ht
        cases ht
    rw [← Database.insertTask?_eq_none_iff] at hfree
    rcases Option.ne_none_iff_exists'.mp hfree with ⟨mid, hmid⟩
    have hstored : mid.get row.id ≠ none := by
      rw [Database.get_insertTask? hmid, if_pos rfl]
      simp
    rw [hmid, Option.bind_some, Option.isSome_iff_ne_none, Ne, Database.upsertKey?_eq_none_iff]
    exact hstored
  · rfl

theorem KeyInvariant.step {d : Dialect} {s s' : KeyState J} {l : KeyedStep J}
    (h : KeyInvariant s) (hstep : keyed d s l = some s') : KeyInvariant s' := by
  cases l with
  | statement nowMs st =>
      simp only [keyed] at hstep
      split at hstep
      · rename_i hguard
        cases hstep
        exact h.statement hguard.1 hguard.2.1 hguard.2.2
      · cases hstep
  | begin key request =>
      simp only [keyed] at hstep
      split at hstep
      · rcases Option.map_eq_some_iff.mp hstep with ⟨txs, hinsert, rfl⟩
        exact h.begin hinsert
      · cases hstep
  | advance key nowMs =>
      rcases Option.bind_eq_some_iff.mp hstep with ⟨tx, htx, hrest⟩
      rcases Option.bind_eq_some_iff.mp hrest with ⟨tx', hadvance, hs⟩
      split at hs
      · rename_i hheld
        cases hs
        exact h.advance (KeyedTable.find?_eq_some_iff.mp htx).1 hadvance hheld
      · cases hs
  | commit key =>
      rcases Option.bind_eq_some_iff.mp hstep with ⟨tx, htx, hrest⟩
      split at hrest
      · rcases Option.bind_eq_some_iff.mp hrest with ⟨db', hcommit, hs⟩
        cases hs
        rcases KeyedTable.find?_eq_some_iff.mp htx with ⟨hmem, rfl⟩
        exact h.commit hmem hcommit
      · cases hrest
  | rollback key =>
      rcases Option.bind_eq_some_iff.mp hstep with ⟨tx, htx, hs⟩
      cases hs
      exact h.rollback _

/-! ## Key uniqueness -/

/-- Key uniqueness.  In every committed state of every run: two tasks in play that were
submitted under one key are the same task, and the key points at it; the keys never point
at a missing task; and a reuse strategy never returns a task that was failed or canceled
when it was read. -/
theorem key_unique {d : Dialect} {s : KeyState J}
    (hreach : (keyed d).Reachable anyStep KeyState.fresh s) :
    (∀ key id id' t t', s.submittedUnder id = some key → s.submittedUnder id' = some key →
      s.db.get id = some t → s.db.get id' = some t' → t.InPlay → t'.InPlay → id = id') ∧
    (∀ key id t, s.submittedUnder id = some key → s.db.get id = some t → t.InPlay →
      s.db.getKey key = some id) ∧
    (∀ key id, s.db.getKey key = some id → (s.db.get id).isSome) ∧
    (∀ key tx conflict n row, s.txs.find? key = some tx → tx.request = .submit conflict n →
      conflict = .reuse ∨ conflict = .reuseSucceeded → tx.phase = .done (some row) →
        row.status ≠ .failed ∧ row.status ≠ .canceled) := by
  have hinvariant : KeyInvariant s :=
    hreach.invariant (fun _ _ _ h _ hstep => h.step hstep) KeyInvariant.fresh
  refine ⟨?_, fun key id t hsub ht hplay => hinvariant.inPlay id key t hsub ht hplay,
    fun key id hid => Database.get_of_getKey hid, ?_⟩
  · intro key id id' t t' hsub hsub' ht ht' hplay hplay'
    have hpoint := hinvariant.inPlay id key t hsub ht hplay
    have hpoint' := hinvariant.inPlay id' key t' hsub' ht' hplay'
    rw [hpoint] at hpoint'
    exact Option.some.inj hpoint'
  · intro key tx conflict n row htx hrequest hconflict hdone
    have hmem := (KeyedTable.find?_eq_some_iff.mp htx).1
    exact (hinvariant.txs tx hmem).returned conflict n row hrequest hconflict hdone

/-- A running task is replaced while a recovery sweeps between the statements. -/
def replacedRun : List (KeyedStep Nat) :=
  [.begin "k" (.submit .reuse (.plain "a" "work" 3 0)),
    .advance "k" 0, .advance "k" 0, .advance "k" 0, .commit "k",
    .statement 1 (.claim (.claimOneQueue "default" none) "w" 10 1),
    .begin "k" (.submit .replace (.plain "b" "work" 3 0)),
    .advance "k" 12, .advance "k" 12, .advance "k" 12,
    .statement 13 (.recoverLeases 8),
    .advance "k" 14, .advance "k" 14, .commit "k"]

/-- The new task is the one the key points at; the old one was not requeued. -/
theorem key_unique_replacedRun :
    let s := (keyed .postgres).drive KeyState.fresh replacedRun
    (s.db.get "a").map Task.status = some .running ∧ s.db.getKey "k" = some "b" :=
  ⟨rfl, (key_unique (Machine.reachable_drive (keyed .postgres) KeyState.fresh replacedRun
    fun _ _ _ => trivial)).2.1 "k" "b" _ rfl rfl ⟨Or.inl rfl, rfl⟩⟩

end CairnQ
