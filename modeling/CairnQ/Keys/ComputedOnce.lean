import CairnQ.Keys.Uniqueness

/-!
# Computed once

While every submission under a key uses `reuse-succeeded`, the key is a cache: a task that failed
or was canceled is tried again under a new id, and once one has succeeded nothing is submitted
under the key any more.  Cancellations and whatever is done to the rows by others may come in
between; retries and purges of the key's own tasks may not.

Main results:

- Theorem `KeyState.Cached.of_step`: all tasks of the key but the one it points at have failed or
  were canceled, whatever is executed between the statements of a transaction.
- Theorem `computed_once`: after a success every submission is handed the task that succeeded, and
  no other task of the key is ever stored.
-/

namespace CairnQ

open Relational Transition

variable {J : Type} {d : Dialect} {key : String}

/-! ## The condition -/

/-- Submissions under the key use `reuse-succeeded`, and no purge is about a task of the key. -/
def ReusesSucceeded (key : String) (s : KeyState J) : KeyedStep J → Prop
  | .begin key' (.submit conflict _) => key' = key → conflict = .reuseSucceeded
  | .statement nowMs (.purge olderThanMs queue status name _) =>
      ∀ id t, s.submittedUnder id = some key → s.db.get id = some t →
        ¬Purgeable (nowMs - olderThanMs) queue status name t
  | _ => True

/-- A task that was tried in vain, or given up. -/
def Task.InVain (t : Task J) : Prop :=
  t.status = .failed ∨ t.status = .canceled

theorem Task.InVain.isTerminal {t : Task J} (h : t.InVain) : t.status.isTerminal = true := by
  rcases h with hstatus | hstatus <;> rw [hstatus] <;> rfl

/-- What `reuse-succeeded` passes over. -/
theorem inVain_of_not_reusable {t : Task J} (h : reusable .reuseSucceeded t.status = false) :
    t.InVain := by
  unfold Task.InVain
  cases hstatus : t.status <;> simp [reusable, hstatus, TaskStatus.isTerminal] at h ⊢

/-! ## The invariant -/

/-- What holds of an open transaction on the key. -/
structure KeyedTx.Reuses (db : Database J) (tx : KeyedTx J) : Prop where
  strategy : ∀ conflict n, tx.request = .submit conflict n → conflict = .reuseSucceeded
  declined : ∀ taskId, tx.phase ≠ .declined taskId
  /-- the key still points where it was read to point -/
  pointed : ∀ taskId, tx.phase = .pointed taskId → db.getKey tx.key = some taskId
  /-- with a task on its way in, the one before was in vain -/
  free : tx.phase = .free ∨ tx.insertedRow.isSome → ∀ id t, db.getKey tx.key = some id →
    db.get id = some t → t.InVain
  /-- a task that is handed back is the one the key points at -/
  returned : ∀ conflict n row, tx.request = .submit conflict n → tx.phase = .done (some row) →
    tx.insertedRow = none → db.getKey tx.key = some row.id

/-- What holds of the tasks of the key. -/
structure KeyState.Cached (key : String) (s : KeyState J) : Prop where
  stored : ∀ id, s.submittedUnder id = some key → (s.db.get id).isSome
  latest : ∀ id t, s.submittedUnder id = some key → s.db.get id = some t →
    s.db.getKey key = some id ∨ t.InVain
  txs : ∀ tx ∈ s.txs.rows, tx.key = key → tx.Reuses s.db

theorem KeyState.Cached.fresh : (KeyState.fresh (J := J)).Cached key where
  stored id h := by cases h
  latest id t h := by cases h
  txs tx h := by cases h

/-- Others leave the pointer alone, and a task in vain to which it points. -/
theorem KeyedTx.Reuses.of_same {db db' : Database J} {tx : KeyedTx J} (h : tx.Reuses db)
    (hpointer : db'.getKey tx.key = db.getKey tx.key)
    (hvain : ∀ id t t', db.getKey tx.key = some id → db.get id = some t → db'.get id = some t' →
      t.InVain → t'.InVain) : tx.Reuses db' where
  strategy := h.strategy
  declined := h.declined
  pointed taskId hphase := hpointer.trans (h.pointed taskId hphase)
  free hphase id t' hid ht' := by
    rw [hpointer] at hid
    rcases Option.isSome_iff_exists.mp (Database.get_of_getKey hid) with ⟨t, ht⟩
    exact hvain id t t' hid ht ht' (h.free hphase id t hid ht)
  returned conflict n row hrequest hphase hnone :=
    hpointer.trans (h.returned conflict n row hrequest hphase hnone)

/-! ## Its own statements -/

theorem KeyedTx.Reuses.opened (db : Database J) (key : String) {request : KeyedRequest J}
    (h : ∀ conflict n, request = .submit conflict n → conflict = .reuseSucceeded) :
    (KeyedTx.opened key request).Reuses db where
  strategy := h
  declined taskId hphase := by cases hphase
  pointed taskId hphase := by cases hphase
  free hphase := by simp [KeyedTx.opened] at hphase
  returned conflict n row _ hphase := by cases hphase

/-- A transaction that goes on without having written anything more. -/
theorem KeyedTx.Reuses.moves {db : Database J} {tx : KeyedTx J} (h : tx.Reuses db)
    (phase : KeyedPhase J) (canceledRow : Option (Task J))
    (hdeclined : ∀ taskId, phase ≠ .declined taskId)
    (hpointed : ∀ taskId, phase = .pointed taskId → db.getKey tx.key = some taskId)
    (hfree : phase = .free → ∀ id t, db.getKey tx.key = some id → db.get id = some t → t.InVain)
    (hreturned : ∀ conflict n row, tx.request = .submit conflict n → phase = .done (some row) →
      db.getKey tx.key = some row.id) :
    ({ tx with phase := phase, canceledRow := canceledRow } : KeyedTx J).Reuses db where
  strategy := h.strategy
  declined := hdeclined
  pointed := hpointed
  free hphase := hphase.elim hfree fun hrow => h.free (Or.inr hrow)
  returned conflict n row hrequest hphase _ := hreturned conflict n row hrequest hphase

/-- The key points nowhere. -/
theorem KeyedTx.Reuses.afterMissing {db : Database J} {tx : KeyedTx J} (h : tx.Reuses db)
    (hnone : db.getKey tx.key = none) : tx.afterMissing.Reuses db := by
  have hno : ∀ id, db.getKey tx.key ≠ some id := by
    intro id hid
    rw [hnone] at hid
    cases hid
  unfold KeyedTx.afterMissing
  split
  · exact h.moves .free tx.canceledRow (fun _ hphase => by cases hphase)
        (fun _ hphase => by cases hphase) (fun _ id _ hid => absurd hid (hno id))
        (fun _ _ _ _ hphase => by cases hphase)
  · exact h.moves (.done none) tx.canceledRow (fun _ hphase => by cases hphase)
        (fun _ hphase => by cases hphase) (fun hphase => by cases hphase)
        (fun _ _ _ _ hphase => by cases hphase)

/-- What a statement of the transaction keeps. -/
theorem KeyedTx.Reuses.advance {db : Database J} {tx tx' : KeyedTx J} {nowMs : Int}
    (h : tx.Reuses db) (hstep : tx.advance db nowMs = some tx') : tx'.Reuses db := by
  rcases tx with ⟨key, request, phase, canceledRow, insertedRow, pointedAtMs⟩
  cases phase with
  | locked =>
      simp only [KeyedTx.advance] at hstep
      cases hkey : db.getKey key with
      | none =>
          rw [hkey] at hstep
          cases hstep
          exact h.afterMissing hkey
      | some taskId =>
          rw [hkey] at hstep
          cases hstep
          refine h.moves (.pointed taskId) canceledRow (fun _ hnext => by cases hnext)
            (fun _ hnext => ?_) (fun hnext => by cases hnext)
            (fun _ _ _ _ hnext => by cases hnext)
          cases hnext
          exact hkey
  | pointed taskId =>
      have hkey : db.getKey key = some taskId := h.pointed taskId rfl
      cases request with
      | cancelByKey =>
          cases hstep
          exact h.moves (.done _) _ (fun _ hnext => by cases hnext)
            (fun _ hnext => by cases hnext) (fun hnext => by cases hnext)
            (fun _ _ _ hsubmit => by cases hsubmit)
      | submit conflict n =>
          cases h.strategy conflict n rfl
          rcases Option.isSome_iff_exists.mp (Database.get_of_getKey hkey) with ⟨row, hrow⟩
          simp only [KeyedTx.advance, hrow, reduceCtorEq, if_false] at hstep
          by_cases hreusable : reusable .reuseSucceeded row.status = true
          · rw [if_pos hreusable] at hstep
            cases hstep
            refine h.moves (.done (some row)) canceledRow (fun _ hnext => by cases hnext)
              (fun _ hnext => by cases hnext) (fun hnext => by cases hnext)
              (fun _ _ _ _ hnext => ?_)
            cases hnext
            rw [Database.id_of_get hrow]
            exact hkey
          · have hvain : row.InVain := inVain_of_not_reusable (by simpa using hreusable)
            rw [if_neg hreusable, if_pos hvain.isTerminal] at hstep
            cases hstep
            refine h.moves .free canceledRow (fun _ hnext => by cases hnext)
              (fun _ hnext => by cases hnext) (fun _ id t hid ht => ?_)
              (fun _ _ _ _ hnext => by cases hnext)
            cases hkey.symm.trans hid
            cases hrow.symm.trans ht
            exact hvain
  | declined taskId => exact absurd rfl (h.declined taskId)
  | free =>
      cases request with
      | cancelByKey => cases hstep
      | submit conflict n =>
          simp only [KeyedTx.advance] at hstep
          split at hstep
          · cases hstep
            exact
              { strategy := h.strategy
                declined := fun _ hnext => by cases hnext
                pointed := fun _ hnext => by cases hnext
                free := fun _ => h.free (Or.inl rfl)
                returned := fun _ _ _ _ hnext => by cases hnext }
          · cases hstep
  | inserted =>
      cases hstep
      exact
        { strategy := h.strategy
          declined := fun _ hnext => by cases hnext
          pointed := fun _ hnext => by cases hnext
          free := fun hnext => h.free (Or.inr (hnext.elim (fun hfree => by cases hfree) id))
          returned := fun _ _ row _ hnext hnone => by
            cases (KeyedPhase.done.inj hnext).symm.trans hnone }
  | done reply => cases hstep
  | refused => cases hstep

/-! ## What others do -/

/-- A statement keeps the tasks of the key, and leaves those that are over as they are. -/
theorem get_exec_of_submitted {s : KeyState J} {nowMs : Int} {st : Statement J}
    (hunkeyed : st.unkeyed = true) (hguard : ReusesSucceeded key s (.statement nowMs st))
    {id : String} {t : Task J} (hsub : s.submittedUnder id = some key)
    (ht : s.db.get id = some t) :
    ∃ t', (exec d s.heldRows nowMs st s.db).1.get id = some t' ∧
      (t.status.isTerminal = true → t' = t) := by
  rw [exec_eq]
  cases ht' : (Postgres.exec (d.locked s.heldRows) nowMs st s.db).1.get id with
  | none =>
      rcases Postgres.exec_get_none ht ht' with ⟨_, _, _, _, _, rfl, hpurgeable, -⟩
      exact absurd (purgeable_iff.mp hpurgeable) (hguard id t hsub ht)
  | some t' =>
      refine ⟨t', rfl, fun hterminal => ?_⟩
      rcases Postgres.exec_get_some ht' with ⟨hsame, -⟩ | ⟨r, hr, heff, -⟩ | ⟨hnone, -⟩
      · exact Option.some.inj (hsame.symm.trans ht)
      · cases ht.symm.trans hr
        rcases heff.of_terminal hterminal with ⟨-, _, rfl⟩
        cases hunkeyed
      · cases ht.symm.trans hnone

/-- The key points where it did. -/
theorem getKey_exec_of_submitted {s : KeyState J} {nowMs : Int} {st : Statement J}
    (hinv : KeyInvariant s) (hunkeyed : st.unkeyed = true)
    (hguard : ReusesSucceeded key s (.statement nowMs st)) :
    (exec d s.heldRows nowMs st s.db).1.getKey key = s.db.getKey key := by
  rw [exec_eq, Postgres.exec_getKey _ _ _ (fun _ _ h => by simp [h, Statement.unkeyed] at hunkeyed)]
  cases hid : s.db.getKey key with
  | none => rfl
  | some id =>
      rcases Option.isSome_iff_exists.mp (Database.get_of_getKey hid) with ⟨t, ht⟩
      rcases get_exec_of_submitted (d := d) hunkeyed hguard (hinv.pointer key id hid) ht with
        ⟨t', ht', -⟩
      rw [exec_eq] at ht'
      exact Option.filter_some_pos (by rw [ht']; rfl)

/-- A statement on its own submits nothing under a key. -/
theorem submittedUnder_of_recordStatement {submittedUnder : String → Option String}
    {st : Statement J} {reply : Reply J} {id : String}
    (h : recordStatement submittedUnder st reply id = some key) : submittedUnder id = some key := by
  unfold recordStatement at h
  split at h
  · split at h
    · unfold recordInsert at h
      split at h
      · cases h
      · exact h
    · exact h
  · exact h

/-- A commit keeps the stored tasks, and leaves those that are over as they are. -/
theorem KeyedTx.Inv.get_commit_of_get {db db' : Database J} {tx : KeyedTx J} (h : tx.Inv db)
    (hcommit : tx.commit db = some db') {id : String} {t : Task J} (ht : db.get id = some t) :
    ∃ t', db'.get id = some t' ∧ (t.status.isTerminal = true → t' = t) := by
  rcases KeyedTx.get_commit hcommit id with ⟨row, hrow, -, rfl, -⟩ | hsame
  · cases ht.symm.trans (h.inserted row hrow).1
  · rw [hsame]
    rcases tx.get_putCanceled db id with hget | ⟨row, hrow, rfl, hget⟩
    · exact ⟨t, hget.trans ht, fun _ => rfl⟩
    · refine ⟨row, hget, fun hterminal => ?_⟩
      rcases h.canceled row hrow with ⟨r, _, hr, hlive, -⟩
      cases ht.symm.trans hr
      rcases hlive with hstatus | hstatus <;> rw [hstatus] at hterminal <;> cases hterminal

/-- A commit with an inserted task points the key at it. -/
theorem KeyedTx.getKey_commit_of_inserted {db db' : Database J} {tx : KeyedTx J} {row : Task J}
    (hcommit : tx.commit db = some db') (hrow : tx.insertedRow = some row)
    (hat : tx.pointedAtMs.isSome) : db'.getKey tx.key = some row.id := by
  rcases KeyedTx.getKey_commit hcommit tx.key with ⟨r, hr, -, -, hpoint⟩ | ⟨hcase, -⟩
  · cases hr.symm.trans hrow
    exact hpoint
  · rcases hcase rfl with hnone | hnone
    · cases hrow.symm.trans hnone
    · rw [hnone] at hat
      cases hat

/-- What a commit has recorded: the inserted task, or what was there. -/
theorem KeyedTx.submittedUnder_of_record {tx : KeyedTx J}
    {submittedUnder : String → Option String} {id : String}
    (h : tx.record submittedUnder id = some key) :
    (∃ row, tx.insertedRow = some row ∧ tx.pointedAtMs.isSome ∧ row.id = id ∧ tx.key = key) ∨
      submittedUnder id = some key := by
  by_cases hown : ∃ row, tx.insertedRow = some row ∧ tx.pointedAtMs.isSome ∧ row.id = id
  · rcases hown with ⟨row, hrow, hat, rfl⟩
    rw [tx.record_of_inserted submittedUnder hrow hat] at h
    exact Or.inl ⟨row, hrow, hat, rfl, Option.some.inj h⟩
  · rw [tx.record_of_ne submittedUnder fun row hrow hat hid => hown ⟨row, hrow, hat, hid⟩] at h
    exact Or.inr h

/-! ## Steps keep it -/

theorem KeyState.Cached.statement {s : KeyState J} {nowMs : Int} {st : Statement J}
    (h : s.Cached key) (hinv : KeyInvariant s) (hunkeyed : st.unkeyed = true)
    (hguard : ReusesSucceeded key s (.statement nowMs st)) :
    KeyState.Cached key { s with
      db := (exec d s.heldRows nowMs st s.db).1
      submittedUnder :=
        recordStatement s.submittedUnder st (exec d s.heldRows nowMs st s.db).2 } where
  stored id hsub := by
    have hold := submittedUnder_of_recordStatement hsub
    rcases Option.isSome_iff_exists.mp (h.stored id hold) with ⟨t, ht⟩
    rcases get_exec_of_submitted (d := d) hunkeyed hguard hold ht with ⟨t', ht', -⟩
    exact Option.isSome_iff_exists.mpr ⟨t', ht'⟩
  latest id t' hsub ht' := by
    have hold := submittedUnder_of_recordStatement hsub
    rcases Option.isSome_iff_exists.mp (h.stored id hold) with ⟨t, ht⟩
    rcases get_exec_of_submitted (d := d) hunkeyed hguard hold ht with ⟨r, hr, hover⟩
    cases hr.symm.trans ht'
    rw [getKey_exec_of_submitted hinv hunkeyed hguard]
    refine (h.latest id t hold ht).imp_right fun hvain => ?_
    rw [hover hvain.isTerminal]
    exact hvain
  txs tx htx hkey := by
    subst hkey
    refine (h.txs tx htx rfl).of_same (getKey_exec_of_submitted hinv hunkeyed hguard) ?_
    intro id t t' hid ht ht' hvain
    rcases get_exec_of_submitted (d := d) hunkeyed hguard (hinv.pointer _ id hid) ht with
      ⟨r, hr, hover⟩
    cases hr.symm.trans ht'
    rw [hover hvain.isTerminal]
    exact hvain

theorem KeyState.Cached.begin {s : KeyState J} {key' : String} {request : KeyedRequest J}
    {txs : KeyedTable (KeyedTx.key (J := J))} (h : s.Cached key)
    (hguard : ReusesSucceeded key s (.begin key' request))
    (hinsert : s.txs.insert? (KeyedTx.opened key' request) = some txs) :
    KeyState.Cached key { s with txs := txs } where
  stored := h.stored
  latest := h.latest
  txs tx htx hkey := by
    rcases (KeyedTable.mem_insert? hinsert).mp htx with hold | rfl
    · exact h.txs tx hold hkey
    · refine KeyedTx.Reuses.opened s.db key' fun conflict n hrequest => ?_
      subst hrequest
      exact hguard hkey

theorem KeyState.Cached.advance {s : KeyState J} {tx tx' : KeyedTx J} {nowMs : Int}
    (h : s.Cached key) (hinv : KeyInvariant s) (htx : tx ∈ s.txs.rows)
    (hstep : tx.advance s.db nowMs = some tx') :
    KeyState.Cached key { s with
      txs := s.txs.updateWhere (fun t => t.key = tx'.key) (KeyedTable.replaceWith tx') } where
  stored := h.stored
  latest := h.latest
  txs other hother hkey := by
    rcases KeyedTable.mem_replaceWith hother with rfl | ⟨hmem, -⟩
    · exact (h.txs tx htx (((hinv.txs tx htx).advance hstep).2.symm.trans hkey)).advance hstep
    · exact h.txs other hmem hkey

theorem KeyState.Cached.rollback {s : KeyState J} (h : s.Cached key) (p : KeyedTx J → Bool) :
    KeyState.Cached key { s with txs := s.txs.deleteWhere p } where
  stored := h.stored
  latest := h.latest
  txs tx htx := h.txs tx (KeyedTable.mem_deleteWhere.mp htx).1

theorem KeyState.Cached.commit {s : KeyState J} {db' : Database J} {tx : KeyedTx J}
    (h : s.Cached key) (hinv : KeyInvariant s) (htx : tx ∈ s.txs.rows)
    (hcommit : tx.commit s.db = some db') :
    KeyState.Cached key
      { db := db'
        submittedUnder := tx.record s.submittedUnder
        txs := s.txs.deleteWhere fun t => t.key = tx.key } := by
  have hkept := fun {id : String} {t : Task J} (ht : s.db.get id = some t) =>
    (hinv.txs tx htx).get_commit_of_get hcommit ht
  refine ⟨fun id hsub => ?_, fun id t' hsub ht' => ?_, fun other hother hkey => ?_⟩
  · rcases KeyedTx.submittedUnder_of_record hsub with ⟨row, hrow, hat, rfl, rfl⟩ | hold
    · exact Database.get_of_getKey (KeyedTx.getKey_commit_of_inserted hcommit hrow hat)
    · rcases Option.isSome_iff_exists.mp (h.stored id hold) with ⟨t, ht⟩
      rcases hkept ht with ⟨t', ht', -⟩
      exact Option.isSome_iff_exists.mpr ⟨t', ht'⟩
  · rcases KeyedTx.submittedUnder_of_record hsub with ⟨row, hrow, hat, rfl, rfl⟩ | hold
    · exact Or.inl (KeyedTx.getKey_commit_of_inserted hcommit hrow hat)
    · rcases Option.isSome_iff_exists.mp (h.stored id hold) with ⟨t, ht⟩
      rcases hkept ht with ⟨r, hr, hover⟩
      cases hr.symm.trans ht'
      have hstays : t.InVain → t'.InVain := fun hvain => by
        rw [hover hvain.isTerminal]
        exact hvain
      rcases KeyedTx.getKey_commit hcommit key with ⟨row, hrow, -, rfl, -⟩ | ⟨-, hsame⟩
      · -- the key points at a new task; the one before was in vain
        rcases h.latest id t hold ht with hpoint | hvain
        · exact Or.inr (hstays
            ((h.txs tx htx rfl).free (Or.inr (by rw [hrow]; rfl)) id t hpoint ht))
        · exact Or.inr (hstays hvain)
      · rw [hsame]
        exact (h.latest id t hold ht).imp_right hstays
  · rcases KeyedTable.mem_deleteWhere.mp hother with ⟨hmem, hne⟩
    subst hkey
    refine (h.txs other hmem rfl).of_same ?_ fun id t t' _ ht ht' hvain => ?_
    · rcases KeyedTx.getKey_commit hcommit other.key with ⟨-, -, -, hkey, -⟩ | ⟨-, hsame⟩
      · exact absurd hkey.symm (of_decide_eq_false hne)
      · exact hsame
    · rcases hkept ht with ⟨r, hr, hover⟩
      cases hr.symm.trans ht'
      rw [hover hvain.isTerminal]
      exact hvain

/-- What a step of the system can be. -/
theorem keyed_cases {s s' : KeyState J} {l : KeyedStep J} (h : keyed d s l = some s') :
    (∃ nowMs st, l = .statement nowMs st ∧ st.unkeyed = true ∧
      s' = { s with
        db := (exec d s.heldRows nowMs st s.db).1
        submittedUnder :=
          recordStatement s.submittedUnder st (exec d s.heldRows nowMs st s.db).2 }) ∨
    (∃ key request txs, l = .begin key request ∧
      s.txs.insert? (KeyedTx.opened key request) = some txs ∧ s' = { s with txs := txs }) ∨
    (∃ key nowMs tx tx', l = .advance key nowMs ∧ tx ∈ s.txs.rows ∧
      tx.advance s.db nowMs = some tx' ∧
      s' = { s with
        txs := s.txs.updateWhere (fun t => t.key = tx'.key) (KeyedTable.replaceWith tx') }) ∨
    (∃ tx db', l = .commit tx.key ∧ tx ∈ s.txs.rows ∧ tx.commit s.db = some db' ∧
      s' =
        { db := db'
          submittedUnder := tx.record s.submittedUnder
          txs := s.txs.deleteWhere fun t => t.key = tx.key }) ∨
    ∃ key, l = .rollback key ∧ s' = { s with txs := s.txs.deleteWhere fun t => t.key = key } := by
  cases l with
  | statement nowMs st =>
      simp only [keyed] at h
      split at h
      · rename_i hguard
        exact Or.inl ⟨nowMs, st, rfl, hguard.1, (Option.some.inj h).symm⟩
      · cases h
  | begin key request =>
      simp only [keyed] at h
      split at h
      · rcases Option.map_eq_some_iff.mp h with ⟨txs, hinsert, rfl⟩
        exact Or.inr (Or.inl ⟨key, request, txs, rfl, hinsert, rfl⟩)
      · cases h
  | advance key nowMs =>
      rcases Option.bind_eq_some_iff.mp h with ⟨tx, htx, hrest⟩
      rcases Option.bind_eq_some_iff.mp hrest with ⟨tx', hadvance, hs⟩
      split at hs
      · exact Or.inr (Or.inr (Or.inl ⟨key, nowMs, tx, tx', rfl,
          (KeyedTable.find?_eq_some_iff.mp htx).1, hadvance, (Option.some.inj hs).symm⟩))
      · cases hs
  | commit key =>
      rcases Option.bind_eq_some_iff.mp h with ⟨tx, htx, hrest⟩
      split at hrest
      · rcases Option.bind_eq_some_iff.mp hrest with ⟨db', hcommit, hs⟩
        rcases KeyedTable.find?_eq_some_iff.mp htx with ⟨hmem, rfl⟩
        exact Or.inr (Or.inr (Or.inr (Or.inl
          ⟨tx, db', rfl, hmem, hcommit, (Option.some.inj hs).symm⟩)))
      · cases hrest
  | rollback key =>
      rcases Option.bind_eq_some_iff.mp h with ⟨tx, -, hs⟩
      exact Or.inr (Or.inr (Or.inr (Or.inr ⟨key, rfl, (Option.some.inj hs).symm⟩)))

theorem KeyState.Cached.of_step {s s' : KeyState J} {l : KeyedStep J} (h : s.Cached key)
    (hinv : KeyInvariant s) (hguard : ReusesSucceeded key s l) (hstep : keyed d s l = some s') :
    s'.Cached key := by
  rcases keyed_cases hstep with ⟨nowMs, st, rfl, hunkeyed, rfl⟩ | ⟨_, _, txs, rfl, hinsert, rfl⟩ |
    ⟨_, _, tx, tx', rfl, htx, hadvance, rfl⟩ | ⟨tx, db', rfl, htx, hcommit, rfl⟩ | ⟨_, rfl, rfl⟩
  · exact h.statement hinv hunkeyed hguard
  · exact h.begin hguard hinsert
  · exact h.advance hinv htx hadvance
  · exact h.commit hinv htx hcommit
  · exact h.rollback _

/-! ## After a success -/

/-- A task of the key has succeeded, and nothing has been submitted under the key since. -/
structure KeyState.Answered (key id : String) (t : Task J) (submitted : String → Prop)
    (s : KeyState J) : Prop where
  keys : KeyInvariant s
  cached : s.Cached key
  row : s.db.get id = some t
  same : ∀ id', s.submittedUnder id' = some key ↔ submitted id'

variable {id : String} {t : Task J} {submitted : String → Prop}

/-- The key points at it. -/
theorem KeyState.Answered.getKey {s : KeyState J} (h : s.Answered key id t submitted)
    (hid : submitted id) (hdone : t.status = .succeeded) : s.db.getKey key = some id := by
  rcases h.cached.latest id t ((h.same id).mpr hid) h.row with hpoint | hvain
  · exact hpoint
  · rcases hvain with hstatus | hstatus <;> cases hdone.symm.trans hstatus

/-- So no transaction on the key has a task on its way in. -/
theorem KeyState.Answered.not_free {s : KeyState J} (h : s.Answered key id t submitted)
    (hid : submitted id) (hdone : t.status = .succeeded) {tx : KeyedTx J}
    (htx : tx ∈ s.txs.rows) (hkey : tx.key = key) :
    tx.phase ≠ .free ∧ tx.insertedRow = none := by
  have hnot : ¬(tx.phase = .free ∨ tx.insertedRow.isSome) := fun hfree => by
    have hpoint := h.getKey hid hdone
    rw [← hkey] at hpoint
    rcases (h.cached.txs tx htx hkey).free hfree id t hpoint h.row with hstatus | hstatus <;>
      cases hdone.symm.trans hstatus
  rw [not_or] at hnot
  exact ⟨hnot.1, by simpa using hnot.2⟩

theorem KeyState.Answered.of_step {s s' : KeyState J} {l : KeyedStep J}
    (h : s.Answered key id t submitted) (hid : submitted id) (hdone : t.status = .succeeded)
    (hguard : ReusesSucceeded key s l) (hstep : keyed d s l = some s') :
    s'.Answered key id t submitted := by
  have hterminal : t.status.isTerminal = true := by rw [hdone]; rfl
  suffices hrest : s'.db.get id = some t ∧
      ∀ id', s'.submittedUnder id' = some key ↔ submitted id' from
    ⟨h.keys.step hstep, h.cached.of_step h.keys hguard hstep, hrest.1, hrest.2⟩
  rcases keyed_cases hstep with ⟨nowMs, st, rfl, hunkeyed, rfl⟩ | ⟨_, _, txs, rfl, -, rfl⟩ |
    ⟨_, _, tx, tx', rfl, -, -, rfl⟩ | ⟨tx, db', rfl, htx, hcommit, rfl⟩ | ⟨_, rfl, rfl⟩
  · refine ⟨?_, fun id' => Iff.trans ⟨submittedUnder_of_recordStatement, fun hsub => ?_⟩
      (h.same id')⟩
    · rcases get_exec_of_submitted (d := d) hunkeyed hguard ((h.same id).mpr hid) h.row with
        ⟨t', ht', hover⟩
      rw [ht', hover hterminal]
    · exact (recordStatement_of_get _ (h.cached.stored id' hsub)).trans hsub
  · exact ⟨h.row, h.same⟩
  · exact ⟨h.row, h.same⟩
  · have hinv := h.keys.txs tx htx
    refine ⟨?_, fun id' => Iff.trans ⟨fun hsub => ?_, fun hsub => ?_⟩ (h.same id')⟩
    · rcases hinv.get_commit_of_get hcommit h.row with ⟨t', ht', hover⟩
      rw [ht', hover hterminal]
    · rcases KeyedTx.submittedUnder_of_record hsub with ⟨row, hrow, -, -, hkey⟩ | hold
      · cases hrow.symm.trans (h.not_free hid hdone htx hkey).2
      · exact hold
    · refine (tx.record_of_ne _ fun row hrow _ hsame => ?_).trans hsub
      have hstored := h.cached.stored id' hsub
      rw [← hsame, (hinv.inserted row hrow).1] at hstored
      cases hstored
  · exact ⟨h.row, h.same⟩

/-- A cache.  While every submission under a key uses `reuse-succeeded`, nobody retries a task and
no purge is about one of the key, a task of the key that has succeeded is what the key stands for
from then on: in every interleaving its row stays as it is and the key points at it, the tasks
submitted under the key stay the same and the others among them have failed or were canceled,
every submission that returns a task returns this one, and one that reads the key from then on
returns it with its result. -/
theorem computed_once {s s' : KeyState J} {ls : List (KeyedStep J)}
    (hreach : (keyed d).Reachable (ReusesSucceeded key) KeyState.fresh s)
    (hsub : s.submittedUnder id = some key) (ht : s.db.get id = some t)
    (hdone : t.status = .succeeded)
    (hsteps : (keyed d).Steps (ReusesSucceeded key) s ls s') :
    s'.db.get id = some t ∧ s'.db.getKey key = some id ∧
      (∀ id', s'.submittedUnder id' = some key ↔ s.submittedUnder id' = some key) ∧
      (∀ id' t', s'.submittedUnder id' = some key → s'.db.get id' = some t' → id' ≠ id →
        t'.InVain) ∧
      ∀ tx conflict n, s'.txs.find? key = some tx → tx.request = .submit conflict n →
        (∀ row, tx.phase = .done (some row) → row.id = id) ∧
        ∀ taskId nowMs, tx.phase = .pointed taskId →
          tx.advance s'.db nowMs = some { tx with phase := .done (some t) } := by
  have hstart : KeyInvariant s ∧ s.Cached key :=
    hreach.invariant (I := fun s => KeyInvariant s ∧ s.Cached key)
      (fun _ _ _ h hguard hstep => ⟨h.1.step hstep, h.2.of_step h.1 hguard hstep⟩)
      ⟨KeyInvariant.fresh, KeyState.Cached.fresh⟩
  have hanswered : s'.Answered key id t fun id' => s.submittedUnder id' = some key :=
    hsteps.invariant (fun _ _ _ h hguard hstep => h.of_step hsub hdone hguard hstep)
      ⟨hstart.1, hstart.2, ht, fun _ => Iff.rfl⟩
  have hpoint := hanswered.getKey hsub hdone
  refine ⟨hanswered.row, hpoint, hanswered.same, fun id' t' hsub' ht' hne => ?_,
    fun tx conflict n htx hrequest => ?_⟩
  · rcases hanswered.cached.latest id' t' hsub' ht' with hother | hvain
    · exact absurd (Option.some.inj (hother.symm.trans hpoint)) hne
    · exact hvain
  · rcases KeyedTable.find?_eq_some_iff.mp htx with ⟨hmem, hkey⟩
    have hreuses := hanswered.cached.txs tx hmem hkey
    rw [← hkey] at hpoint
    refine ⟨fun row hphase => ?_, fun taskId nowMs hphase => ?_⟩
    · have hrow := hreuses.returned conflict n row hrequest hphase
        (hanswered.not_free hsub hdone hmem hkey).2
      exact Option.some.inj (hrow.symm.trans hpoint)
    · cases hreuses.strategy conflict n hrequest
      cases (hreuses.pointed taskId hphase).symm.trans hpoint
      simp [KeyedTx.advance, hphase, hrequest, hanswered.row, reusable, hdone,
        TaskStatus.isTerminal]

/-- A submission under a key. -/
def submitAs (id : String) : List (KeyedStep Nat) :=
  [.begin "k" (.submit .reuseSucceeded (.plain id "work" 1 0)), .advance "k" 0, .advance "k" 0]

/-- The first task of the key fails, and the second succeeds. -/
def cachedRun : List (KeyedStep Nat) :=
  submitAs "a" ++ [.advance "k" 0, .commit "k",
    .statement 1 (.claim (.claimOneQueue "default" none) "w" 10 1),
    .statement 2 (.owned "a" "w" (.fail 7 false 0))] ++
  submitAs "b" ++ [.advance "k" 0, .advance "k" 0, .commit "k",
    .statement 3 (.claim (.claimOneQueue "default" none) "w" 10 1),
    .statement 4 (.owned "b" "w" (.complete (some 8)))]

/-- The third submission finds the second task. -/
theorem computed_once_cachedRun :
    let s := (keyed .postgres).drive KeyState.fresh cachedRun
    let s' := (keyed .postgres).drive s (submitAs "c")
    (s.db.get "a").map Task.status = some .failed ∧ s'.db.getKey "k" = some "b" ∧
      ∀ id, s'.submittedUnder id = some "k" ↔ s.submittedUnder id = some "k" := by
  intro s s'
  have hreach : (keyed .postgres).Reachable (ReusesSucceeded "k") KeyState.fresh s :=
    Machine.reachable_drive _ _ _ fun l hl _ => by
      simp only [cachedRun, submitAs, List.mem_append, List.mem_cons, List.not_mem_nil,
        or_false] at hl
      rcases hl with (((rfl | rfl | rfl) | rfl | rfl | rfl | rfl) | rfl | rfl | rfl) |
        rfl | rfl | rfl | rfl | rfl <;> first | trivial | exact fun _ => rfl
  have hsteps : (keyed .postgres).Steps (ReusesSucceeded "k") s (submitAs "c") s' :=
    .cons (fun _ => rfl) rfl (.cons trivial rfl (.cons trivial rfl (.nil s')))
  rcases computed_once hreach (rfl : s.submittedUnder "b" = some "k") rfl rfl hsteps with
    ⟨-, hpoint, hsame, -⟩
  exact ⟨rfl, hpoint, hsame⟩

end CairnQ
