import CairnQ.Keys.ComputedOnce
import Mathlib.Algebra.Order.BigOperators.Group.List
import Mathlib.Algebra.Order.Ring.Nat

/-!
# Progress of keyed transactions

A transaction waits for a row that another one wrote.  One that looks up its key, or is about to
cancel a task, holds no row, and one that is about to insert holds at most the row it canceled, so
what is waited for is released without waiting: keyed transactions do not deadlock.

Main results:

- Theorem `exists_finishing`: some open transaction can go on.
- Theorem `keyed_finishes`: left alone, the open transactions end.
-/

namespace CairnQ

open Relational Transition

variable {J : Type} {d : Dialect} {db : Database J} {nowMs : Int}

/-! ## What is ahead of a transaction -/

/-- The statements that a transaction has ahead of it, and its end. -/
def KeyedTx.ahead (tx : KeyedTx J) : Nat :=
  match tx.phase with
  | .locked => 6
  | .pointed _ => 5
  | .declined _ => 4
  | .free => 3
  | .inserted => 2
  | .done _ | .refused => 1

/-- The same, of all of them. -/
def KeyState.ahead (s : KeyState J) : Nat :=
  (s.txs.rows.map KeyedTx.ahead).sum

/-- A transaction ends with an error of its own: `AlreadyExists`, or the id of its task is taken. -/
inductive KeyedTx.Raises (db : Database J) (tx : KeyedTx J) : Prop
  | refused (hphase : tx.phase = .refused)
  | taken {conflict : Conflict} {n : NewTask J} (hrequest : tx.request = .submit conflict n)
      (hphase : tx.phase = .free) (hstored : (db.get n.id).isSome)

/-- Open transactions go on, commit, or end with an error of their own. -/
def Finishing (s : KeyState J) : KeyedStep J → Prop
  | .advance _ _ | .commit _ => True
  | .rollback key => ∃ tx, s.txs.find? key = some tx ∧ tx.Raises s.db
  | _ => False

section Ahead

variable {tx tx' : KeyedTx J}

theorem KeyedTx.ahead_pos (tx : KeyedTx J) : 0 < tx.ahead := by
  unfold ahead
  split <;> omega

theorem KeyedTx.ahead_le (tx : KeyedTx J) : tx.ahead ≤ 6 := by
  unfold ahead
  split <;> omega

theorem KeyedTx.ahead_afterMissing (tx : KeyedTx J) : tx.afterMissing.ahead ≤ 3 := by
  unfold afterMissing
  split <;> simp [ahead]

theorem KeyedTx.ahead_cancelRow (tx : KeyedTx J) (taskId : String) :
    (tx.cancelRow db taskId nowMs).ahead ≤ 3 := by
  unfold cancelRow
  split <;> simp [ahead]

/-- A statement brings a transaction nearer to its end. -/
theorem KeyedTx.ahead_advance (hstep : tx.advance db nowMs = some tx') : tx'.ahead < tx.ahead := by
  cases hphase : tx.phase with
  | locked =>
      have hahead : tx.ahead = 6 := by simp [ahead, hphase]
      simp only [advance, hphase] at hstep
      split at hstep <;> cases hstep
      · have hmissing := tx.ahead_afterMissing
        omega
      · simp [ahead, hphase]
  | pointed taskId =>
      have hahead : tx.ahead = 5 := by simp [ahead, hphase]
      have hmissing := tx.ahead_afterMissing
      have hcancel : (tx.cancelRow db taskId nowMs).ahead ≤ 3 := tx.ahead_cancelRow taskId
      simp only [advance, hphase] at hstep
      split at hstep
      · cases hstep
        omega
      · split at hstep
        · cases hstep
          omega
        · split at hstep
          · cases hstep
            simp [ahead, hphase]
          · split at hstep
            · cases hstep
              simp [ahead, hphase]
            · split at hstep <;> cases hstep <;> simp [ahead, hphase]
  | declined taskId =>
      have hahead : tx.ahead = 4 := by simp [ahead, hphase]
      have hcancel : (tx.cancelRow db taskId nowMs).ahead ≤ 3 := tx.ahead_cancelRow taskId
      simp only [advance, hphase] at hstep
      cases hstep
      omega
  | free =>
      simp only [advance, hphase] at hstep
      split at hstep
      · split at hstep <;> cases hstep
        simp [ahead, hphase]
      · cases hstep
  | inserted =>
      simp only [advance, hphase] at hstep
      cases hstep
      simp [ahead, hphase]
  | done reply => simp [advance, hphase] at hstep
  | refused => simp [advance, hphase] at hstep

end Ahead

/-! ### All of them -/

section Rows

variable {s : KeyState J} {tx tx' : KeyedTx J}

theorem ahead_replaceWith (htx : tx ∈ s.txs.rows) (hkey : tx'.key = tx.key)
    (hfall : tx'.ahead < tx.ahead) :
    KeyState.ahead
        { s with
          txs := s.txs.updateWhere (fun t => t.key = tx'.key) (KeyedTable.replaceWith tx') } <
      s.ahead := by
  unfold KeyState.ahead KeyedTable.updateWhere
  rw [List.map_map]
  refine List.sum_lt_sum _ _ (fun t ht => ?_) ⟨tx, htx, ?_⟩
  · by_cases hsame : t.key = tx'.key
    · have heq : t = tx := KeyedTable.row_unique ht htx (hsame.trans hkey)
      subst heq
      simpa [KeyedTable.replaceWith, hsame] using Nat.le_of_lt hfall
    · simp [hsame]
  · simpa [KeyedTable.replaceWith, hkey] using hfall

theorem ahead_deleteWhere (htx : tx ∈ s.txs.rows) (db' : Database J)
    (submittedUnder : String → Option String) :
    KeyState.ahead
        { db := db'
          submittedUnder := submittedUnder
          txs := s.txs.deleteWhere fun t => t.key = tx.key } <
      s.ahead := by
  unfold KeyState.ahead KeyedTable.deleteWhere
  -- the transaction that ends is among those left out
  have hsplit := ((List.filter_append_perm (fun t : KeyedTx J => !decide (t.key = tx.key))
    s.txs.rows).map KeyedTx.ahead).sum_eq
  rw [List.map_append, List.sum_append] at hsplit
  have hout : tx ∈ s.txs.rows.filter fun t => !!decide (t.key = tx.key) := by
    simp [htx]
  have hleft : tx.ahead ≤ ((s.txs.rows.filter fun t => !!decide (t.key = tx.key)).map
      KeyedTx.ahead).sum :=
    List.single_le_sum (fun _ _ => Nat.zero_le _) _ (List.mem_map.mpr ⟨tx, hout, rfl⟩)
  have hpos := tx.ahead_pos
  show ((s.txs.rows.filter fun t => !decide (t.key = tx.key)).map KeyedTx.ahead).sum < _
  omega

theorem KeyState.ahead_le (s : KeyState J) : s.ahead ≤ 6 * s.txs.rows.length := by
  have hle := List.sum_le_card_nsmul (s.txs.rows.map KeyedTx.ahead) 6 fun a ha => by
    rcases List.mem_map.mp ha with ⟨tx, -, rfl⟩
    exact tx.ahead_le
  rw [List.length_map, nsmul_eq_mul, Nat.cast_id, Nat.mul_comm] at hle
  exact hle

end Rows

/-! ## What a transaction has written -/

/-- A transaction has written nothing before its key is free, and inserts last. -/
structure KeyedTx.Staged (tx : KeyedTx J) : Prop where
  submits : tx.phase = .free → ∃ conflict n, tx.request = .submit conflict n
  cancels : tx.canceledRow ≠ none →
    tx.phase = .free ∨ tx.phase = .inserted ∨ ∃ reply, tx.phase = .done reply
  inserts : tx.insertedRow ≠ none → tx.phase = .inserted ∨ ∃ reply, tx.phase = .done reply

section Staged

variable {tx tx' : KeyedTx J}

/-- One that has written nothing. -/
theorem KeyedTx.Staged.of_none (hcanceled : tx.canceledRow = none)
    (hinserted : tx.insertedRow = none)
    (hsubmits : tx.phase = .free → ∃ conflict n, tx.request = .submit conflict n) :
    tx.Staged where
  submits := hsubmits
  cancels hne := absurd hcanceled hne
  inserts hne := absurd hinserted hne

theorem KeyedTx.staged_afterMissing (hcanceled : tx.canceledRow = none)
    (hinserted : tx.insertedRow = none) : tx.afterMissing.Staged := by
  unfold afterMissing
  split
  · rename_i conflict n hrequest
    exact .of_none hcanceled hinserted fun _ => ⟨conflict, n, hrequest⟩
  · exact .of_none hcanceled hinserted fun hfree => by cases hfree

theorem KeyedTx.staged_cancelRow (hinserted : tx.insertedRow = none) (taskId : String) :
    (tx.cancelRow db taskId nowMs).Staged := by
  unfold cancelRow
  split
  · rename_i conflict n hrequest
    exact ⟨fun _ => ⟨conflict, n, hrequest⟩, fun _ => Or.inl rfl, fun hne => absurd hinserted hne⟩
  · exact ⟨(fun hfree => by cases hfree), fun _ => Or.inr (Or.inr ⟨_, rfl⟩),
      fun hne => absurd hinserted hne⟩

theorem KeyedTx.Staged.canceledRow_eq_none (h : tx.Staged) (hfree : tx.phase ≠ .free)
    (hinserted : tx.phase ≠ .inserted) (hdone : ∀ reply, tx.phase ≠ .done reply) :
    tx.canceledRow = none := by
  by_contra hne
  rcases h.cancels hne with hphase | hphase | ⟨reply, hphase⟩
  · exact hfree hphase
  · exact hinserted hphase
  · exact hdone reply hphase

theorem KeyedTx.Staged.insertedRow_eq_none (h : tx.Staged) (hinserted : tx.phase ≠ .inserted)
    (hdone : ∀ reply, tx.phase ≠ .done reply) : tx.insertedRow = none := by
  by_contra hne
  rcases h.inserts hne with hphase | ⟨reply, hphase⟩
  · exact hinserted hphase
  · exact hdone reply hphase

theorem KeyedTx.Staged.advance (h : tx.Staged) (hstep : tx.advance db nowMs = some tx') :
    tx'.Staged := by
  cases hphase : tx.phase with
  | locked =>
      have hcanceled := h.canceledRow_eq_none (by simp [hphase]) (by simp [hphase])
        (by simp [hphase])
      have hinserted := h.insertedRow_eq_none (by simp [hphase]) (by simp [hphase])
      simp only [KeyedTx.advance, hphase] at hstep
      split at hstep <;> cases hstep
      · exact staged_afterMissing hcanceled hinserted
      · exact .of_none hcanceled hinserted fun hfree => by cases hfree
  | pointed taskId =>
      have hcanceled := h.canceledRow_eq_none (by simp [hphase]) (by simp [hphase])
        (by simp [hphase])
      have hinserted := h.insertedRow_eq_none (by simp [hphase]) (by simp [hphase])
      simp only [KeyedTx.advance, hphase] at hstep
      split at hstep
      · cases hstep
        exact staged_cancelRow hinserted taskId
      · rename_i conflict n hrequest
        split at hstep
        · cases hstep
          exact staged_afterMissing hcanceled hinserted
        · have hnone : ∀ phase, KeyedTx.Staged { tx with phase := phase } := fun phase =>
            .of_none hcanceled hinserted fun _ => ⟨conflict, n, hrequest⟩
          split at hstep
          · cases hstep
            exact hnone _
          · split at hstep
            · cases hstep
              exact hnone _
            · split at hstep <;> cases hstep <;> exact hnone _
  | declined taskId =>
      simp only [KeyedTx.advance, hphase] at hstep
      cases hstep
      exact staged_cancelRow (h.insertedRow_eq_none (by simp [hphase]) (by simp [hphase])) taskId
  | free =>
      simp only [KeyedTx.advance, hphase] at hstep
      split at hstep
      · split at hstep <;> cases hstep
        exact ⟨(fun hfree => by cases hfree), fun _ => Or.inr (Or.inl rfl), fun _ => Or.inl rfl⟩
      · cases hstep
  | inserted =>
      simp only [KeyedTx.advance, hphase] at hstep
      cases hstep
      exact ⟨(fun hfree => by cases hfree), fun _ => Or.inr (Or.inr ⟨_, rfl⟩),
        fun _ => Or.inr ⟨_, rfl⟩⟩
  | done reply => simp [KeyedTx.advance, hphase] at hstep
  | refused => simp [KeyedTx.advance, hphase] at hstep

end Staged

/-- The invariant of the system, and every open transaction has written what its phase says. -/
structure KeyState.Orderly (s : KeyState J) : Prop where
  keys : KeyInvariant s
  staged : ∀ tx ∈ s.txs.rows, tx.Staged

theorem KeyState.orderly_fresh : (KeyState.fresh (J := J)).Orderly where
  keys := KeyInvariant.fresh
  staged _ htx := nomatch htx

theorem KeyState.Orderly.step {s s' : KeyState J} {l : KeyedStep J} (h : s.Orderly)
    (hstep : keyed d s l = some s') : s'.Orderly := by
  refine ⟨h.keys.step hstep, fun tx htx => ?_⟩
  rcases keyed_cases hstep with ⟨_, _, -, -, rfl⟩ | ⟨_, _, txs, -, hinsert, rfl⟩ |
    ⟨_, _, old, tx', -, hold, hadvance, rfl⟩ | ⟨_, _, -, -, -, rfl⟩ | ⟨_, -, rfl⟩
  · exact h.staged tx htx
  · rcases (KeyedTable.mem_insert? hinsert).mp htx with htx | rfl
    · exact h.staged tx htx
    · exact .of_none rfl rfl fun hfree => by cases hfree
  · rcases KeyedTable.mem_replaceWith htx with rfl | ⟨htx, -⟩
    · exact (h.staged old hold).advance hadvance
    · exact h.staged tx htx
  · exact h.staged tx (KeyedTable.mem_deleteWhere.mp htx).1
  · exact h.staged tx (KeyedTable.mem_deleteWhere.mp htx).1

/-! ## Somebody can go on -/

section Progress

variable {s : KeyState J} {tx : KeyedTx J}

/-- A transaction goes on when nobody else holds the rows it writes. -/
theorem exists_advance (htx : tx ∈ s.txs.rows) {tx' : KeyedTx J}
    (hadvance : tx.advance s.db nowMs = some tx')
    (hwrites : ∀ id ∈ tx'.held, id ∈ tx.held ∨ s.heldRows id = false) :
    ∃ l s', Finishing s l ∧ keyed d s l = some s' := by
  refine ⟨.advance tx.key nowMs, { s with
    txs := s.txs.updateWhere (fun t => t.key = tx'.key) (KeyedTable.replaceWith tx') },
    trivial, ?_⟩
  simp only [keyed, KeyedTable.find?_of_mem htx, hadvance, Option.bind_eq_bind, Option.bind_some,
    if_pos hwrites]

/-- A transaction with an error of its own ends. -/
theorem exists_rollback (htx : tx ∈ s.txs.rows) (hraises : tx.Raises s.db) :
    ∃ l s', Finishing s l ∧ keyed d s l = some s' := by
  have hfind := KeyedTable.find?_of_mem htx
  refine ⟨.rollback tx.key, { s with txs := s.txs.deleteWhere fun t => t.key = tx.key },
    ⟨tx, hfind, hraises⟩, ?_⟩
  simp only [keyed, hfind, Option.bind_eq_bind, Option.bind_some]

/-- Before its key is free a transaction always has a next statement. -/
theorem KeyedTx.advance_isSome (db : Database J) (hfree : tx.phase ≠ .free)
    (hdone : ∀ reply, tx.phase ≠ .done reply) (hrefused : tx.phase ≠ .refused) :
    (tx.advance db 0).isSome := by
  unfold advance
  split
  · split <;> rfl
  · split
    · rfl
    · split
      · rfl
      · split
        · rfl
        · split
          · rfl
          · split <;> rfl
  · rfl
  · exact absurd ‹_› hfree
  · rfl
  · exact absurd ‹_› (hdone _)
  · exact absurd ‹_› hrefused

/-- One that has inserted, or has nothing left to execute, waits for nobody. -/
theorem exists_finishing_of_late (h : s.Orderly) (htx : tx ∈ s.txs.rows)
    (hlate : tx.phase = .inserted ∨ (∃ reply, tx.phase = .done reply) ∨ tx.phase = .refused) :
    ∃ l s', Finishing s l ∧ keyed d s l = some s' := by
  rcases hlate with hphase | ⟨reply, hphase⟩ | hphase
  · have hadvance : tx.advance s.db 0 =
        some { tx with phase := .done tx.insertedRow, pointedAtMs := some 0 } := by
      simp [KeyedTx.advance, hphase]
    exact exists_advance htx hadvance fun id hid => Or.inl hid
  · rcases Option.isSome_iff_exists.mp (h.keys.txs tx htx).commit_isSome with ⟨db', hcommit⟩
    refine ⟨.commit tx.key,
      { db := db'
        submittedUnder := tx.record s.submittedUnder
        txs := s.txs.deleteWhere fun t => t.key = tx.key }, trivial, ?_⟩
    simp only [keyed, KeyedTable.find?_of_mem htx, hphase, hcommit, Option.bind_eq_bind,
      Option.bind_some]
  · exact exists_rollback htx (.refused hphase)

/-- No deadlock: some open transaction can go on. -/
theorem exists_finishing (h : s.Orderly) (hopen : s.txs.rows ≠ []) :
    ∃ l s', Finishing s l ∧ keyed d s l = some s' := by
  by_cases hlate : ∃ tx ∈ s.txs.rows,
      tx.phase = .inserted ∨ (∃ reply, tx.phase = .done reply) ∨ tx.phase = .refused
  · rcases hlate with ⟨tx, htx, hlate⟩
    exact exists_finishing_of_late h htx hlate
  · have hearly : ∀ tx ∈ s.txs.rows, tx.phase ≠ .inserted ∧ (∀ reply, tx.phase ≠ .done reply) ∧
        tx.phase ≠ .refused := fun tx htx =>
      ⟨fun hphase => hlate ⟨tx, htx, Or.inl hphase⟩,
        fun reply hphase => hlate ⟨tx, htx, Or.inr (Or.inl ⟨reply, hphase⟩)⟩,
        fun hphase => hlate ⟨tx, htx, Or.inr (Or.inr hphase)⟩⟩
    -- the rows written so far are stored ones, canceled
    have hstored : ∀ id, s.heldRows id = true →
        (s.db.get id).isSome ∧ ∃ tx ∈ s.txs.rows, tx.phase = .free := by
      intro id hheld
      rcases KeyState.heldRows_eq_true.mp hheld with ⟨tx, htx, hid⟩
      rcases hearly tx htx with ⟨hinserted, hdone, -⟩
      have hnone := (h.staged tx htx).insertedRow_eq_none hinserted hdone
      simp only [KeyedTx.held, hnone, Option.toList_none, List.map_nil, List.append_nil] at hid
      rcases List.mem_map.mp hid with ⟨row, hrow, rfl⟩
      have hrow := Option.mem_toList.mp hrow
      rcases (h.keys.txs tx htx).canceled row hrow with ⟨t, _, ht, -⟩
      refine ⟨by rw [ht]; rfl, tx, htx, ?_⟩
      by_contra hfree
      have hclean := (h.staged tx htx).canceledRow_eq_none hfree hinserted hdone
      cases hclean.symm.trans hrow
    by_cases hfree : ∃ tx ∈ s.txs.rows, tx.phase = .free
    · rcases hfree with ⟨tx, htx, hphase⟩
      rcases (h.staged tx htx).submits hphase with ⟨conflict, n, hrequest⟩
      by_cases htaken : (s.db.get n.id).isSome
      · exact exists_rollback htx (.taken hrequest hphase htaken)
      · have hadvance : tx.advance s.db 0 = some
            { tx with phase := .inserted, insertedRow := some (n.row (0 + n.delayMs) 0) } := by
          simp only [KeyedTx.advance, hphase, hrequest, Option.isNone_iff_eq_none]
          exact if_pos (Option.not_isSome_iff_eq_none.mp htaken)
        refine exists_advance htx hadvance fun id hid => ?_
        rcases List.mem_append.mp hid with hold | hnew
        · exact Or.inl (List.mem_append_left _ hold)
        · cases List.mem_singleton.mp hnew
          refine Or.inr (Bool.eq_false_iff.mpr fun hheld => htaken (hstored n.id hheld).1)
    · rcases List.exists_mem_of_ne_nil _ hopen with ⟨tx, htx⟩
      rcases hearly tx htx with ⟨-, hdone, hrefused⟩
      have hbefore : tx.phase ≠ .free := fun hphase => hfree ⟨tx, htx, hphase⟩
      rcases Option.isSome_iff_exists.mp (tx.advance_isSome s.db hbefore hdone hrefused) with
        ⟨tx', hadvance⟩
      exact exists_advance htx hadvance fun id _ =>
        Or.inr (Bool.eq_false_iff.mpr fun hheld => hfree (hstored id hheld).2)

end Progress

/-! ## They end -/

/-- Every step of the open transactions takes something off what is ahead of them. -/
theorem KeyState.ahead_lt {s s' : KeyState J} {l : KeyedStep J} (hfinishing : Finishing s l)
    (hstep : keyed d s l = some s') (horderly : s.Orderly) : s'.ahead < s.ahead := by
  rcases keyed_cases hstep with ⟨_, _, rfl, -, -⟩ | ⟨_, _, _, rfl, -, -⟩ |
    ⟨_, _, tx, tx', -, htx, hadvance, rfl⟩ | ⟨tx, db', -, htx, -, rfl⟩ | ⟨key, rfl, rfl⟩
  · cases hfinishing
  · cases hfinishing
  · exact ahead_replaceWith htx ((horderly.keys.txs tx htx).advance hadvance).2
      (KeyedTx.ahead_advance hadvance)
  · exact ahead_deleteWhere htx db' _
  · rcases hfinishing with ⟨tx, htx, -⟩
    rcases KeyedTable.find?_eq_some_iff.mp htx with ⟨hmem, rfl⟩
    exact ahead_deleteWhere hmem s.db _

/-- Keyed transactions finish.  From every reachable state the open transactions, whatever rows
they wait for, have at most six steps each before all of them have committed or have ended with an
error of their own, and until then one of them can go on. -/
theorem keyed_finishes {s s' : KeyState J} {ls : List (KeyedStep J)}
    (hreach : (keyed d).Reachable anyStep KeyState.fresh s)
    (hsteps : (keyed d).Steps Finishing s ls s') :
    ls.length ≤ 6 * s.txs.rows.length ∧
      (s'.txs.rows = [] ∨ ∃ l s'', Finishing s' l ∧ keyed d s' l = some s'') := by
  have horderly : s.Orderly :=
    hreach.invariant (fun _ _ _ h _ hstep => h.step hstep) KeyState.orderly_fresh
  have hkeep : ∀ (t : KeyState J) l t', t.Orderly → Finishing t l → keyed d t l = some t' →
      t'.Orderly ∧ t'.ahead < t.ahead :=
    fun _ _ _ h hfinishing hstep => ⟨h.step hstep, KeyState.ahead_lt hfinishing hstep h⟩
  constructor
  · have hlength := hsteps.length_add_le hkeep horderly
    have hahead := s.ahead_le
    omega
  · by_cases hopen : s'.txs.rows = []
    · exact Or.inl hopen
    · have horderly' : s'.Orderly :=
        hsteps.invariant (fun _ _ _ h _ hstep => h.step hstep) horderly
      exact Or.inr (exists_finishing horderly' hopen)

/-- Two submissions of one task: the second one waits for the insert of the first. -/
def waitingRun : List (KeyedStep Nat) :=
  [.begin "k" (.submit .reuse (.plain "a" "work" 3 0)), .advance "k" 0, .advance "k" 0,
    .begin "l" (.submit .reuse (.plain "a" "work" 3 0)), .advance "l" 1, .advance "l" 1]

theorem keyed_finishes_waitingRun :
    let s := (keyed .postgres).drive KeyState.fresh waitingRun
    let s' := (keyed .postgres).drive s [.advance "k" 2, .commit "k"]
    s.heldRows "a" = true ∧ s'.txs.rows.length = 1 ∧
      ∃ l s'', Finishing s' l ∧ keyed .postgres s' l = some s'' := by
  intro s s'
  have hreach : (keyed .postgres).Reachable anyStep KeyState.fresh s :=
    Machine.reachable_drive _ _ _ fun _ _ _ => trivial
  have hsteps : (keyed .postgres).Steps Finishing s [.advance "k" 2, .commit "k"] s' :=
    .cons trivial rfl (.cons trivial rfl (.nil s'))
  refine ⟨rfl, rfl, ?_⟩
  rcases (keyed_finishes hreach hsteps).2 with hnone | hgoing
  · cases hnone
  · exact hgoing

end CairnQ
