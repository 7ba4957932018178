import CairnQ.SqliteStore.Connection
import CairnQ.Transition.Slots

/-!
# The lock and the queue of the connection

The thread executes what the operations submitted in the order of submission, so who may
find a transaction open is decided by the queue: an operation may release the lock while
statements of it are still queued, as long as those statements, however they turn out,
leave no transaction open behind them.

Main results:

- Theorem `LockInvariant.of_step`: the discipline of the lock and the queue is kept by
  every step but the opening of a transaction for a cancelled caller.
- Theorem `LockInvariant.ownTransaction`: the statement that is executed next meets no
  transaction of another operation.
-/

namespace CairnQ

open Transition

variable {D W R : Type} {apply : Int → W → D → D × R} {start : D}

/-! ## What a queue can do -/

/-- At most the transaction of the given operation is open. -/
def Within (opened bound : Option Nat) : Prop :=
  opened = none ∨ opened = bound

/-- Whose transaction may be open after a statement: a cancelled {lit}`BEGIN` counts as failed. -/
def Submitted.mayLeave (opened : Option Nat) (st : Submitted W) : Option Nat :=
  match st.command with
  | .begin => if st.abandoned then opened else some st.op
  | .run _ _ => opened
  | .commit => opened
  | .rollback => none

/-- When at most the first operation's transaction is open, the statements can be executed in
order, however they turn out: none meets the transaction of another operation, and at the
end at most the second operation's transaction is open. -/
def Settles (opened : Option Nat) : List (Submitted W) → Option Nat → Prop
  | [], bound => Within opened bound
  | st :: rest, bound => Within opened (some st.op) ∧ Settles (st.mayLeave opened) rest bound

theorem Within.refl (opened : Option Nat) : Within opened opened :=
  Or.inr rfl

theorem Within.none (bound : Option Nat) : Within none bound :=
  Or.inl rfl

theorem Within.trans {a b c : Option Nat} (h : Within a b) (h' : Within b c) : Within a c := by
  rcases h with rfl | rfl
  · exact Within.none c
  · exact h'

theorem mayLeave_mono {opened opened' : Option Nat} (h : Within opened opened')
    (st : Submitted W) : Within (st.mayLeave opened) (st.mayLeave opened') := by
  unfold Submitted.mayLeave
  split
  · split
    · exact h
    · exact Within.refl _
  · exact h
  · exact h
  · exact Within.refl _

theorem Settles.mono {opened opened' bound bound' : Option Nat} {queue : List (Submitted W)}
    (h : Settles opened queue bound) (hopened : Within opened' opened) (hbound : Within bound bound') :
    Settles opened' queue bound' := by
  induction queue generalizing opened opened' with
  | nil => exact (hopened.trans h).trans hbound
  | cons st rest ih => exact ⟨hopened.trans h.1, ih h.2 (mayLeave_mono hopened st)⟩

theorem Settles.concat {opened bound : Option Nat} {queue : List (Submitted W)} {st : Submitted W}
    (h : Settles opened queue bound) (hst : Within bound (some st.op)) :
    Settles opened (queue ++ [st]) (st.mayLeave bound) := by
  induction queue generalizing opened with
  | nil => exact ⟨Within.trans h hst, mayLeave_mono h st⟩
  | cons st' rest ih => exact ⟨h.1, ih h.2⟩

/-- Cancelling futures leaves less open. -/
theorem mayLeave_abandon {opened : Option Nat} (i : Nat) {st : Submitted W}
    (h : Within opened (some st.op)) :
    Within ((st.abandon i).mayLeave opened) (st.mayLeave opened) := by
  rcases st with ⟨op, command, abandoned⟩
  unfold Submitted.abandon
  split
  · cases command with
    | begin =>
        simp only [Submitted.mayLeave, if_true]
        split
        · exact Within.refl _
        · exact h
    | _ => exact Within.refl _
  · exact Within.refl _

theorem Submitted.abandon_op (i : Nat) (st : Submitted W) : (st.abandon i).op = st.op := by
  unfold Submitted.abandon
  split <;> rfl

theorem Settles.abandon {opened bound : Option Nat} {queue : List (Submitted W)}
    (h : Settles opened queue bound) (i : Nat) :
    Settles opened (queue.map (Submitted.abandon i)) bound := by
  induction queue generalizing opened with
  | nil => exact h
  | cons st rest ih =>
      refine ⟨?_, ?_⟩
      · rw [Submitted.abandon_op]
        exact h.1
      · exact (ih h.2).mono (mayLeave_abandon i h.1) (Within.refl _)

/-- Nobody awaits a queued statement, and the queue leaves at most the transaction of the given
operation open. -/
structure Connection.Drained (c : Connection apply start) (bound : Option Nat) : Prop where
  abandoned : ∀ st ∈ c.queue, st.abandoned = true
  settles : Settles c.openedBy c.queue bound

theorem Connection.Drained.mono {c : Connection apply start} {bound bound' : Option Nat}
    (h : c.Drained bound) (hbound : Within bound bound') : c.Drained bound' where
  abandoned := h.abandoned
  settles := h.settles.mono (Within.refl _) hbound

/-! ## The thread -/

/-- The thread does not open a transaction for a cancelled caller. -/
def Submitted.Proper (st : Submitted W) : Verdict → Prop
  | .succeeds _ => match st.command with
    | .begin => st.abandoned = false
    | _ => True
  | .fails _ _ => True

/-- What the thread does with a statement, but for the opening of a transaction for a cancelled
caller: the answer, and the transaction and the committed state after those before. -/
inductive Executed (tx : Option (Nat × History apply start)) (store : History apply start)
    (st : Submitted W) :
    Answer R → Option (Nat × History apply start) → History apply start → Prop
  | began (hcommand : st.command = .begin) (hawaited : st.abandoned = false) (htx : tx = none) :
      Executed tx store st .done (some (st.op, store)) store
  | ranInside (id : Nat) (write : W) (nowMs : Int) (j : Nat) (working : History apply start)
      (hcommand : st.command = .run id write) (htx : tx = some (j, working)) :
      Executed tx store st (.rows (working.answer write nowMs))
        (some (j, working.perform id write nowMs)) store
  | ranAlone (id : Nat) (write : W) (nowMs : Int) (hcommand : st.command = .run id write)
      (htx : tx = none) :
      Executed tx store st (.rows (store.answer write nowMs)) none (store.perform id write nowMs)
  | committed (j : Nat) (working : History apply start) (hcommand : st.command = .commit)
      (htx : tx = some (j, working)) : Executed tx store st .done none working
  | rolledBack (answer : Answer R) (hcommand : st.command = .rollback) :
      Executed tx store st answer none store
  | failed (e : SqliteError) (hcommand : st.command ≠ .rollback) :
      Executed tx store st (.error e) tx store
  | torn (e : SqliteError) (hcommand : st.command ≠ .begin) :
      Executed tx store st (.error e) none store

theorem executed_cases {c : Connection apply start} {st : Submitted W} {verdict : Verdict}
    {answer : Answer R} {tx : Option (Nat × History apply start)} {store : History apply start}
    (hproper : st.Proper verdict) (h : c.executed st verdict = some (answer, tx, store)) :
    Executed c.tx c.store st answer tx store := by
  cases verdict with
  | succeeds nowMs =>
      simp only [Connection.executed] at h
      split at h <;> cases h
      · rename_i hcommand htx
        simp only [Submitted.Proper, hcommand] at hproper
        exact .began hcommand hproper htx
      · rename_i id write j working hcommand htx
        exact .ranInside id write nowMs j working hcommand htx
      · rename_i id write hcommand htx
        exact .ranAlone id write nowMs hcommand htx
      · rename_i j hcommand htx
        exact .committed j _ hcommand htx
      · rename_i hcommand
        exact .rolledBack _ hcommand
  | fails e inTransaction =>
      simp only [Connection.executed] at h
      split at h
      · rename_i hcommand
        cases h
        exact .failed e (by simp [hcommand])
      · rename_i hcommand
        cases h
        exact .rolledBack _ hcommand
      · rename_i hbegin hrollback
        cases h
        cases inTransaction with
        | false => exact .torn e hbegin
        | true => exact .failed e hrollback

section

variable {tx tx' : Option (Nat × History apply start)} {store store' : History apply start}
  {st : Submitted W} {answer : Answer R}

/-- A statement leaves at most the transaction open that it may leave. -/
theorem Executed.within (h : Executed tx store st answer tx' store')
    (hopened : Within (tx.map Prod.fst) (some st.op)) :
    Within (tx'.map Prod.fst) (st.mayLeave (tx.map Prod.fst)) := by
  unfold Submitted.mayLeave
  cases h with
  | began hcommand hawaited htx =>
      simp only [hcommand, hawaited, Bool.false_eq_true, if_false]
      exact Within.refl _
  | ranInside id write nowMs j working hcommand htx =>
      simp only [hcommand, htx]
      exact Within.refl _
  | failed e hcommand =>
      cases hst : st.command with
      | begin =>
          dsimp only
          split
          · exact Within.refl _
          · exact hopened
      | run id write => exact Within.refl _
      | commit => exact Within.refl _
      | rollback => exact absurd hst hcommand
  | _ => exact Within.none _

/-- The rest of a queue settles as the queue does. -/
theorem Connection.Drained.executed {rest : List (Submitted W)} {bound : Option Nat}
    (h : Connection.Drained ⟨st :: rest, tx, store⟩ bound)
    (hexecuted : Executed tx store st answer tx' store') :
    Connection.Drained ⟨rest, tx', store'⟩ bound where
  abandoned st' hst' := h.abandoned st' (List.mem_cons_of_mem _ hst')
  settles := h.settles.2.mono (hexecuted.within h.settles.1) (Within.refl _)

end

/-! ## The lock -/

/-- The operation neither holds the lock nor awaits a statement. -/
def Stage.Idle : Stage W R → Prop
  | .waiting => True
  | .finished _ => True
  | _ => False

/-- The operation does more than one statement of its own. -/
def OperationKind.OpensTransaction : OperationKind W → Prop
  | .single _ => False
  | _ => True

/-- Whose transaction may be open before a statement of the operation. -/
def OperationKind.before (kind : OperationKind W) (i : Nat) : Command W → Option Nat
  | .begin => none
  | _ => match kind with
    | .single _ => none
    | _ => some i

/-- Whose transaction may be open after a statement of the operation. -/
def OperationKind.after (kind : OperationKind W) (i : Nat) (command : Command W) :
    Answer R → Option Nat
  | .error _ =>
      match command with
      | .rollback => none
      | _ => kind.before i command
  | _ =>
      match command with
      | .begin => some i
      | .run _ _ => kind.before i command
      | _ => none

/-- A single statement is the only one of its operation. -/
def OperationKind.Issues (kind : OperationKind W) : Command W → Prop
  | .run _ _ => True
  | _ => kind.OpensTransaction

/-- How the holder of the lock relates to the queue: everything before the statement it awaits is
abandoned and settles, and what is open is its own. -/
def Stage.Holds (c : Connection apply start) (i : Nat) (kind : OperationKind W) :
    Stage W R → Prop
  | .body => kind.OpensTransaction ∧ c.Drained (some i)
  | .awaiting command none =>
      kind.Issues command ∧ ∃ queue, c.queue = queue ++ [⟨i, command, false⟩] ∧
        Connection.Drained { c with queue := queue } (kind.before i command)
  | .awaiting command (some answer) =>
      kind.Issues command ∧ c.queue = [] ∧ Within c.openedBy (kind.after i command answer)
  | _ => False

/-- The discipline of the lock and the queue. -/
structure LockInvariant (s : StoreState apply start) : Prop where
  /-- only the holder of the lock is in the middle of something -/
  idle : ∀ (j : Nat) op, s.operations[j]? = some op → s.holder ≠ some j → op.stage.Idle
  /-- when the lock is free, the queue leaves no transaction open -/
  free : s.holder = none → s.conn.Drained none
  held : ∀ i, s.holder = some i → ∃ op, s.operations[i]? = some op ∧
    op.stage.Holds s.conn i op.kind

theorem LockInvariant.fresh : LockInvariant (StoreState.fresh apply start) where
  idle j op h := by cases h
  free _ := ⟨fun st h => (by cases h), Within.none none⟩
  held i h := by cases h

variable {s s' : StoreState apply start} {i : Nat} {op : Operation W R}

/-- The operation holds the lock, nobody awaits a statement, and at most the given transaction will
be open. -/
structure StoreState.Ready (s : StoreState apply start) (i : Nat) (bound : Option Nat) : Prop where
  holder : s.holder = some i
  present : i < s.operations.length
  others : ∀ (j : Nat) op, s.operations[j]? = some op → j ≠ i → op.stage.Idle
  drained : s.conn.Drained bound

namespace LockInvariant

/-- Who is in the middle of something holds the lock. -/
theorem holder_of_active (h : LockInvariant s) (hop : s.operations[i]? = some op)
    (hactive : ¬op.stage.Idle) : s.holder = some i := by
  by_contra hne
  exact hactive (h.idle i op hop hne)

theorem holds_of_active (h : LockInvariant s) (hop : s.operations[i]? = some op)
    (hactive : ¬op.stage.Idle) : op.stage.Holds s.conn i op.kind := by
  rcases h.held i (h.holder_of_active hop hactive) with ⟨op', hop', hholds⟩
  rw [hop] at hop'
  cases hop'
  exact hholds

theorem ready_of_drained (h : LockInvariant s) (hop : s.operations[i]? = some op)
    (hactive : ¬op.stage.Idle) {bound : Option Nat} (hdrained : s.conn.Drained bound) :
    s.Ready i bound where
  holder := h.holder_of_active hop hactive
  present := (List.getElem?_eq_some_iff.mp hop).1
  others j op' hop' hne := by
    refine h.idle j op' hop' fun hj => hne ?_
    rw [h.holder_of_active hop hactive] at hj
    exact (Option.some.inj hj).symm
  drained := hdrained

end LockInvariant

/-! ### Moves of the holder -/

theorem StoreState.Ready.finish (h : s.Ready i none) (op : Operation W R) (succeeded : Bool) :
    LockInvariant (s.finish i op succeeded) where
  idle j op' hop' _ := by
    rcases cases_getElem?_set hop' with ⟨-, rfl⟩ | ⟨hne, hold⟩
    · trivial
    · exact h.others j op' hold hne
  free _ := h.drained
  held j hj := by cases hj

theorem StoreState.Ready.backOff (h : s.Ready i none) (op : Operation W R) :
    LockInvariant (s.backOff i op) where
  idle j op' hop' _ := by
    rcases cases_getElem?_set hop' with ⟨-, rfl⟩ | ⟨hne, hold⟩
    · trivial
    · exact h.others j op' hold hne
  free _ := h.drained
  held j hj := by cases hj

theorem StoreState.Ready.retryOrRaise (h : s.Ready i none) (op : Operation W R) (e : SqliteError)
    (goesOn : Bool) : LockInvariant (s.retryOrRaise i op e goesOn) := by
  unfold StoreState.retryOrRaise
  split
  · exact h.backOff op
  · exact h.finish op false

theorem StoreState.Ready.enterBody (h : s.Ready i (some i)) (op : Operation W R)
    (hkind : op.kind.OpensTransaction) : LockInvariant (s.enterBody i op) where
  idle j op' hop' hne := by
    rcases cases_getElem?_set hop' with ⟨rfl, -⟩ | ⟨hji, hold⟩
    · exact absurd h.holder hne
    · exact h.others j op' hold hji
  free hnone := by
    have hholder : s.holder = none := hnone
    rw [h.holder] at hholder
    cases hholder
  held j hj := by
    have hholder : s.holder = some j := hj
    rw [h.holder] at hholder
    cases hholder
    exact ⟨_, List.getElem?_set_self h.present, hkind, h.drained⟩

theorem StoreState.Ready.submit {bound : Option Nat} (h : s.Ready i bound) (op : Operation W R)
    {command : Command W} (hissues : op.kind.Issues command)
    (hbound : Within bound (op.kind.before i command)) :
    LockInvariant (s.submit i op command) where
  idle j op' hop' hne := by
    rcases cases_getElem?_set hop' with ⟨rfl, -⟩ | ⟨hji, hold⟩
    · exact absurd h.holder hne
    · exact h.others j op' hold hji
  free hnone := by
    have hholder : s.holder = none := hnone
    rw [h.holder] at hholder
    cases hholder
  held j hj := by
    have hholder : s.holder = some j := hj
    rw [h.holder] at hholder
    cases hholder
    exact ⟨_, List.getElem?_set_self h.present, hissues, s.conn.queue, rfl, h.drained.mono hbound⟩

/-! ### From a stage to the moves -/

theorem Within.before (kind : OperationKind W) (i : Nat) (command : Command W) :
    Within (kind.before i command) (some i) := by
  unfold OperationKind.before
  split
  · exact Within.none _
  · split
    · exact Within.none _
    · exact Within.refl _

theorem LockInvariant.ready_body (h : LockInvariant s) (hop : s.operations[i]? = some op)
    (hstage : op.stage = .body) : op.kind.OpensTransaction ∧ s.Ready i (some i) := by
  have hactive : ¬op.stage.Idle := by rw [hstage]; exact id
  have hholds := h.holds_of_active hop hactive
  rw [hstage] at hholds
  exact ⟨hholds.1, h.ready_of_drained hop hactive hholds.2⟩

/-- Once the answer is there, the queue is empty. -/
theorem LockInvariant.ready_answered (h : LockInvariant s) (hop : s.operations[i]? = some op)
    {command : Command W} {answer : Answer R} (hstage : op.stage = .awaiting command (some answer)) :
    op.kind.Issues command ∧ s.Ready i (op.kind.after i command answer) ∧
      (s.inTransaction = false → s.Ready i none) := by
  have hactive : ¬op.stage.Idle := by rw [hstage]; exact id
  have hholds := h.holds_of_active hop hactive
  rw [hstage] at hholds
  rcases hholds with ⟨hissues, hqueue, hopened⟩
  have hdrained : ∀ bound, Within s.conn.openedBy bound → s.conn.Drained bound := by
    intro bound hbound
    refine ⟨fun st hst => ?_, ?_⟩
    · rw [hqueue] at hst
      cases hst
    · rw [hqueue]
      exact hbound
  refine ⟨hissues, h.ready_of_drained hop hactive (hdrained _ hopened), fun hclosed => ?_⟩
  refine h.ready_of_drained hop hactive (hdrained _ (Or.inl ?_))
  simpa [StoreState.inTransaction, Connection.openedBy] using hclosed

/-- Whose transaction may be open once the awaited statement is abandoned. -/
def OperationKind.abandoning (kind : OperationKind W) (i : Nat) : Command W → Option Nat
  | .rollback => none
  | command => kind.before i command

/-- A cancelled operation abandons its statement; its {lit}`BEGIN` must not have succeeded. -/
theorem LockInvariant.ready_abandon (h : LockInvariant s) (hop : s.operations[i]? = some op)
    {command : Command W} {answer : Option (Answer R)} (hstage : op.stage = .awaiting command answer)
    (hbegin : ∀ a, command = .begin → answer = some a → ∃ e, a = .error e) :
    op.kind.Issues command ∧ (s.abandon i).Ready i (op.kind.abandoning i command) := by
  have hactive : ¬op.stage.Idle := by rw [hstage]; cases answer <;> exact id
  have hholds := h.holds_of_active hop hactive
  have hready : ∀ bound, (s.abandon i).conn.Drained bound → (s.abandon i).Ready i bound := by
    intro bound hdrained
    exact ⟨h.holder_of_active hop hactive, (List.getElem?_eq_some_iff.mp hop).1,
      fun j op' hop' hne => h.idle j op' hop' fun hj => hne (by
        rw [h.holder_of_active hop hactive] at hj
        exact (Option.some.inj hj).symm), hdrained⟩
  rw [hstage] at hholds
  cases answer with
  | some a =>
      rcases hholds with ⟨hissues, hqueue, hopened⟩
      refine ⟨hissues, hready _ ⟨?_, ?_⟩⟩
      · simp [StoreState.abandon, hqueue]
      · simp only [StoreState.abandon, hqueue, List.map_nil]
        refine hopened.trans ?_
        cases command with
        | begin =>
            rcases hbegin a rfl rfl with ⟨e, rfl⟩
            exact Within.refl _
        | run id write => cases a <;> exact Within.refl _
        | commit =>
            cases a with
            | error e => exact Within.refl _
            | _ => exact Within.none _
        | rollback => cases a <;> exact Within.refl _
  | none =>
      rcases hholds with ⟨hissues, queue, hqueue, habandoned, hsettles⟩
      refine ⟨hissues, hready _ ⟨?_, ?_⟩⟩
      · intro st hst
        simp only [StoreState.abandon, hqueue, List.map_append, List.mem_append] at hst
        rcases hst with hst | hst
        · rcases List.mem_map.mp hst with ⟨st', hst', rfl⟩
          unfold Submitted.abandon
          split
          · rfl
          · exact habandoned st' hst'
        · simp only [List.map_cons, List.map_nil, List.mem_singleton] at hst
          rw [hst, Submitted.abandon, if_pos rfl]
      · simp only [StoreState.abandon, hqueue, List.map_append, List.map_cons, List.map_nil]
        have hlast : Submitted.abandon i ⟨i, command, false⟩ = ⟨i, command, true⟩ := if_pos rfl
        rw [hlast]
        refine ((hsettles.abandon i).concat (Within.before ..)).mono (Within.refl _) ?_
        cases command <;> exact Within.refl _

/-! ### Every step -/

theorem StoreState.Ready.submitRun {bound : Option Nat} (h : s.Ready i bound)
    (op : Operation W R) (write : W) (hbound : ∀ id, Within bound (op.kind.before i (.run id write))) :
    LockInvariant (s.submitRun i op write) :=
  StoreState.Ready.submit (s := { s with nextId := s.nextId + 1 })
    ⟨h.holder, h.present, h.others, h.drained⟩ op trivial (hbound s.nextId)

theorem opensTransaction_of_ne {kind : OperationKind W} (h : ∀ write, kind ≠ .single write) :
    kind.OpensTransaction := by
  cases kind with
  | single write => exact absurd rfl (h write)
  | _ => trivial

/-- Once it has begun, a transaction may be open at each of its statements. -/
theorem OperationKind.OpensTransaction.before_eq {kind : OperationKind W}
    (h : kind.OpensTransaction) (i : Nat) {command : Command W} (hcommand : command ≠ .begin) :
    kind.before i command = some i := by
  cases kind with
  | single w => cases h
  | _ => cases command <;> first | rfl | exact absurd rfl hcommand

theorem LockInvariant.of_acquire (h : LockInvariant s) (hstep : s.acquire i = some s') :
    LockInvariant s' := by
  unfold StoreState.acquire at hstep
  split at hstep
  · rename_i op hfree hop
    split at hstep
    · rename_i hstage
      have hready : ({ s with holder := some i } : StoreState apply start).Ready i none :=
        ⟨rfl, (List.getElem?_eq_some_iff.mp hop).1,
          fun j op' hop' _ => h.idle j op' hop' (by simp [hfree]), h.free hfree⟩
      split at hstep
      · rename_i write hkind
        cases hstep
        exact hready.submitRun op write fun id => Within.none _
      · rename_i hkind
        cases hstep
        exact hready.submit op (opensTransaction_of_ne hkind) (Within.none _)
    · cases hstep
  · cases hstep

theorem LockInvariant.of_raise (hready : s.Ready i (some i)) (hkind : op.kind.OpensTransaction) :
    LockInvariant (s.raise i op) := by
  refine hready.submit { op with failure := none } hkind (Or.inr ?_)
  exact (hkind.before_eq i (by simp)).symm

theorem LockInvariant.of_afterBegin (h : LockInvariant s) (hop : s.operations[i]? = some op)
    {answer : Answer R} (hstage : op.stage = .awaiting .begin (some answer)) (goesOn : Bool) :
    LockInvariant (s.afterBegin i op goesOn answer) := by
  rcases h.ready_answered hop hstage with ⟨hkind, hready, -⟩
  unfold StoreState.afterBegin
  split
  · split
    · split
      · exact hready.submit { op with failure := some _ } hkind (Within.none _)
      · exact hready.retryOrRaise op _ goesOn
    · exact hready.retryOrRaise op _ goesOn
  · rename_i hanswer
    refine StoreState.Ready.enterBody ?_ op hkind
    cases answer with
    | error e => exact absurd rfl (hanswer e)
    | _ => exact hready

theorem LockInvariant.of_afterRun (h : LockInvariant s) (hop : s.operations[i]? = some op)
    {id : Nat} {write : W} {answer : Answer R}
    (hstage : op.stage = .awaiting (.run id write) (some answer)) (goesOn : Bool) :
    LockInvariant (s.afterRun i op id goesOn answer) := by
  rcases h.ready_answered hop hstage with ⟨-, hready, hclosed⟩
  have hlevel : s.Ready i (op.kind.before i (.run id write)) := by
    cases answer <;> exact hready
  have hbody : op.kind.OpensTransaction → s.Ready i (some i) := by
    intro hkind
    rw [hkind.before_eq i (by simp)] at hlevel
    exact hlevel
  unfold StoreState.afterRun
  split
  · dsimp only
    split
    · rename_i hkind
      rw [hkind] at hlevel
      exact hlevel.finish _ true
    · rename_i hkind
      have hkind := opensTransaction_of_ne hkind
      exact (hbody hkind).enterBody _ hkind
  · split
    · rename_i hkind
      rw [hkind] at hlevel
      exact hlevel.retryOrRaise op _ goesOn
    · rename_i hkind
      have hkind : op.kind.OpensTransaction := by rw [hkind]; trivial
      split
      · exact (hbody hkind).enterBody op hkind
      · exact LockInvariant.of_raise (hbody hkind) hkind
    · rename_i hkind
      have hkind : op.kind.OpensTransaction := by rw [hkind]; trivial
      split
      · exact (hbody hkind).enterBody op hkind
      · rename_i hopen
        exact (hclosed (by simpa using hopen)).retryOrRaise op _ goesOn
  · exact h

theorem LockInvariant.of_afterCommit (h : LockInvariant s) (hop : s.operations[i]? = some op)
    {answer : Answer R} (hstage : op.stage = .awaiting .commit (some answer)) (goesOn : Bool) :
    LockInvariant (s.afterCommit i op goesOn answer) := by
  rcases h.ready_answered hop hstage with ⟨hkind, hready, hclosed⟩
  unfold StoreState.afterCommit
  split
  · have hready : s.Ready i (some i) :=
      ⟨hready.holder, hready.present, hready.others,
        hready.drained.mono (Within.before op.kind i .commit)⟩
    split
    · split
      · refine hready.submit { op with failure := some _ } hkind (Or.inr ?_)
        exact (hkind.before_eq i (by simp)).symm
      · rename_i hopen
        exact (hclosed (by simpa using hopen)).retryOrRaise op _ goesOn
    · exact LockInvariant.of_raise hready hkind
  · rename_i hanswer
    refine StoreState.Ready.finish ?_ op true
    cases answer with
    | error e => exact absurd rfl (hanswer e)
    | _ => exact hready

theorem LockInvariant.of_afterRollback (h : LockInvariant s) (hop : s.operations[i]? = some op)
    {answer : Answer R} (hstage : op.stage = .awaiting .rollback (some answer)) (goesOn : Bool) :
    LockInvariant (s.afterRollback i op goesOn) := by
  rcases h.ready_answered hop hstage with ⟨-, hready, -⟩
  have hready : s.Ready i none := by
    cases answer <;> exact hready
  unfold StoreState.afterRollback
  split
  · exact hready.retryOrRaise op _ goesOn
  · exact hready.finish op false

theorem LockInvariant.of_resume (h : LockInvariant s) {goesOn : Bool}
    (hstep : s.resume i goesOn = some s') : LockInvariant s' := by
  unfold StoreState.resume at hstep
  split at hstep
  · rename_i op hop
    split at hstep
    · rename_i command answer hstage
      split at hstep <;> cases hstep
      · exact h.of_afterBegin hop hstage goesOn
      · exact h.of_afterRun hop hstage goesOn
      · exact h.of_afterCommit hop hstage goesOn
      · exact h.of_afterRollback hop hstage goesOn
    · cases hstep
  · cases hstep

/-- A caller is not cancelled between the success of its {lit}`BEGIN` and its next step. -/
def Operation.Cancellable (op : Operation W R) : Prop :=
  ∀ a, op.stage = .awaiting .begin (some a) → ∃ e, a = .error e

theorem LockInvariant.of_afterCancel (h : LockInvariant s) (hop : s.operations[i]? = some op)
    (hcancellable : op.Cancellable) {command : Command W} {answer : Option (Answer R)}
    (hstage : op.stage = .awaiting command answer) (handled : Bool) :
    LockInvariant ((s.abandon i).afterCancel i op handled command) := by
  have hbegin : ∀ a, command = .begin → answer = some a → ∃ e, a = .error e := by
    rintro a rfl rfl
    exact hcancellable a hstage
  rcases h.ready_abandon hop hstage hbegin with ⟨hissues, hready⟩
  have hraise : op.kind.OpensTransaction → command ≠ .rollback →
      (s.abandon i).Ready i (some i) := by
    intro hkind hrollback
    have hbound : op.kind.abandoning i command = op.kind.before i command := by
      cases command <;> first | rfl | exact absurd rfl hrollback
    rw [hbound] at hready
    exact ⟨hready.holder, hready.present, hready.others,
      hready.drained.mono (Within.before op.kind i command)⟩
  cases command with
  | begin => exact hready.finish op false
  | run id write =>
      simp only [StoreState.afterCancel]
      split
      · rename_i w hkind
        rw [hkind] at hready
        exact hready.finish op false
      · rename_i hkind
        have hkind := opensTransaction_of_ne hkind
        split
        · exact (hraise hkind (by simp)).enterBody op hkind
        · exact LockInvariant.of_raise (hraise hkind (by simp)) hkind
  | commit => exact LockInvariant.of_raise (hraise hissues (by simp)) hissues
  | rollback => exact hready.finish op false

/-- An operation that is not in the middle of anything is set aside. -/
theorem LockInvariant.of_set_idle (h : LockInvariant s) (hop : s.operations[i]? = some op)
    (hidle : op.stage.Idle) {op' : Operation W R} (hidle' : op'.stage.Idle) :
    LockInvariant { s with operations := s.operations.set i op' } where
  idle j op'' hop'' hne := by
    rcases cases_getElem?_set hop'' with ⟨-, rfl⟩ | ⟨-, hold⟩
    · exact hidle'
    · exact h.idle j op'' hold hne
  free := h.free
  held j hj := by
    rcases h.held j hj with ⟨op'', hop'', hholds⟩
    have hji : i ≠ j := by
      rintro rfl
      rw [hop] at hop''
      cases hop''
      cases hstage : op.stage <;> rw [hstage] at hidle hholds <;>
        first | exact hholds.elim | exact hidle.elim
    refine ⟨op'', ?_, hholds⟩
    rw [List.getElem?_set_ne hji]
    exact hop''

theorem LockInvariant.of_cancel (h : LockInvariant s) {handled : Bool}
    (hcancellable : ∀ op, s.operations[i]? = some op → op.Cancellable)
    (hstep : s.cancel i handled = some s') : LockInvariant s' := by
  unfold StoreState.cancel at hstep
  split at hstep
  · rename_i op hop
    split at hstep
    · cases hstep
    · unfold StoreState.cancelCaller at hstep
      split at hstep
      · rename_i hstage
        cases hstep
        exact h.of_set_idle hop (by rw [hstage]; trivial) trivial
      · rename_i hstage
        cases hstep
        rcases h.ready_body hop hstage with ⟨hkind, hready⟩
        exact LockInvariant.of_raise hready hkind
      · rename_i command answer hstage
        cases hstep
        exact h.of_afterCancel hop (hcancellable op hop) hstage handled
      · cases hstep
  · cases hstep

/-- A statement of a body. -/
theorem LockInvariant.of_inBody (h : LockInvariant s)
    {step : Operation W R → StoreState apply start} (hstep : s.inBody i step = some s')
    (hkeep : ∀ op : Operation W R, op.kind.OpensTransaction → s.Ready i (some i) →
      LockInvariant (step op)) : LockInvariant s' := by
  unfold StoreState.inBody at hstep
  split at hstep
  · rename_i op hop
    split at hstep
    · rename_i hstage
      cases hstep
      rcases h.ready_body hop hstage with ⟨hkind, hready⟩
      exact hkeep op hkind hready
    · cases hstep
  · cases hstep

section

variable {tx tx' : Option (Nat × History apply start)} {store store' : History apply start}
  {st : Submitted W} {rest : List (Submitted W)} {answer : Answer R}

/-- The awaited statement leaves at most the transaction open that its answer allows. -/
theorem Executed.within_after (h : Executed tx store st answer tx' store')
    {kind : OperationKind W} (hopened : Within (tx.map Prod.fst) (kind.before st.op st.command)) :
    Within (tx'.map Prod.fst) (kind.after st.op st.command answer) := by
  cases h with
  | began hcommand hawaited htx =>
      rw [hcommand]
      exact Within.refl _
  | ranInside id write nowMs j working hcommand htx =>
      rw [htx] at hopened
      rw [hcommand] at hopened ⊢
      exact hopened
  | failed e hcommand =>
      cases hst : st.command with
      | rollback => exact absurd hst hcommand
      | _ =>
          rw [hst] at hopened
          exact hopened
  | _ => exact Within.none _

theorem execute_cases {verdict : Verdict} (h : s.execute verdict = some s')
    (hproper : ∀ st, s.conn.queue.head? = some st → st.Proper verdict) :
    ∃ st rest answer tx store, s.conn.queue = st :: rest ∧
      Executed s.conn.tx s.conn.store st answer tx store ∧
      s' = { s with
        operations :=
          if st.abandoned then s.operations
          else s.operations.modify st.op fun op => op.deliver answer
        conn := ⟨rest, tx, store⟩ } := by
  unfold StoreState.execute at h
  split at h
  · cases h
  · rename_i st rest hqueue
    rcases Option.map_eq_some_iff.mp h with ⟨⟨answer, tx, store⟩, hexecuted, rfl⟩
    exact ⟨st, rest, answer, tx, store, hqueue,
      executed_cases (hproper st (by rw [hqueue]; rfl)) hexecuted, rfl⟩

/-- The thread executes a statement that nobody awaits. -/
theorem LockInvariant.of_abandoned (h : LockInvariant s) (hconn : s.conn = ⟨st :: rest, tx, store⟩)
    (hst : st.abandoned = true) (hexecuted : Executed tx store st answer tx' store') :
    LockInvariant { s with conn := ⟨rest, tx', store'⟩ } where
  idle := h.idle
  free hfree := by
    have hdrained := h.free hfree
    rw [hconn] at hdrained
    exact hdrained.executed hexecuted
  held i hi := by
    rcases h.held i hi with ⟨op, hop, hholds⟩
    rw [hconn] at hholds
    refine ⟨op, hop, ?_⟩
    revert hholds
    cases op.stage with
    | body => exact fun hholds => ⟨hholds.1, hholds.2.executed hexecuted⟩
    | awaiting command awaited =>
        cases awaited with
        | none =>
            rintro ⟨hissues, queue, hsplit, hdrained⟩
            cases queue with
            | nil =>
                cases hsplit
                cases hst
            | cons st' queue =>
                cases hsplit
                exact ⟨hissues, queue, rfl, hdrained.executed hexecuted⟩
        | some a =>
            rintro ⟨-, hempty, -⟩
            cases hempty
    | _ => exact False.elim

/-- A statement that is not abandoned is the last of the queue, and its operation holds the lock
and awaits it. -/
theorem LockInvariant.awaited (h : LockInvariant s) (hconn : s.conn = ⟨st :: rest, tx, store⟩)
    (hst : st.abandoned = false) :
    ∃ op, s.holder = some st.op ∧ s.operations[st.op]? = some op ∧
      op.stage = .awaiting st.command none ∧ op.kind.Issues st.command ∧ rest = [] ∧
      Within (tx.map Prod.fst) (op.kind.before st.op st.command) := by
  have hmem : st ∈ s.conn.queue := by rw [hconn]; exact List.mem_cons_self
  cases hholder : s.holder with
  | none =>
      rw [(h.free hholder).abandoned st hmem] at hst
      cases hst
  | some i =>
      rcases h.held i hholder with ⟨op, hop, hholds⟩
      cases hstage : op.stage with
      | body =>
          rw [hstage] at hholds
          rw [hholds.2.abandoned st hmem] at hst
          cases hst
      | awaiting command awaited =>
          rw [hstage, hconn] at hholds
          cases awaited with
          | none =>
              rcases hholds with ⟨hissues, queue, hsplit, hdrained⟩
              cases queue with
              | nil =>
                  cases hsplit
                  exact ⟨op, rfl, hop, hstage, hissues, rfl, hdrained.settles⟩
              | cons st' queue =>
                  cases hsplit
                  rw [hdrained.abandoned st List.mem_cons_self] at hst
                  cases hst
          | some a => cases hholds.2.1
      | _ =>
          rw [hstage] at hholds
          exact hholds.elim

/-- The thread executes the statement that the holder awaits. -/
theorem LockInvariant.of_awaited (h : LockInvariant s) (hconn : s.conn = ⟨st :: rest, tx, store⟩)
    (hst : st.abandoned = false) (hexecuted : Executed tx store st answer tx' store') :
    LockInvariant { s with
      operations := s.operations.modify st.op fun op => op.deliver answer
      conn := ⟨rest, tx', store'⟩ } := by
  rcases h.awaited hconn hst with ⟨op, hholder, hop, hstage, hissues, rfl, hopened⟩
  have hafter := hexecuted.within_after hopened
  refine ⟨?_, ?_, ?_⟩
  · intro j op' hop' hne
    have hji : st.op ≠ j := fun hij => hne (hij ▸ hholder)
    rw [List.getElem?_modify_ne _ _ hji] at hop'
    exact h.idle j op' hop' hne
  · intro hfree
    have hnone : s.holder = none := hfree
    rw [hholder] at hnone
    cases hnone
  · intro j hj
    have hsome : s.holder = some j := hj
    rw [hholder] at hsome
    cases hsome
    refine ⟨op.deliver answer, ?_, ?_⟩
    · rw [List.getElem?_modify_eq, hop]
      rfl
    · simp only [Operation.deliver, hstage]
      exact ⟨hissues, rfl, hafter⟩

end

theorem LockInvariant.of_execute (h : LockInvariant s) {verdict : Verdict}
    (hproper : ∀ st, s.conn.queue.head? = some st → st.Proper verdict)
    (hstep : s.execute verdict = some s') : LockInvariant s' := by
  rcases execute_cases hstep hproper with ⟨st, rest, answer, tx, store, hqueue, hexecuted, rfl⟩
  have hconn : s.conn = ⟨st :: rest, s.conn.tx, s.conn.store⟩ := by rw [← hqueue]
  split
  · rename_i hst
    exact h.of_abandoned hconn hst hexecuted
  · rename_i hst
    exact h.of_awaited hconn (by simpa using hst) hexecuted

/-- No transaction is opened for a caller that was cancelled: the thread does not succeed with a
{lit}`BEGIN` whose caller is gone, and no caller is cancelled between the success of its {lit}`BEGIN`
and its next step. -/
def NoOrphanedBegin (s : StoreState apply start) : StoreStep D W → Prop
  | .execute verdict => ∀ st, s.conn.queue.head? = some st → st.Proper verdict
  | .cancel i _ => ∀ op, s.operations[i]? = some op → op.Cancellable
  | _ => True

theorem LockInvariant.of_call (h : LockInvariant s) (kind : OperationKind W) :
    LockInvariant { s with operations := s.operations ++ [⟨kind, .waiting, [], none⟩] } where
  idle j op hop hne := by
    rcases cases_getElem?_concat hop with ⟨-, rfl⟩ | hold
    · trivial
    · exact h.idle j op hold hne
  free := h.free
  held i hi := by
    rcases h.held i hi with ⟨op, hop, hholds⟩
    refine ⟨op, ?_, hholds⟩
    rw [List.getElem?_append_left (List.getElem?_eq_some_iff.mp hop).1]
    exact hop

/-- The holder does not look at the committed state. -/
theorem Stage.Holds.of_store {c : Connection apply start} {kind : OperationKind W}
    {stage : Stage W R} (h : stage.Holds c i kind) (store : History apply start) :
    stage.Holds { c with store := store } i kind := by
  cases stage with
  | body => exact ⟨h.1, h.2.abandoned, h.2.settles⟩
  | awaiting command awaited =>
      cases awaited with
      | none =>
          rcases h with ⟨hissues, queue, hsplit, hdrained⟩
          exact ⟨hissues, queue, hsplit, hdrained.abandoned, hdrained.settles⟩
      | some a => exact h
  | _ => exact h

theorem LockInvariant.of_step {l : StoreStep D W} (h : LockInvariant s)
    (hguard : NoOrphanedBegin s l) (hstep : sharing apply start s l = some s') :
    LockInvariant s' := by
  cases l with
  | call kind =>
      cases hstep
      exact h.of_call kind
  | external change =>
      simp only [sharing] at hstep
      split at hstep
      · cases hstep
      · cases hstep
        refine ⟨h.idle, fun hfree => ?_, fun i hi => ?_⟩
        · exact ⟨(h.free hfree).abandoned, (h.free hfree).settles⟩
        · rcases h.held i hi with ⟨op, hop, hholds⟩
          exact ⟨op, hop, hholds.of_store _⟩
  | execute verdict => exact h.of_execute hguard hstep
  | acquire i => exact h.of_acquire hstep
  | issue i write =>
      refine h.of_inBody hstep fun op hkind hready => ?_
      exact hready.submitRun op write fun id => Or.inr (hkind.before_eq i (by simp)).symm
  | leave i =>
      refine h.of_inBody hstep fun op hkind hready => ?_
      exact hready.submit op hkind (Or.inr (hkind.before_eq i (by simp)).symm)
  | raise i => exact h.of_inBody hstep fun op hkind hready => LockInvariant.of_raise hready hkind
  | resume i goesOn => exact h.of_resume hstep
  | cancel i handled => exact h.of_cancel hguard hstep

/-- What the lock is for: the statement that is executed next meets no transaction of another
operation. -/
theorem LockInvariant.ownTransaction (h : LockInvariant s) {st : Submitted W}
    {rest : List (Submitted W)} {tx : Option (Nat × History apply start)}
    {store : History apply start} (hconn : s.conn = ⟨st :: rest, tx, store⟩) :
    Within (tx.map Prod.fst) (some st.op) := by
  cases hst : st.abandoned with
  | false =>
      rcases h.awaited hconn hst with ⟨op, -, -, -, -, -, hopened⟩
      exact hopened.trans (Within.before ..)
  | true =>
      cases hholder : s.holder with
      | none =>
          have hdrained := h.free hholder
          rw [hconn] at hdrained
          exact hdrained.settles.1
      | some i =>
          rcases h.held i hholder with ⟨op, -, hholds⟩
          rw [hconn] at hholds
          cases hstage : op.stage with
          | body =>
              rw [hstage] at hholds
              exact hholds.2.settles.1
          | awaiting command awaited =>
              rw [hstage] at hholds
              cases awaited with
              | none =>
                  rcases hholds with ⟨-, queue, hsplit, hdrained⟩
                  cases queue with
                  | nil =>
                      cases hsplit
                      cases hst
                  | cons st' queue =>
                      cases hsplit
                      exact hdrained.settles.1
              | some a => cases hholds.2.1
          | _ =>
              rw [hstage] at hholds
              exact hholds.elim

end CairnQ
