import CairnQ.Protocol.Runs
import CairnQ.SqliteStore.LockDiscipline

/-!
# Transaction isolation on the shared connection

Rows are received inside a transaction before it is committed, and by a single statement
when it is.  They are in the state the transaction sees for as long as it is open, and in
the committed state from the commit on; who hands rows to a caller does so after the
commit.

One release of the lock breaks this.  A caller that is cancelled at its
{lit}`BEGIN IMMEDIATE` releases the lock with the statement queued and nothing behind it,
and when the statement succeeds the transaction is nobody's: what follows runs inside it.

Main results:

- Theorem `transaction_isolation`: in every run without such a {lit}`BEGIN`, no statement
  meets a transaction of another operation, and rows handed to a caller are committed.
- Theorem `isolation_fails`: a cancelled keyed submit and a write that is lost.
-/

namespace CairnQ

open Relational Transition

variable {D W R : Type} {apply : Int → W → D → D × R} {start : D}

/-! ## What was received is committed -/

namespace Operation

/-- The rows an operation has received, and those on their way to it. -/
def obtained (op : Operation W R) : List (Nat × R) :=
  op.received ++ match op.stage with
    | .awaiting (.run id _) (some (.rows rows)) => [(id, rows)]
    | _ => []

theorem received_obtained (op : Operation W R) : ∀ x ∈ op.received, x ∈ op.obtained :=
  fun _ hx => List.mem_append_left _ hx

/-- The operation has handed its rows to its caller, or will: its transaction is committed, or its
single statement is executed. -/
def Succeeded (op : Operation W R) : Prop :=
  match op.stage with
  | .finished succeeded => succeeded = true
  | .awaiting .commit (some (.error _)) => False
  | .awaiting .commit (some _) => True
  | .awaiting (.run _ _) (some (.rows _)) => ¬op.kind.OpensTransaction
  | _ => False

/-- The operation cannot have received anything yet. -/
def Early (op : Operation W R) : Prop :=
  match op.stage with
  | .waiting => True
  | .awaiting .begin _ => True
  | .finished _ => False
  | _ => ¬op.kind.OpensTransaction

/-- The rows of the operation are in the state its transaction sees, and in the committed state once
it succeeded. -/
structure Durable (op : Operation W R) (i : Nat) (tx : Option (Nat × History apply start))
    (store : History apply start) : Prop where
  early : op.Early → op.received = []
  working : ∀ working, tx = some (i, working) → ∀ x ∈ op.obtained, x ∈ answers working.log
  committed : op.Succeeded → ∀ x ∈ op.obtained, x ∈ answers store.log

variable {op op' : Operation W R} {i : Nat} {tx : Option (Nat × History apply start)}
  {store : History apply start}

/-- An operation that goes on keeps what it had, and succeeds only if it had succeeded. -/
theorem Durable.of_move (h : op.Durable i tx store) (hearly : op'.Early → op'.received = [])
    (hobtained : ∀ x ∈ op'.obtained, x ∈ op.obtained) (hsucceeded : op'.Succeeded → op.Succeeded) :
    op'.Durable i tx store where
  early := hearly
  working w htx x hx := h.working w htx x (hobtained x hx)
  committed hs x hx := h.committed (hsucceeded hs) x (hobtained x hx)

theorem Durable.submit (h : op.Durable i tx store) {command : Command W}
    (failure : Option SqliteError) (hearly : command ≠ .begin → ¬op.kind.OpensTransaction → op.Early)
    (hbegin : command = .begin → op.Early) :
    Operation.Durable { op with stage := .awaiting command none, failure := failure } i tx store := by
  refine h.of_move ?_ ?_ ?_
  · intro he
    refine h.early ?_
    cases command with
    | begin => exact hbegin rfl
    | _ => exact hearly (by simp) he
  · intro x hx
    simp only [obtained, List.append_nil] at hx
    exact op.received_obtained x hx
  · intro hs
    cases command <;> exact hs.elim

theorem Durable.enterBody (h : op.Durable i tx store) {received : List (Nat × R)}
    (hreceived : ∀ x ∈ received, x ∈ op.obtained)
    (hearly : ¬op.kind.OpensTransaction → received = []) :
    Operation.Durable { op with stage := .body, received := received } i tx store := by
  refine h.of_move hearly ?_ (fun hs => hs.elim)
  intro x hx
  simp only [obtained, List.append_nil] at hx
  exact hreceived x hx

theorem Durable.finish (h : op.Durable i tx store) {received : List (Nat × R)}
    (hreceived : ∀ x ∈ received, x ∈ op.obtained) {succeeded : Bool}
    (hsucceeded : succeeded = true → op.Succeeded) :
    Operation.Durable { op with stage := .finished succeeded, received := received } i tx store := by
  refine h.of_move (fun he => he.elim) ?_ hsucceeded
  intro x hx
  simp only [obtained, List.append_nil] at hx
  exact hreceived x hx

theorem Durable.call (kind : OperationKind W) (i : Nat) (tx : Option (Nat × History apply start))
    (store : History apply start) :
    Operation.Durable ⟨kind, .waiting, [], none⟩ i tx store where
  early _ := rfl
  working w _ x hx := by cases hx
  committed hs := hs.elim

theorem Durable.backOff (h : op.Durable i tx store) :
    Operation.Durable { op with stage := .waiting, received := [] } i tx store :=
  h.of_move (fun _ => rfl) (fun x hx => by cases hx) (fun hs => hs.elim)

end Operation

/-- The state a transaction sees contains what is committed. -/
def Keeps (tx : Option (Nat × History apply start)) (store : History apply start) : Prop :=
  ∀ j working, tx = some (j, working) → ∀ x ∈ answers store.log, x ∈ answers working.log

/-- What is committed stays, and the rows of every operation are where they belong. -/
structure DurableInvariant (s : StoreState apply start) : Prop where
  kept : Keeps s.conn.tx s.conn.store
  durable : ∀ (i : Nat) op, s.operations[i]? = some op → op.Durable i s.conn.tx s.conn.store

theorem DurableInvariant.fresh : DurableInvariant (StoreState.fresh apply start) where
  kept j working h := by cases h
  durable i op h := by cases h

variable {s s' : StoreState apply start} {i : Nat} {op : Operation W R}

/-- One operation moves, and the connection executes nothing. -/
theorem DurableInvariant.of_set (h : DurableInvariant s) {op' : Operation W R}
    (hop' : op'.Durable i s.conn.tx s.conn.store)
    (hoperations : s'.operations = s.operations.set i op') (htx : s'.conn.tx = s.conn.tx)
    (hstore : s'.conn.store = s.conn.store) : DurableInvariant s' where
  kept := by
    rw [htx, hstore]
    exact h.kept
  durable j op'' hop'' := by
    rw [hoperations] at hop''
    rw [htx, hstore]
    rcases cases_getElem?_set hop'' with ⟨rfl, rfl⟩ | ⟨-, hold⟩
    · exact hop'
    · exact h.durable j op'' hold

/-! ### Moves of an operation -/

namespace DurableInvariant

theorem of_submit (h : DurableInvariant s) (hop : op.Durable i s.conn.tx s.conn.store)
    {command : Command W} (failure : Option SqliteError)
    (hearly : command ≠ .begin → ¬op.kind.OpensTransaction → op.Early)
    (hbegin : command = .begin → op.Early) :
    DurableInvariant (s.submit i { op with failure := failure } command) :=
  h.of_set (hop.submit failure hearly hbegin) rfl rfl rfl

theorem of_raise (h : DurableInvariant s) (hop : op.Durable i s.conn.tx s.conn.store)
    (hearly : ¬op.kind.OpensTransaction → op.Early) : DurableInvariant (s.raise i op) :=
  h.of_submit hop none (fun _ => hearly) (by simp)

theorem of_enterBody (h : DurableInvariant s) (hop : op.Durable i s.conn.tx s.conn.store)
    (hearly : ¬op.kind.OpensTransaction → op.Early) : DurableInvariant (s.enterBody i op) :=
  h.of_set (hop.enterBody op.received_obtained fun hkind => hop.early (hearly hkind)) rfl rfl rfl

theorem of_finish (h : DurableInvariant s) (hop : op.Durable i s.conn.tx s.conn.store)
    {succeeded : Bool} (hsucceeded : succeeded = true → op.Succeeded) :
    DurableInvariant (s.finish i op succeeded) :=
  h.of_set (hop.finish op.received_obtained hsucceeded) rfl rfl rfl

theorem of_retryOrRaise (h : DurableInvariant s) (hop : op.Durable i s.conn.tx s.conn.store)
    (e : SqliteError) (goesOn : Bool) : DurableInvariant (s.retryOrRaise i op e goesOn) := by
  unfold StoreState.retryOrRaise
  split
  · exact h.of_set hop.backOff rfl rfl rfl
  · exact h.of_finish hop (by simp)

theorem of_acquire (h : DurableInvariant s) (hstep : s.acquire i = some s') :
    DurableInvariant s' := by
  unfold StoreState.acquire at hstep
  split at hstep
  · rename_i op hfree hop
    have hdurable := h.durable i op hop
    split at hstep
    · rename_i hstage
      have hearly : op.Early := by
        simp only [Operation.Early, hstage]
      split at hstep <;> cases hstep
      · exact h.of_set (hdurable.submit op.failure (fun _ _ => hearly) fun _ => hearly) rfl rfl rfl
      · exact h.of_set (hdurable.submit op.failure (fun _ _ => hearly) fun _ => hearly) rfl rfl rfl
    · cases hstep
  · cases hstep

theorem of_inBody (h : DurableInvariant s) {step : Operation W R → StoreState apply start}
    (hstep : s.inBody i step = some s')
    (hkeep : ∀ op : Operation W R, op.Durable i s.conn.tx s.conn.store →
      (¬op.kind.OpensTransaction → op.Early) → DurableInvariant (step op)) :
    DurableInvariant s' := by
  unfold StoreState.inBody at hstep
  split at hstep
  · rename_i op hop
    split at hstep
    · rename_i hstage
      cases hstep
      refine hkeep op (h.durable i op hop) fun hkind => ?_
      simp only [Operation.Early, hstage]
      exact hkind
    · cases hstep
  · cases hstep

theorem of_afterBegin (h : DurableInvariant s) (hop : op.Durable i s.conn.tx s.conn.store)
    {answer : Answer R} (hstage : op.stage = .awaiting .begin (some answer)) (goesOn : Bool) :
    DurableInvariant (s.afterBegin i op goesOn answer) := by
  have hearly : op.Early := by simp only [Operation.Early, hstage]
  unfold StoreState.afterBegin
  split
  · split
    · split
      · exact h.of_submit hop _ (fun _ _ => hearly) (by simp)
      · exact h.of_retryOrRaise hop _ goesOn
    · exact h.of_retryOrRaise hop _ goesOn
  · exact h.of_enterBody hop fun _ => hearly

/-- The rows on their way are received. -/
theorem of_afterRun (h : DurableInvariant s) (hop : op.Durable i s.conn.tx s.conn.store)
    {id : Nat} {write : W} {answer : Answer R}
    (hstage : op.stage = .awaiting (.run id write) (some answer)) (goesOn : Bool) :
    DurableInvariant (s.afterRun i op id goesOn answer) := by
  unfold StoreState.afterRun
  cases answer with
  | rows rows =>
      have hobtained : op.obtained = op.received ++ [(id, rows)] := by
        simp only [Operation.obtained, hstage]
      dsimp only
      split
      · rename_i w hkind
        refine h.of_set (hop.finish (fun x hx => hobtained ▸ hx) fun _ => ?_) rfl rfl rfl
        simp only [Operation.Succeeded, hstage, hkind]
        exact fun hsingle => hsingle
      · rename_i hkind
        have hkind := opensTransaction_of_ne hkind
        exact h.of_set (hop.enterBody (fun x hx => hobtained ▸ hx) fun hsingle => absurd hkind hsingle)
          rfl rfl rfl
  | error e =>
      have hearly : ¬op.kind.OpensTransaction → op.Early := by
        intro hkind
        simp only [Operation.Early, hstage]
        exact hkind
      dsimp only
      split
      · exact h.of_retryOrRaise hop _ goesOn
      · split
        · exact h.of_enterBody hop hearly
        · exact h.of_raise hop hearly
      · split
        · exact h.of_enterBody hop hearly
        · exact h.of_retryOrRaise hop _ goesOn
  | done => exact h

theorem of_afterCommit (h : DurableInvariant s) (hop : op.Durable i s.conn.tx s.conn.store)
    {answer : Answer R} (hstage : op.stage = .awaiting .commit (some answer)) (goesOn : Bool) :
    DurableInvariant (s.afterCommit i op goesOn answer) := by
  have hearly : ¬op.kind.OpensTransaction → op.Early := by
    intro hkind
    simp only [Operation.Early, hstage]
    exact hkind
  unfold StoreState.afterCommit
  split
  · split
    · split
      · exact h.of_submit hop _ (fun _ => hearly) (by simp)
      · exact h.of_retryOrRaise hop _ goesOn
    · exact h.of_raise hop hearly
  · rename_i hanswer
    refine h.of_finish hop fun _ => ?_
    cases answer with
    | error e => exact absurd rfl (hanswer e)
    | _ => simp only [Operation.Succeeded, hstage]

theorem of_afterRollback (h : DurableInvariant s) (hop : op.Durable i s.conn.tx s.conn.store)
    (goesOn : Bool) : DurableInvariant (s.afterRollback i op goesOn) := by
  unfold StoreState.afterRollback
  split
  · exact h.of_retryOrRaise hop _ goesOn
  · exact h.of_finish hop (by simp)

theorem of_resume (h : DurableInvariant s) {goesOn : Bool} (hstep : s.resume i goesOn = some s') :
    DurableInvariant s' := by
  unfold StoreState.resume at hstep
  split at hstep
  · rename_i op hop
    have hdurable := h.durable i op hop
    split at hstep
    · rename_i command answer hstage
      split at hstep <;> cases hstep
      · exact h.of_afterBegin hdurable hstage goesOn
      · exact h.of_afterRun hdurable hstage goesOn
      · exact h.of_afterCommit hdurable hstage goesOn
      · exact h.of_afterRollback hdurable goesOn
    · cases hstep
  · cases hstep

theorem of_abandon (h : DurableInvariant s) (i : Nat) : DurableInvariant (s.abandon i) :=
  ⟨h.kept, h.durable⟩

theorem of_cancel (h : DurableInvariant s) {handled : Bool} (hstep : s.cancel i handled = some s') :
    DurableInvariant s' := by
  unfold StoreState.cancel at hstep
  split at hstep
  · rename_i op hop
    have hdurable := h.durable i op hop
    split at hstep
    · cases hstep
    · unfold StoreState.cancelCaller at hstep
      split at hstep
      · cases hstep
        have hleft : Operation.Durable { op with stage := .finished false } i s.conn.tx
            s.conn.store := hdurable.finish op.received_obtained (by simp)
        exact h.of_set hleft rfl rfl rfl
      · rename_i hstage
        cases hstep
        refine h.of_raise hdurable fun hkind => ?_
        simp only [Operation.Early, hstage]
        exact hkind
      · rename_i command answer hstage
        cases hstep
        have hleft := h.of_abandon i
        have hearly : ¬op.kind.OpensTransaction → op.Early := by
          intro hkind
          simp only [Operation.Early, hstage]
          cases command <;> first | exact hkind | trivial
        cases command with
        | begin => exact hleft.of_finish hdurable (by simp)
        | run id write =>
            simp only [StoreState.afterCancel]
            split
            · exact hleft.of_finish hdurable (by simp)
            · split
              · exact hleft.of_enterBody hdurable hearly
              · exact hleft.of_raise hdurable hearly
        | commit => exact hleft.of_raise hdurable hearly
        | rollback => exact hleft.of_finish hdurable (by simp)
      · cases hstep
  · cases hstep

end DurableInvariant

/-! ### The thread -/

section

variable {tx tx' : Option (Nat × History apply start)} {store store' : History apply start}
  {st : Submitted W} {answer : Answer R}

theorem mem_answers_perform {h : History apply start} {x : Nat × R} (hx : x ∈ answers h.log)
    (id : Nat) (write : W) (nowMs : Int) : x ∈ answers (h.perform id write nowMs).log := by
  rw [History.answers_perform]
  exact List.mem_append_left _ hx

/-- What is committed stays committed. -/
theorem Executed.store_grows (h : Executed tx store st answer tx' store') (hkept : Keeps tx store)
    {x : Nat × R} (hx : x ∈ answers store.log) : x ∈ answers store'.log := by
  cases h with
  | ranAlone id write nowMs hcommand htx => exact mem_answers_perform hx id write nowMs
  | committed j working hcommand htx => exact hkept j _ htx x hx
  | _ => exact hx

/-- An open transaction was opened by this statement, or keeps what it had. -/
theorem Executed.tx_grows (h : Executed tx store st answer tx' store') {j : Nat}
    {working' : History apply start} (htx' : tx' = some (j, working')) :
    (st.abandoned = false ∧ j = st.op) ∨
      ∃ working, tx = some (j, working) ∧ ∀ x ∈ answers working.log, x ∈ answers working'.log := by
  cases h with
  | began hcommand hawaited htx =>
      cases htx'
      exact Or.inl ⟨hawaited, rfl⟩
  | ranInside id write nowMs j' working hcommand htx =>
      cases htx'
      exact Or.inr ⟨working, htx, fun x hx => mem_answers_perform hx id write nowMs⟩
  | failed e hcommand => exact Or.inr ⟨working', htx', fun x hx => hx⟩
  | _ => cases htx'

theorem Executed.keeps (h : Executed tx store st answer tx' store') (hkept : Keeps tx store) :
    Keeps tx' store' := by
  intro j working' htx' x hx
  cases h with
  | began hcommand hawaited htx =>
      cases htx'
      exact hx
  | ranInside id write nowMs j' working hcommand htx =>
      cases htx'
      exact mem_answers_perform (hkept j working htx x hx) id write nowMs
  | failed e hcommand => exact hkept j working' htx' x hx
  | _ => cases htx'

namespace Operation

variable {op op' : Operation W R} {i : Nat}

/-- A statement that the operation does not await leaves it its rows. -/
theorem Durable.of_executed (h : op.Durable i tx store)
    (hexecuted : Executed tx store st answer tx' store') (hkept : Keeps tx store)
    (hother : st.abandoned = true ∨ i ≠ st.op) : op.Durable i tx' store' where
  early := h.early
  working working' htx' x hx := by
    rcases hexecuted.tx_grows htx' with ⟨hawaited, hi⟩ | ⟨working, htx, hgrows⟩
    · rcases hother with habandoned | hne
      · rw [hawaited] at habandoned
        cases habandoned
      · exact absurd hi hne
    · exact hgrows x (h.working working htx x hx)
  committed hs x hx := hexecuted.store_grows hkept (h.committed hs x hx)

/-- An error, or the answer of a rollback, brings no rows. -/
theorem Durable.of_answer (h : op.Durable i tx store) {command : Command W} {answer : Answer R}
    (hstage : op.stage = .awaiting command none)
    (hanswer : command = .rollback ∨ ∃ e, answer = .error e) :
    Operation.Durable { op with stage := .awaiting command (some answer) } i tx store := by
  refine h.of_move (fun he => h.early ?_) ?_ ?_
  · simp only [Early, hstage] at he ⊢
    cases command <;> exact he
  · intro x hx
    refine List.mem_append_left _ ?_
    rcases hanswer with rfl | ⟨e, rfl⟩
    · simpa only [obtained, List.append_nil] using hx
    · cases command <;> simpa only [obtained, List.append_nil] using hx
  · intro hs
    rcases hanswer with rfl | ⟨e, rfl⟩
    · exact hs.elim
    · cases command <;> exact hs.elim

theorem Durable.of_closed (h : op.Durable i tx store) : op.Durable i none store where
  early := h.early
  working w htx := by cases htx
  committed := h.committed

/-- A transaction is open only at a statement of an operation that opens one. -/
theorem opensTransaction_of_open {kind : OperationKind W} {j : Nat} {command : Command W}
    {working : History apply start}
    (hopened : Within ((some (j, working)).map Prod.fst) (kind.before i command)) :
    kind.OpensTransaction := by
  cases kind with
  | single write => rcases hopened with h | h <;> cases command <;> cases h
  | _ => trivial

/-- The answer of the awaited statement reaches its operation. -/
theorem Durable.of_awaited (h : op.Durable st.op tx store) (hstage : op.stage = .awaiting st.command none)
    (hopened : Within (tx.map Prod.fst) (op.kind.before st.op st.command))
    (hexecuted : Executed tx store st answer tx' store') :
    (op.deliver answer).Durable st.op tx' store' := by
  have hdeliver : op.deliver answer = { op with stage := .awaiting st.command (some answer) } := by
    simp only [deliver, hstage]
  rw [hdeliver]
  cases hexecuted with
  | began hcommand hawaited htx =>
      have hreceived : op.received = [] := h.early (by simp only [Early, hstage, hcommand])
      refine ⟨fun _ => hreceived, ?_, ?_⟩
      · intro w _ x hx
        simp [obtained, hcommand, hreceived] at hx
      · intro hs
        simp [Succeeded, hcommand] at hs
  | ranInside id write nowMs j working hcommand htx =>
      rw [htx] at hopened
      have hkind : op.kind.OpensTransaction := opensTransaction_of_open hopened
      refine ⟨?_, ?_, ?_⟩
      · intro he
        simp only [Early, hcommand] at he
        exact absurd hkind he
      · intro w hw x hx
        cases hw
        simp only [obtained, hcommand, List.mem_append, List.mem_singleton] at hx
        rcases hx with hx | rfl
        · exact mem_answers_perform (h.working working htx x (List.mem_append_left _ hx)) ..
        · rw [History.answers_perform]
          exact List.mem_append_right _ (List.mem_singleton_self _)
      · intro hs
        simp only [Succeeded, hcommand] at hs
        exact absurd hkind hs
  | ranAlone id write nowMs hcommand htx =>
      have hreceived : ¬op.kind.OpensTransaction → op.received = [] := by
        intro hkind
        refine h.early ?_
        simp only [Early, hstage, hcommand]
        exact hkind
      refine ⟨?_, by simp, ?_⟩
      · intro he
        simp only [Early, hcommand] at he
        exact hreceived he
      · intro hs x hx
        simp only [Succeeded, hcommand] at hs
        simp only [obtained, hcommand, hreceived hs, List.nil_append, List.mem_singleton] at hx
        rw [hx, History.answers_perform]
        exact List.mem_append_right _ (List.mem_singleton_self _)
  | committed j working hcommand htx =>
      have hj : j = st.op := by
        rcases hopened.trans (Within.before ..) with hnone | hsome
        · rw [htx] at hnone
          cases hnone
        · rw [htx] at hsome
          exact Option.some.inj hsome
      refine ⟨?_, by simp, ?_⟩
      · intro he
        refine h.early ?_
        simp only [Early, hcommand] at he
        simp only [Early, hstage, hcommand]
        exact he
      · intro _ x hx
        simp only [obtained, hcommand, List.append_nil] at hx
        exact h.working _ (hj ▸ htx) x (List.mem_append_left _ hx)
  | rolledBack answer hcommand => exact (h.of_answer hstage (Or.inl hcommand)).of_closed
  | failed e hcommand => exact h.of_answer hstage (Or.inr ⟨e, rfl⟩)
  | torn e hcommand => exact (h.of_answer hstage (Or.inr ⟨e, rfl⟩)).of_closed

end Operation

end

theorem DurableInvariant.of_execute (h : DurableInvariant s) (hlock : LockInvariant s)
    {verdict : Verdict} (hproper : ∀ st, s.conn.queue.head? = some st → st.Proper verdict)
    (hstep : s.execute verdict = some s') : DurableInvariant s' := by
  rcases execute_cases hstep hproper with ⟨st, rest, answer, tx, store, hqueue, hexecuted, rfl⟩
  refine ⟨hexecuted.keeps h.kept, ?_⟩
  intro j op' hop'
  split at hop'
  · rename_i habandoned
    exact (h.durable j op' hop').of_executed hexecuted h.kept (Or.inl habandoned)
  · rename_i habandoned
    have hconn : s.conn = ⟨st :: rest, s.conn.tx, s.conn.store⟩ := by rw [← hqueue]
    rcases hlock.awaited hconn (by simpa using habandoned) with ⟨op, -, hop, hstage, -, -, hopened⟩
    by_cases hj : st.op = j
    · subst hj
      rw [List.getElem?_modify_eq, hop] at hop'
      cases hop'
      exact (h.durable st.op op hop).of_awaited hstage hopened hexecuted
    · rw [List.getElem?_modify_ne _ _ hj] at hop'
      exact (h.durable j op' hop').of_executed hexecuted h.kept (Or.inr fun hji => hj hji.symm)

theorem DurableInvariant.of_step {l : StoreStep D W} (h : DurableInvariant s)
    (hlock : LockInvariant s) (hguard : NoOrphanedBegin s l)
    (hstep : sharing apply start s l = some s') : DurableInvariant s' := by
  cases l with
  | call kind =>
      cases hstep
      refine ⟨h.kept, fun j op hop => ?_⟩
      rcases cases_getElem?_concat hop with ⟨-, rfl⟩ | hold
      · exact Operation.Durable.call kind j _ _
      · exact h.durable j op hold
  | external change =>
      simp only [sharing] at hstep
      split at hstep
      · cases hstep
      · rename_i hclosed
        cases hstep
        have htx : s.conn.tx = none := by simpa [StoreState.inTransaction] using hclosed
        refine ⟨fun j working hopen => ?_, fun j op hop => ?_⟩
        · have hopen : s.conn.tx = some (j, working) := hopen
          rw [htx] at hopen
          cases hopen
        · have hdurable := h.durable j op hop
          refine ⟨hdurable.early, hdurable.working, fun hs x hx => ?_⟩
          rw [History.answers_external]
          exact hdurable.committed hs x hx
  | execute verdict => exact h.of_execute hlock hguard hstep
  | acquire i => exact h.of_acquire hstep
  | issue i write =>
      refine h.of_inBody hstep fun op hop hearly => ?_
      have hissued : Operation.Durable
          { op with stage := .awaiting (.run s.nextId write) none } i s.conn.tx s.conn.store :=
        hop.submit op.failure (fun _ => hearly) (by simp)
      exact h.of_set hissued rfl rfl rfl
  | leave i =>
      refine h.of_inBody hstep fun op hop hearly => ?_
      exact h.of_submit hop op.failure (fun _ => hearly) (by simp)
  | raise i => exact h.of_inBody hstep fun op hop hearly => h.of_raise hop hearly
  | resume i goesOn => exact h.of_resume hstep
  | cancel i handled => exact h.of_cancel hstep

/-! ## Isolation -/

/-- The operations of the store are isolated from each other. -/
structure Isolated (s : StoreState apply start) : Prop where
  /-- when the next statement is executed, no transaction of another operation is open: the
  statement does not run inside it, and it was committed or rolled back -/
  ownTransaction : ∀ st, s.conn.queue.head? = some st → ∀ j, s.conn.openedBy = some j → j = st.op
  /-- when the rows of an operation were handed to its caller, its writes are in the committed
  state, with the rows they returned there -/
  receivedCommitted : ∀ (i : Nat) op, s.operations[i]? = some op → op.stage = .finished true →
    ∀ id rows, (id, rows) ∈ op.received →
      ∃ before write nowMs after,
        s.conn.store.log = before ++ .operation id write nowMs rows :: after ∧
        rows = (apply nowMs write (replay apply start before)).2

/-- Transaction isolation on the shared connection.  In every run of transactions, group commits and
single statements, with failing statements and cancelled callers, in which no transaction is
opened for a caller that was cancelled at its {lit}`BEGIN`, a statement never executes inside
the transaction of another operation, and the rows handed to a caller are committed. -/
theorem transaction_isolation
    (hreach : (sharing apply start).Reachable NoOrphanedBegin (StoreState.fresh apply start) s) :
    Isolated s := by
  have hinvariant : LockInvariant s ∧ DurableInvariant s := by
    refine Machine.Reachable.invariant
      (I := fun s => LockInvariant s ∧ DurableInvariant s) ?_ hreach
      ⟨LockInvariant.fresh, DurableInvariant.fresh⟩
    exact fun _ _ _ h hguard hstep => ⟨h.1.of_step hguard hstep, h.2.of_step h.1 hguard hstep⟩
  refine ⟨?_, ?_⟩
  · intro st hhead j hj
    cases hqueue : s.conn.queue with
    | nil =>
        rw [hqueue] at hhead
        cases hhead
    | cons st' rest =>
        rw [hqueue] at hhead
        cases hhead
        have hconn : s.conn = ⟨st :: rest, s.conn.tx, s.conn.store⟩ := by rw [← hqueue]
        have hopen : s.conn.tx.map Prod.fst = some j := hj
        rcases hinvariant.1.ownTransaction hconn with hnone | hsome
        · rw [hopen] at hnone
          cases hnone
        · rw [hopen] at hsome
          exact Option.some.inj hsome
  · intro i op hop hstage id rows hreceived
    have hdurable := hinvariant.2.durable i op hop
    have hsucceeded : op.Succeeded := by simp only [Operation.Succeeded, hstage]
    have hanswer := hdurable.committed hsucceeded (id, rows) (List.mem_append_left _ hreceived)
    rcases s.conn.store.answer_at hanswer with ⟨before, write, nowMs, after, hsplit, hrows⟩
    exact ⟨before, write, nowMs, after, hsplit, hrows⟩

/-- A transaction is cancelled at its statement, and once more at its rollback; its statements are
still queued when a write of another caller takes the lock. -/
def cancelledRun : List (StoreStep (Database Nat) (Statement Nat)) :=
  [.call .transaction, .call (.single (.insertTask (.plain "u" "work" 3 0))),
    .acquire 0, .execute (.succeeds 0), .resume 0 false,
    .issue 0 (.insertTask (.plain "t" "work" 3 0)), .cancel 0 false, .cancel 0 false,
    .acquire 1, .execute (.succeeds 1), .execute (.succeeds 1), .execute (.succeeds 1),
    .resume 1 false]

/-- The state at the end of that run. -/
def cancelledState : StoreState (Sqlite.exec (J := Nat)) .empty :=
  (sharing Sqlite.exec .empty).drive (StoreState.fresh Sqlite.exec .empty) cancelledRun

/-- The write of the other caller is committed, and nothing of the transaction is. -/
theorem transaction_isolation_cancelledRun :
    Isolated cancelledState ∧ operationIds cancelledState.conn.store.log = [1] := by
  have hsteps : (sharing Sqlite.exec .empty).Steps NoOrphanedBegin
      (StoreState.fresh Sqlite.exec .empty) cancelledRun cancelledState := by
    refine .cons trivial rfl (.cons trivial rfl (.cons trivial rfl (.cons ?_ rfl (.cons trivial rfl
      (.cons trivial rfl (.cons ?_ rfl (.cons ?_ rfl (.cons trivial rfl (.cons ?_ rfl (.cons ?_ rfl
      (.cons ?_ rfl (.cons trivial rfl (.nil _)))))))))))))
    all_goals rintro _ ⟨⟩
    · rfl
    · exact fun a ha => by cases ha
    · exact fun a ha => by cases ha
    all_goals trivial
  exact ⟨transaction_isolation ⟨_, hsteps⟩, rfl⟩

/-- A keyed submit is cancelled at its {lit}`BEGIN IMMEDIATE`, which then succeeds; a write of
another caller takes the lock. -/
def orphanedRun : List (StoreStep (Database Nat) (Statement Nat)) :=
  [.call .transaction, .call (.single (.insertTask (.plain "t" "work" 3 0))), .acquire 0,
    .cancel 0 false, .execute (.succeeds 0), .acquire 1]

/-- Isolation fails: the write runs inside the transaction that the cancelled submit opened, its
caller receives the row, and nothing is committed. -/
theorem isolation_fails :
    ∃ s s' : StoreState (Sqlite.exec (J := Nat)) .empty,
      (sharing Sqlite.exec .empty).Reachable anyStep (StoreState.fresh Sqlite.exec .empty) s ∧
      (s.conn.queue.map Submitted.op = [1] ∧ s.conn.openedBy = some 0) ∧ ¬Isolated s ∧
      (sharing Sqlite.exec .empty).Reachable anyStep s s' ∧
      (s'.operations[1]?.map fun op => op.received.map Prod.fst) = some [0] ∧
      operationIds s'.conn.store.log = [] ∧ ¬Isolated s' := by
  refine ⟨(sharing Sqlite.exec .empty).drive (StoreState.fresh Sqlite.exec .empty) orphanedRun,
    _, Machine.reachable_drive _ _ _ fun _ _ _ => trivial, ⟨rfl, rfl⟩, ?_,
    Machine.reachable_drive _ _ [.execute (.succeeds 1), .resume 1 false] fun _ _ _ => trivial,
    rfl, rfl, ?_⟩
  · intro h
    cases h.ownTransaction _ rfl 0 rfl
  · intro h
    rcases h.receivedCommitted 1 _ rfl rfl 0 _ (List.mem_singleton_self _) with
      ⟨before, write, nowMs, after, hsplit, -⟩
    cases before <;> cases hsplit

end CairnQ
