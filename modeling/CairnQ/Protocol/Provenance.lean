import CairnQ.Protocol.Lifecycle
import CairnQ.Transition.Past

/-!
# Where an outcome comes from

A row does not say how it came about, but the run does.  The columns that a submission fixes
are never assigned again; a row that runs was handed to its worker by a claim; and a row that is
over was settled by the worker that had it, ran out of attempts with its lease, or was canceled
by somebody.  Each is the condition under which a row is what it is, followed back to the step
since which it has held.

Main results:

- Theorem `submitted_since`: every row is the one some submission wrote, but for its state.
- Theorem `handedOver_since`: a task runs since the claim that handed it to its worker.
- Theorem `settled_since`: a task that is over is so since a step that its outcome names.
- Theorem `row_explained`: so every row of every run is accounted for.
-/

namespace CairnQ

open Relational Transition

variable {J : Type}

/-! ## What a submission fixes -/

/-- The columns that no statement assigns once the row is written. -/
structure Submission (J : Type) where
  id : String
  name : String
  queue : String
  payload : J
  metadata : J
  maxAttempts : Int
  priority : Int
  parentId : Option String
  rootId : Option String
  correlationId : Option String
  createdAtMs : Int
deriving DecidableEq, Repr

def Task.submission (t : Task J) : Submission J where
  id := t.id
  name := t.name
  queue := t.queue
  payload := t.payload
  metadata := t.metadata
  maxAttempts := t.maxAttempts
  priority := t.priority
  parentId := t.parentId
  rootId := t.rootId
  correlationId := t.correlationId
  createdAtMs := t.createdAtMs

/-- What the row of a new task fixes. -/
def NewTask.submission (n : NewTask J) (nowMs : Int) : Submission J :=
  (n.row (nowMs + n.delayMs) nowMs).submission

theorem Task.id_of_submission {t t' : Task J} (h : t.submission = t'.submission) : t.id = t'.id :=
  congrArg Submission.id h

theorem Effect.submission_eq {nowMs : Int} {st : Statement J} {t t' : Task J}
    (heff : Effect nowMs st t t') : t'.submission = t.submission := by
  cases heff with
  | @written workerId write t howned => cases write <;> rfl
  | claimed _ | recovered _ | renewed _ _ | canceled _ | retried _ => rfl

/-! ## Steps that bring something about -/

/-- The row under the id meets a condition. -/
def Stored (id : String) (P : Task J → Prop) (s : ProtocolState J) : Prop :=
  ∃ t, s.db.get id = some t ∧ P t

theorem not_stored_fresh (id : String) (P : Task J → Prop) (clockMs : Int) :
    ¬Stored id P (ProtocolState.fresh clockMs) := by
  rintro ⟨t, ht, -⟩
  cases ht

/-- A condition on a row comes to hold through an effect on a row that did not meet it, or
through an insertion. -/
theorem cause_of_stored {d : Dialect} {id : String} {P : Task J → Prop} {u v : ProtocolState J}
    {e : Execution J} (hstep : protocol d u e = some v) (hu : ¬Stored id P u)
    (hv : Stored id P v) :
    ∃ t', v.db.get id = some t' ∧ P t' ∧ (e.reply d u.db).names id = true ∧
      ((∃ t, u.db.get id = some t ∧ ¬P t ∧ Effect e.nowMs e.statement t t') ∨
        (u.db.get id = none ∧ e.statement.inserts e.nowMs t')) := by
  rcases hv with ⟨t', ht', hP⟩
  rcases get_of_step hstep ht' with ⟨hsame, -⟩ | ⟨t, ht, heff, hnames⟩ | ⟨hnone, hins, hnames⟩
  · exact absurd ⟨t', hsame, hP⟩ hu
  · exact ⟨t', ht', hP, hnames, Or.inl ⟨t, ht, fun h => hu ⟨t, ht, h⟩, heff⟩⟩
  · exact ⟨t', ht', hP, hnames, Or.inr ⟨hnone, hins⟩⟩

/-- The step inserts the row of the task, under a free id. -/
def Submits (t : Task J) (u : ProtocolState J) (e : Execution J) : Prop :=
  ∃ n, e.statement = .insertTask n ∧ u.db.get n.id = none ∧
    t.submission = n.submission e.nowMs

/-- Every row was submitted, and has kept since then what the submission fixed. -/
theorem submitted_since {d : Dialect} {clockMs : Int} {s : ProtocolState J}
    {es : List (Execution J)}
    (hrun : (protocol d).Steps anyStep (ProtocolState.fresh clockMs) es s) {id : String}
    {t : Task J} (ht : s.db.get id = some t) :
    (protocol d).Since (ProtocolState.fresh clockMs) (fun _ u e _ => Submits t u e)
      (Stored id fun r => r.submission = t.submission) es := by
  refine hrun.since (not_stored_fresh _ _ _) ⟨t, ht, rfl⟩ fun before u e v _ hstep hu hv => ?_
  rcases cause_of_stored hstep hu hv with
    ⟨r', hr', hsame, -, ⟨r, -, hother, heff⟩ | ⟨hnone, n, hst, rfl⟩⟩
  · exact absurd (heff.submission_eq.symm.trans hsame) hother
  · have hid : n.id = id := Database.id_of_get hr'
    exact ⟨n, hst, by rw [hid]; exact hnone, hsame.symm⟩

/-! ## Deliveries -/

/-- The task runs under the worker, as the attempt of the given row. -/
def RunsAs (workerId : String) (t : Task J) : ProtocolState J → Prop :=
  Stored t.id fun r => r.status = .running ∧ r.workerId = some workerId ∧
    r.attempt = t.attempt ∧ r.submission = t.submission

/-- The step is a claim that hands the task to the worker as the attempt of the given row, with
what was submitted. -/
def HandsOver (d : Dialect) (workerId : String) (t : Task J) (u : ProtocolState J)
    (e : Execution J) : Prop :=
  ∃ filter leaseMs limit, e.statement = .claim filter workerId leaseMs limit ∧
    filter.queueOk t.queue = true ∧ filter.nameOk t.name = true ∧
    ∃ r ∈ (e.reply d u.db).rows, r.attempt = t.attempt ∧ r.submission = t.submission

/-- A claim returns the row that it leaves under an id it names. -/
theorem mem_rows_of_claim {d : Dialect} {s s' : ProtocolState J} {e : Execution J}
    (hstep : protocol d s e = some s') {filter : ClaimFilter} {workerId : String}
    {leaseMs limit : Int} (hst : e.statement = .claim filter workerId leaseMs limit) {id : String}
    {t' : Task J} (ht' : s'.db.get id = some t') (hnames : (e.reply d s.db).names id = true) :
    t' ∈ (e.reply d s.db).rows := by
  have hrows := (Postgres.exec_claim_rows (d.locked e.held) e.nowMs filter workerId leaseMs limit
    s.db).2 id
  rw [← hst, ← exec_eq] at hrows
  rcases hrows.mp hnames with ⟨r, hr, hid⟩
  have hget := (get_of_mem_rows hstep hr).1
  rw [hid, ht'] at hget
  cases hget
  exact hr

/-- A task that runs has run as the same attempt under the same worker since the claim that
handed it over. -/
theorem handedOver_since {d : Dialect} {clockMs : Int} {s : ProtocolState J}
    {es : List (Execution J)}
    (hrun : (protocol d).Steps anyStep (ProtocolState.fresh clockMs) es s) {workerId : String}
    {t : Task J} (hruns : RunsAs workerId t s) :
    (protocol d).Since (ProtocolState.fresh clockMs)
      (fun _ u e _ => HandsOver d workerId t u e) (RunsAs workerId t) es := by
  refine hrun.since (not_stored_fresh _ _ _) hruns fun before u e v _ hstep hu hv => ?_
  rcases cause_of_stored hstep hu hv with
    ⟨r', hr', ⟨hrunning, hworker, hattempt, hsame⟩, hnames,
      ⟨r, hr, hother, heff⟩ | ⟨-, n, -, rfl⟩⟩
  · rcases heff.of_running hrunning with
      ⟨filter, w, leaseMs, limit, hst, hw⟩ | ⟨hran, hw, hk, -⟩
    · rw [hworker] at hw
      cases hw
      refine ⟨filter, leaseMs, limit, hst, ?_, ?_, r', mem_rows_of_claim hstep hst hr' hnames,
        hattempt, hsame⟩
      · have hqueue : t.queue = r.queue :=
          congrArg Submission.queue (hsame.symm.trans heff.submission_eq)
        rw [hst] at heff
        cases heff with
        | claimed hclaimable => rw [hqueue]; exact hclaimable.2.1
      · have hname : t.name = r.name :=
          congrArg Submission.name (hsame.symm.trans heff.submission_eq)
        rw [hst] at heff
        cases heff with
        | claimed hclaimable => rw [hname]; exact hclaimable.2.2.1
    · -- the row ran like this before
      exact absurd ⟨hran, hw ▸ hworker, hk ▸ hattempt, heff.submission_eq.symm.trans hsame⟩ hother
  · cases hrunning

/-! ## Outcomes -/

/-- The write that reports a result. -/
def OwnedWrite.Reports (result : Option J) (write : OwnedWrite J) : Prop :=
  write = .complete result ∨ ∃ message, write = .succeed result message

/-- The step is an accepted cancel of the task. -/
def Cancels (d : Dialect) (id : String) (u : ProtocolState J) (e : Execution J) : Prop :=
  e.statement = .cancel id ∧ (e.reply d u.db).names id = true

/-- The task was canceled, or was asked to end so. -/
def CancelAsked (id : String) : ProtocolState J → Prop :=
  Stored id fun r => r.status = .canceled ∨ r.cancelRequestedAtMs.isSome = true

/-- Only a cancel ends a task as canceled that nobody asked to end so, and only it asks. -/
theorem Effect.cancels {nowMs : Int} {st : Statement J} {t t' : Task J}
    (heff : Effect nowMs st t t') (hnone : t.cancelRequestedAtMs = none)
    (hlive : t.status ≠ .canceled)
    (hasked : t'.status = .canceled ∨ t'.cancelRequestedAtMs.isSome = true) :
    st = .cancel t.id := by
  have hnot : ∀ (p : Prop) [Decidable p],
      (if p then TaskStatus.queued else TaskStatus.failed) ≠ .canceled := by
    intro p _
    split <;> decide
  cases heff with
  | claimed _ => simp [setClaim, hnone] at hasked
  | recovered _ =>
      simp only [setRecover, hnone, Option.isSome_none, Bool.false_eq_true, if_false,
        or_false] at hasked
      exact absurd hasked (hnot _)
  | @written _ write _ howned =>
      cases write with
      | heartbeat _ | progress _ _ | complete _ | succeed _ _ =>
          simp [OwnedWrite.setList, setHeartbeat, setProgress, setComplete, setSucceed, hnone,
            howned.1] at hasked
      | fail error retryable delayMs =>
          simp only [OwnedWrite.setList, setFail, hnone, Option.isSome_none, Bool.false_eq_true,
            if_false, or_false] at hasked
          exact absurd hasked (hnot _)
  | renewed _ _ => simp [setHeartbeat, hnone, hlive] at hasked
  | canceled _ => rfl
  | retried _ => simp [setRetry] at hasked

/-- A task that was canceled, or asked to end so, is in that state since an accepted cancel. -/
theorem canceled_since {d : Dialect} {clockMs : Int} {s : ProtocolState J}
    {es : List (Execution J)}
    (hrun : (protocol d).Steps anyStep (ProtocolState.fresh clockMs) es s) {id : String}
    (hasked : CancelAsked id s) :
    (protocol d).Since (ProtocolState.fresh clockMs) (fun _ u e _ => Cancels d id u e)
      (CancelAsked id) es := by
  refine hrun.since (not_stored_fresh _ _ _) hasked fun before u e v _ hstep hu hv => ?_
  rcases cause_of_stored hstep hu hv with
    ⟨r', -, hasked', hnames, ⟨r, hr, hother, heff⟩ | ⟨-, n, -, rfl⟩⟩
  · have hnone : r.cancelRequestedAtMs = none := by
      simpa using fun h => hother (Or.inr h)
    have hst := heff.cancels hnone (fun h => hother (Or.inl h)) hasked'
    exact ⟨by rw [hst, Database.id_of_get hr], hnames⟩
  · rcases hasked' with h | h <;> cases h

/-- A task that comes to an end does so along an edge of the state table. -/
theorem Effect.edge_of_terminal {nowMs : Int} {st : Statement J} {t t' : Task J}
    (heff : Effect nowMs st t t') (hterminal : t'.status.isTerminal = true) :
    Edge st (some t.status) (some t'.status) := by
  rcases heff.edge with hsame | hedge
  · rw [hsame] at hterminal
    -- only a retry changes a task that is over, and it queues it
    rcases (heff.of_terminal hterminal).2 with ⟨resetAttempt, hst⟩
    generalize t.id = id at hst
    subst hst
    cases heff with
    | retried _ =>
        rw [← hsame] at hterminal
        cases hterminal
  · exact hedge

/-- A task that succeeds does so by the report of the worker that has it. -/
theorem Effect.of_succeeded {nowMs : Int} {st : Statement J} {t t' : Task J}
    (heff : Effect nowMs st t t') (hsucceeded : t'.status = .succeeded) :
    t.status = .running ∧ t'.attempt = t.attempt ∧ ∃ workerId write, t.workerId = some workerId ∧
      write.Reports t'.result ∧ st = .owned t.id workerId write := by
  have hedge := heff.edge_of_terminal (by rw [hsucceeded]; rfl)
  rw [hsucceeded] at hedge
  generalize some t.status = source at hedge
  cases hedge with
  | @complete _ workerId result _ _ =>
      cases heff with
      | written howned =>
          have hcancel : t.cancelRequestedAtMs.isSome ≠ true := by
            intro h
            simp [OwnedWrite.setList, setComplete, h] at hsucceeded
          refine ⟨howned.1, rfl, workerId, .complete result, howned.2.1, Or.inl ?_, rfl⟩
          simp [OwnedWrite.setList, setComplete, hcancel]
  | @succeed _ workerId _ message =>
      cases heff with
      | written howned => exact ⟨howned.1, rfl, workerId, _, howned.2.1, Or.inr ⟨message, rfl⟩, rfl⟩
  | recover hdest => rcases hdest with h | h | h <;> cases h
  | fail hdest => rcases hdest with h | h | h <;> cases h

/-- A task that fails was failed for good by the worker that has it, or lost its last lease. -/
theorem Effect.of_failed {nowMs : Int} {st : Statement J} {t t' : Task J}
    (heff : Effect nowMs st t t') (hfailed : t'.status = .failed) :
    t.status = .running ∧ t'.attempt = t.attempt ∧
      ((∃ workerId error retryable delayMs, t.workerId = some workerId ∧
          st = .owned t.id workerId (.fail error retryable delayMs) ∧ t'.error = some error ∧
          (retryable = false ∨ t'.maxAttempts ≤ t'.attempt)) ∨
        ∃ error, st = .recoverLeases error ∧ t'.error = some error ∧
          t'.maxAttempts ≤ t'.attempt) := by
  have hedge := heff.edge_of_terminal (by rw [hfailed]; rfl)
  rw [hfailed] at hedge
  generalize some t.status = source at hedge
  cases hedge with
  | @recover error _ _ =>
      cases heff with
      | @recovered _ t hexpired =>
          refine ⟨hexpired.1, rfl, Or.inr ⟨error, rfl, ?_⟩⟩
          simp only [setRecover] at hfailed ⊢
          split at hfailed
          · cases hfailed
          · next hcancel =>
            split at hfailed
            · cases hfailed
            · next hspent =>
              have hnone : t.cancelRequestedAtMs = none := by simpa using hcancel
              have hlast : t.maxAttempts ≤ t.attempt := by omega
              simp [hnone, hlast]
  | @fail _ workerId error retryable delayMs _ _ =>
      cases heff with
      | written howned =>
          refine ⟨howned.1, rfl,
            Or.inl ⟨workerId, error, retryable, delayMs, howned.2.1, rfl, rfl, ?_⟩⟩
          simp only [OwnedWrite.setList, setFail] at hfailed ⊢
          split at hfailed
          · cases hfailed
          · split at hfailed
            · cases hfailed
            · next hspent =>
              rw [Bool.and_eq_true, decide_eq_true_eq, not_and] at hspent
              by_cases hretryable : retryable = true
              · have hnot := hspent hretryable
                exact Or.inr (by omega)
              · exact Or.inl (by simpa using hretryable)
  | complete hdest => rcases hdest with h | h <;> cases h

/-- How a task that is over came to its end: the worker that had it reported the result, or
failed it for good; or its lease ran out on the last attempt; or it was canceled. -/
def SettledBy (d : Dialect) (start : ProtocolState J) (t : Task J) (before : List (Execution J))
    (e : Execution J) : Prop :=
  let had (workerId : String) := (protocol d).Since start
    (fun _ u e _ => HandsOver d workerId t u e) (RunsAs workerId t) before
  match t.status with
  | .succeeded => ∃ workerId write, had workerId ∧ write.Reports t.result ∧
      e.statement = .owned t.id workerId write
  | .failed => ∃ workerId error, had workerId ∧ t.error = some error ∧
      ((∃ retryable delayMs, e.statement = .owned t.id workerId (.fail error retryable delayMs) ∧
          (retryable = false ∨ t.maxAttempts ≤ t.attempt)) ∨
        (e.statement = .recoverLeases error ∧ t.maxAttempts ≤ t.attempt))
  | .canceled => (protocol d).Since start (fun _ u e _ => Cancels d t.id u e) (CancelAsked t.id)
      (before ++ [e])
  | .queued | .running => False

/-- A task that is over has been so, unchanged, since the step that ended it. -/
theorem settled_since {d : Dialect} {clockMs : Int} {s : ProtocolState J}
    {es : List (Execution J)}
    (hrun : (protocol d).Steps anyStep (ProtocolState.fresh clockMs) es s) {id : String}
    {t : Task J} (ht : s.db.get id = some t) (hterminal : t.status.isTerminal = true) :
    (protocol d).Since (ProtocolState.fresh clockMs)
      (fun before _ e _ => SettledBy d (ProtocolState.fresh clockMs) t before e)
      (Stored id fun r => r = t) es := by
  refine hrun.since (not_stored_fresh _ _ _) ⟨t, ht, rfl⟩ fun before u e v hbefore hstep hu hv => ?_
  rcases cause_of_stored hstep hu hv with
    ⟨t', ht', rfl, -, ⟨r, hr, -, heff⟩ | ⟨-, n, -, rfl⟩⟩
  · have hid : r.id = t'.id := Task.id_of_submission heff.submission_eq.symm
    have hruns : ∀ workerId, r.status = .running → t'.attempt = r.attempt →
        r.workerId = some workerId → RunsAs workerId t' u := by
      intro workerId hrunning hattempt hworker
      have hr' : u.db.get t'.id = some r := by
        rw [← hid, Database.id_of_get hr]
        exact hr
      exact ⟨r, hr', hrunning, hworker, hattempt.symm, heff.submission_eq.symm⟩
    unfold SettledBy
    cases hstatus : t'.status with
    | succeeded =>
        rcases heff.of_succeeded hstatus with
          ⟨hrunning, hattempt, workerId, write, hworker, hreports, hst⟩
        exact ⟨workerId, write, handedOver_since hbefore (hruns _ hrunning hattempt hworker),
          hreports, hid ▸ hst⟩
    | failed =>
        rcases heff.of_failed hstatus with ⟨hrunning, hattempt,
          ⟨workerId, error, retryable, delayMs, hworker, hst, herror, hlast⟩ |
            ⟨error, hst, herror, hlast⟩⟩
        · exact ⟨workerId, error, handedOver_since hbefore (hruns _ hrunning hattempt hworker),
            herror, Or.inl ⟨retryable, delayMs, hid ▸ hst, hlast⟩⟩
        · have hsound := reachable_sound ⟨before, hbefore⟩ id r hr
          rcases Option.isSome_iff_exists.mp (hsound.running hrunning).1 with ⟨workerId, hworker⟩
          exact ⟨workerId, error, handedOver_since hbefore (hruns _ hrunning hattempt hworker),
            herror, Or.inr ⟨hst, hlast⟩⟩
    | canceled =>
        have hlonger := hbefore.append (Machine.Steps.single (m := protocol d) trivial hstep)
        refine canceled_since hlonger ⟨t', ?_, Or.inl hstatus⟩
        rw [Database.id_of_get ht']
        exact ht'
    | queued | running =>
        rw [hstatus] at hterminal
        cases hterminal
  · cases hterminal

/-- Every row of every run is accounted for: what was submitted, who has it if it runs, what
ended it if it is over, and who asked for its cancellation if somebody did. -/
theorem row_explained {d : Dialect} {clockMs : Int} {s : ProtocolState J}
    {es : List (Execution J)}
    (hrun : (protocol d).Steps anyStep (ProtocolState.fresh clockMs) es s) {id : String}
    {t : Task J} (ht : s.db.get id = some t) :
    (protocol d).Since (ProtocolState.fresh clockMs) (fun _ u e _ => Submits t u e)
        (Stored id fun r => r.submission = t.submission) es ∧
      (t.status = .running → ∃ workerId, t.workerId = some workerId ∧
        (protocol d).Since (ProtocolState.fresh clockMs)
          (fun _ u e _ => HandsOver d workerId t u e) (RunsAs workerId t) es) ∧
      (t.status.isTerminal = true → (protocol d).Since (ProtocolState.fresh clockMs)
        (fun before _ e _ => SettledBy d (ProtocolState.fresh clockMs) t before e)
        (Stored id fun r => r = t) es) ∧
      (t.cancelRequestedAtMs.isSome = true → (protocol d).Since (ProtocolState.fresh clockMs)
        (fun _ u e _ => Cancels d id u e) (CancelAsked id) es) := by
  refine ⟨submitted_since hrun ht, fun hrunning => ?_, settled_since hrun ht,
    fun hasked => canceled_since hrun ⟨t, ht, Or.inr hasked⟩⟩
  have hsound := reachable_sound ⟨es, hrun⟩ id t ht
  rcases Option.isSome_iff_exists.mp (hsound.running hrunning).1 with ⟨workerId, hworker⟩
  have hget : s.db.get t.id = some t := by
    rw [Database.id_of_get ht]
    exact ht
  exact ⟨workerId, hworker, handedOver_since hrun ⟨t, hget, hrunning, hworker, rfl, rfl⟩⟩

/-- A task is delivered twice, since its first worker crashes, and succeeds. -/
def redeliveredRun : List (Execution Nat) :=
  [.alone 0 (.insertTask (.plain "t" "work" 3 0)),
    .alone 1 (.claim (.claimOneQueue "default" none) "v" 10 1),
    .alone 11 (.recoverLeases 8),
    .alone 12 (.claim (.claimOneQueue "default" none) "w" 10 1),
    .alone 13 (.owned "t" "w" (.complete (some 5)))]

/-- It succeeded by a step that its outcome names, and has not changed since. -/
theorem row_explained_redeliveredRun :
    ∃ t, (finalState .sqlite redeliveredRun).db.get "t" = some t ∧ t.result = some 5 ∧
      (protocol .sqlite).Since (ProtocolState.fresh 0)
        (fun before _ e _ => SettledBy .sqlite (ProtocolState.fresh 0) t before e)
        (Stored "t" fun r => r = t) redeliveredRun := by
  have hrun : (protocol .sqlite).Steps anyStep (ProtocolState.fresh 0) redeliveredRun
      (finalState .sqlite redeliveredRun) := Machine.steps_of_run rfl
  exact ⟨_, rfl, rfl, (row_explained hrun rfl).2.2.1 rfl⟩

end CairnQ
