import CairnQ.Protocol.Runs

/-!
# Invariants of single rows

What holds of a task row in every reachable database: which columns are null in
which status, and how far {lit}`attempt` may exceed {lit}`maxAttempts`.

Main results:

- Theorem `reachable_wellFormed`: every row is well formed.
- Theorem `attempt_bound`: {lit}`attempt` is bounded by {lit}`maxAttempts` plus the accepted
  retries that kept the attempt, and only a delivery increases it.
-/

namespace CairnQ

open Relational Transition

variable {J : Type}

/-! ## Well-formed rows -/

/-- Which columns are null in which status. -/
structure Task.WellFormed (t : Task J) : Prop where
  lease : t.leaseUntilMs.isSome ↔ t.status = .running
  running : t.status = .running →
    t.workerId.isSome ∧ 1 ≤ t.attempt ∧ t.completedAtMs = none
  queued : t.status = .queued →
    t.workerId = none ∧ t.leaseUntilMs = none ∧ t.completedAtMs = none ∧
      t.cancelRequestedAtMs = none ∧ t.progress = none ∧ t.message = none
  completed : t.completedAtMs.isSome ↔ t.status.isTerminal = true
  result : t.result.isSome → t.status = .succeeded

/-- The inductive form: the attempt counter never goes below zero. -/
structure Task.Sound (t : Task J) : Prop extends t.WellFormed where
  attempt_nonneg : 0 ≤ t.attempt

theorem NewTask.row_sound (n : NewTask J) (runAtMs nowMs : Int) : (n.row runAtMs nowMs).Sound := by
  constructor
  · constructor <;> simp [NewTask.row, TaskStatus.isTerminal]
  · exact le_refl 0

theorem setClaim_sound {t : Task J} (h : t.Sound) (hqueued : t.status = .queued)
    (workerId : String) (leaseUntilMs nowMs : Int) :
    ((setClaim workerId leaseUntilMs nowMs).set t).Sound := by
  obtain ⟨-, -, hcompleted, -⟩ := h.queued hqueued
  have hattempt := h.attempt_nonneg
  have hresult : t.result = none := by
    simpa [hqueued] using h.result
  constructor
  · constructor <;> simp [setClaim, TaskStatus.isTerminal, hcompleted, hresult]
    omega
  · simp only [setClaim]
    omega

theorem setRecover_sound {t : Task J} (h : t.Sound) (hrunning : t.status = .running) (error : J)
    (nowMs : Int) : ((setRecover error nowMs).set t).Sound := by
  obtain ⟨-, -, hcompleted⟩ := h.running hrunning
  have hattempt := h.attempt_nonneg
  have hresult : t.result = none := by
    simpa [hrunning] using h.result
  -- a requested cancel, a requeue, or out of attempts
  rcases hcancel : t.cancelRequestedAtMs with _ | at_
  · by_cases hleft : t.attempt < t.maxAttempts
    · constructor
      · constructor <;>
          simp [setRecover, recoverRequeues, TaskStatus.isTerminal, hcancel, hleft, hcompleted,
            hresult]
      · exact hattempt
    · constructor
      · constructor <;>
          simp [setRecover, recoverRequeues, TaskStatus.isTerminal, hcancel, hleft, hresult]
      · exact hattempt
  · constructor
    · constructor <;>
        simp [setRecover, recoverRequeues, TaskStatus.isTerminal, hcancel, hresult]
    · exact hattempt

theorem setFail_sound {t : Task J} (h : t.Sound) (hrunning : t.status = .running) (error : J)
    (retryable : Bool) (delayMs nowMs : Int) :
    ((setFail error retryable delayMs nowMs).set t).Sound := by
  have hattempt := h.attempt_nonneg
  have hresult : t.result = none := by
    simpa [hrunning] using h.result
  -- a requested cancel, a requeue, or a permanent failure
  rcases hcancel : t.cancelRequestedAtMs with _ | at_
  · by_cases hagain : retryable = true ∧ t.attempt < t.maxAttempts
    · constructor
      · constructor <;>
          simp [setFail, failRequeues, TaskStatus.isTerminal, hcancel, hagain, hresult]
      · exact hattempt
    · constructor
      · constructor <;>
          simp [setFail, failRequeues, TaskStatus.isTerminal, hcancel, hagain, hresult]
      · exact hattempt
  · constructor
    · constructor <;>
        simp [setFail, failRequeues, TaskStatus.isTerminal, hcancel, hresult]
    · exact hattempt

theorem setHeartbeat_sound {t : Task J} (h : t.Sound) (hrunning : t.status = .running)
    (leaseUntilMs nowMs : Int) : ((setHeartbeat leaseUntilMs nowMs).set t).Sound where
  lease := by simp [setHeartbeat, hrunning]
  running := h.running
  queued := by simp [setHeartbeat, hrunning]
  completed := h.completed
  result := h.result
  attempt_nonneg := h.attempt_nonneg

theorem OwnedWrite.setList_sound {t : Task J} (h : t.Sound) (hrunning : t.status = .running)
    (write : OwnedWrite J) (nowMs : Int) : ((write.setList nowMs).set t).Sound := by
  have hattempt := h.attempt_nonneg
  have hresult : t.result = none := by
    simpa [hrunning] using h.result
  cases write with
  | heartbeat leaseMs => exact setHeartbeat_sound h hrunning _ _
  | progress value message =>
      exact
        { lease := h.lease
          running := h.running
          queued := by simp [OwnedWrite.setList, setProgress, hrunning]
          completed := h.completed
          result := h.result
          attempt_nonneg := hattempt }
  | complete result =>
      rcases hcancel : t.cancelRequestedAtMs with _ | at_
      · constructor
        · constructor <;> simp [OwnedWrite.setList, setComplete, TaskStatus.isTerminal, hcancel]
        · exact hattempt
      · constructor
        · constructor <;>
            simp [OwnedWrite.setList, setComplete, TaskStatus.isTerminal, hcancel, hresult]
        · exact hattempt
  | succeed result message =>
      constructor
      · constructor <;> simp [OwnedWrite.setList, setSucceed, TaskStatus.isTerminal]
      · exact hattempt
  | fail error retryable delayMs => exact setFail_sound h hrunning error retryable delayMs nowMs

theorem setCancel_sound {t : Task J} (h : t.Sound)
    (hlive : t.status = .queued ∨ t.status = .running) (nowMs : Int) :
    ((setCancel nowMs).set t).Sound := by
  have hattempt := h.attempt_nonneg
  rcases hlive with hqueued | hrunning
  · obtain ⟨-, hlease, -⟩ := h.queued hqueued
    have hresult : t.result = none := by
      simpa [hqueued] using h.result
    constructor
    · constructor <;> simp [setCancel, TaskStatus.isTerminal, hqueued, hlease, hresult]
    · exact hattempt
  · obtain ⟨hworker, hdelivered, hcompleted⟩ := h.running hrunning
    have hlease := h.lease.mpr hrunning
    have hresult : t.result = none := by
      simpa [hrunning] using h.result
    constructor
    · constructor <;>
        simp [setCancel, TaskStatus.isTerminal, hrunning, hlease, hworker, hdelivered, hcompleted,
          hresult]
    · exact hattempt

theorem setRetry_sound {t : Task J} (h : t.Sound)
    (hstopped : t.status = .failed ∨ t.status = .canceled) (resetAttempt : Bool) (nowMs : Int) :
    ((setRetry resetAttempt nowMs).set t).Sound := by
  have hattempt := h.attempt_nonneg
  have hresult : t.result = none := by
    rcases hstopped with hstatus | hstatus <;> simpa [hstatus] using h.result
  constructor
  · constructor <;> simp [setRetry, TaskStatus.isTerminal, hresult]
  · cases resetAttempt
    · exact hattempt
    · exact le_refl 0

/-- Every effect keeps rows sound. -/
theorem Effect.sound {nowMs : Int} {st : Statement J} {t t' : Task J} (h : t.Sound)
    (heff : Effect nowMs st t t') : t'.Sound := by
  cases heff with
  | claimed hclaimable => exact setClaim_sound h hclaimable.1 _ _ _
  | recovered hexpired => exact setRecover_sound h hexpired.1 _ _
  | written howned => exact OwnedWrite.setList_sound h howned.1 _ _
  | renewed _ howned => exact setHeartbeat_sound h howned.1 _ _
  | canceled hlive => exact setCancel_sound h hlive _
  | retried hstopped => exact setRetry_sound h hstopped _ _

theorem reachable_sound {d : Dialect} {clockMs : Int} {s : ProtocolState J}
    (hreach : (protocol d).Reachable anyStep (ProtocolState.fresh clockMs) s) :
    ∀ id t, s.db.get id = some t → t.Sound := by
  refine rows_invariant ?_ ?_ hreach
  · rintro nowMs st t ⟨n, -, rfl⟩
    exact n.row_sound _ _
  · intro nowMs st t t' h heff
    exact heff.sound h

/-- Every row of every reachable database is well formed. -/
theorem reachable_wellFormed {d : Dialect} {clockMs : Int} {s : ProtocolState J}
    (hreach : (protocol d).Reachable anyStep (ProtocolState.fresh clockMs) s) :
    ∀ t ∈ s.db.tasks.rows, t.WellFormed := by
  intro t ht
  exact (reachable_sound hreach t.id t (KeyedTable.find?_of_mem ht)).toWellFormed

/-- One task that fails, is retried, crashes with its worker, and is delivered again. -/
def crashedRun : List (Execution Nat) :=
  [.alone 0 (.insertTask (.plain "t" "work" 1 0)),
    .alone 1 (.claim (.claim ["default"] none) "w" 10 1),
    .alone 2 (.owned "t" "w" (.fail 7 false 0)),
    .alone 3 (.retry "t" false),
    .alone 4 (.claim (.claim ["default"] none) "w" 10 1),
    .alone 14 (.recoverLeases 8),
    .alone 15 (.retry "t" true),
    .alone 16 (.claim (.claimOneQueue "default" none) "v" 10 1)]

theorem reachable_wellFormed_crashedRun :
    ((finalState .sqlite crashedRun).db.tasks.rows.map Task.status = [.running]) ∧
      ∀ t ∈ (finalState .sqlite crashedRun).db.tasks.rows, t.WellFormed :=
  ⟨by decide, reachable_wellFormed (reachable_finalState .sqlite crashedRun)⟩

/-! ## The attempt bound -/

/-- What happened to one task since it was inserted: how often it was delivered, and how
many accepted retries kept its attempt since the last one that reset it. -/
structure Ledger where
  deliveries : Nat
  retries : Nat
deriving DecidableEq, Repr

/-- A task nothing happened to yet. -/
def Ledger.fresh : Ledger where
  deliveries := 0
  retries := 0

/-- Book one statement and its reply. -/
def Ledger.record (id : String) (st : Statement J) (reply : Reply J) (l : Ledger) : Ledger :=
  if reply.names id then
    match st with
    | .insertTask _ => Ledger.fresh
    | .claim _ _ _ _ => { l with deliveries := l.deliveries + 1 }
    | .retry _ true => { l with retries := 0 }
    | .retry _ false => { l with retries := l.retries + 1 }
    | _ => l
  else l

theorem Ledger.record_of_not_names {id : String} {st : Statement J} {reply : Reply J}
    {l : Ledger} (h : reply.names id = false) : l.record id st reply = l := by
  simp [Ledger.record, h]

/-- The protocol next to the ledger of one task. -/
def ledgered (d : Dialect) (id : String) : Machine (ProtocolState J × Ledger) (Execution J) :=
  fun s e => (protocol d s.1 e).map fun s' =>
    (s', s.2.record id e.statement (e.reply d s.1.db))

theorem ledgered_eq_some_iff {d : Dialect} {id : String} {s s' : ProtocolState J × Ledger}
    {e : Execution J} : ledgered d id s e = some s' ↔
      protocol d s.1 e = some s'.1 ∧ s'.2 = s.2.record id e.statement (e.reply d s.1.db) := by
  obtain ⟨s', l'⟩ := s'
  simp [ledgered, Prod.ext_iff, eq_comm]

/-- A queued task has an attempt left, counting the retries that kept its attempt. -/
def AttemptBound (l : Ledger) (t : Task J) : Prop :=
  1 ≤ t.maxAttempts →
    t.attempt ≤ t.maxAttempts + l.retries ∧
      (t.status = .queued → t.attempt < t.maxAttempts + l.retries)

/-- How a statement that names a row changes its attempt. -/
def AttemptChange (st : Statement J) (t t' : Task J) : Prop :=
  match st with
  | .claim _ _ _ _ => t'.attempt = t.attempt + 1
  | .retry _ true => t'.attempt = 0
  | _ => t'.attempt = t.attempt

theorem Effect.attemptChange {nowMs : Int} {st : Statement J} {t t' : Task J}
    (heff : Effect nowMs st t t') : AttemptChange st t t' := by
  cases heff with
  | @written workerId write t howned => cases write <;> rfl
  | @retried t resetAttempt hstopped => cases resetAttempt <;> rfl
  | claimed _ | recovered _ | renewed _ _ | canceled _ => rfl

/-- Only a retry, or a fail or a recovery that finds an attempt left, queues a task. -/
theorem Effect.of_queued {nowMs : Int} {st : Statement J} {t t' : Task J}
    (heff : Effect nowMs st t t') (hqueued : t'.status = .queued) :
    ((t.status = .failed ∨ t.status = .canceled) ∧
        ∃ resetAttempt, st = .retry t.id resetAttempt) ∨
      (t.status = .running ∧ t.attempt < t.maxAttempts ∧ t.cancelRequestedAtMs = none ∧
        ((∃ error, st = .recoverLeases error) ∨
          ∃ workerId error delayMs, st = .owned t.id workerId (.fail error true delayMs))) := by
  cases heff with
  | claimed _ => cases hqueued
  | @recovered error t hexpired =>
      refine Or.inr ⟨hexpired.1, ?_⟩
      simp only [setRecover] at hqueued
      split at hqueued
      · cases hqueued
      · rename_i hcancel
        split at hqueued
        · rename_i hleft
          exact ⟨hleft, by simpa using hcancel, Or.inl ⟨error, rfl⟩⟩
        · cases hqueued
  | @written workerId write t howned =>
      refine Or.inr ⟨howned.1, ?_⟩
      cases write with
      | heartbeat leaseMs => exact absurd (howned.1.symm.trans hqueued) (by simp)
      | progress value message => exact absurd (howned.1.symm.trans hqueued) (by simp)
      | complete result =>
          simp only [OwnedWrite.setList, setComplete] at hqueued
          split at hqueued <;> cases hqueued
      | succeed result message => cases hqueued
      | fail error retryable delayMs =>
          simp only [OwnedWrite.setList, setFail] at hqueued
          split at hqueued
          · cases hqueued
          · rename_i hcancel
            split at hqueued
            · rename_i hleft
              rw [Bool.and_eq_true, decide_eq_true_eq] at hleft
              obtain ⟨rfl, hleft⟩ := hleft
              exact ⟨hleft, by simpa using hcancel, Or.inr ⟨workerId, error, delayMs, rfl⟩⟩
            · cases hqueued
  | renewed _ howned => exact absurd (howned.1.symm.trans hqueued) (by simp)
  | @canceled t hlive =>
      rcases hlive with hstatus | hstatus <;> simp [setCancel, hstatus] at hqueued
  | @retried t resetAttempt hstopped => exact Or.inl ⟨hstopped, resetAttempt, rfl⟩

/-- One booked statement keeps the bound of a row it names. -/
theorem Effect.attemptBound {nowMs : Int} {id : String} {st : Statement J} {reply : Reply J}
    {l : Ledger} {t t' : Task J} (heff : Effect nowMs st t t') (hnames : reply.names id = true)
    (h : AttemptBound l t) : AttemptBound (l.record id st reply) t' := by
  intro hmax
  have hlimit := heff.maxAttempts_eq
  obtain ⟨hle, hlt⟩ := h (hlimit ▸ hmax)
  have hchange := heff.attemptChange
  have hqueue := heff.of_queued
  cases heff with
  | claimed hclaimable =>
      have hlt := hlt hclaimable.1
      simp only [AttemptChange] at hchange
      simp only [Ledger.record, hnames, if_true, hchange, hlimit]
      exact ⟨by omega, fun hstatus => by cases hstatus⟩
  | @retried t resetAttempt hstopped =>
      cases resetAttempt with
      | true =>
          simp only [AttemptChange] at hchange
          simp only [Ledger.record, hnames, if_true, hchange, hlimit]
          exact ⟨by omega, fun _ => by omega⟩
      | false =>
          simp only [AttemptChange] at hchange
          simp only [Ledger.record, hnames, if_true, hchange, hlimit]
          exact ⟨by push_cast; omega, fun _ => by push_cast; omega⟩
  | recovered _ | written _ | renewed _ _ | canceled _ =>
      simp only [AttemptChange] at hchange
      simp only [Ledger.record, hnames, if_true, hchange, hlimit]
      refine ⟨hle, fun hstatus => ?_⟩
      rcases hqueue hstatus with ⟨-, resetAttempt, hst⟩ | ⟨-, hleft, -⟩
      · cases hst
      · omega

/-- The bound holds next to every reachable ledger. -/
theorem reachable_attemptBound {d : Dialect} {id : String} {clockMs : Int}
    {s : ProtocolState J × Ledger}
    (hreach : (ledgered d id).Reachable anyStep (ProtocolState.fresh clockMs, Ledger.fresh) s) :
    ∀ t, s.1.db.get id = some t → AttemptBound s.2 t := by
  refine hreach.invariant (I := fun s => ∀ t, s.1.db.get id = some t → AttemptBound s.2 t) ?_ ?_
  · intro s e s' hbound _ hstep t' ht'
    rcases ledgered_eq_some_iff.mp hstep with ⟨hprotocol, hledger⟩
    rw [hledger]
    rcases get_of_step hprotocol ht' with ⟨h, hnames⟩ | ⟨t, ht, heff, hnames⟩ |
      ⟨-, ⟨n, hst, rfl⟩, hnames⟩
    · rw [Ledger.record_of_not_names hnames]
      exact hbound t' h
    · exact heff.attemptBound hnames (hbound t ht)
    · intro hmax
      simp only [hst, Ledger.record, hnames, if_true, Ledger.fresh, NewTask.row] at hmax ⊢
      exact ⟨by omega, fun _ => by omega⟩
  · intro t ht
    cases ht

/-- No statement of the run retries the task. -/
def NeverRetried (id : String) (_ : ProtocolState J × Ledger) (e : Execution J) : Prop :=
  ∀ resetAttempt, e.statement ≠ .retry id resetAttempt

/-- Without retries, the attempt counts the deliveries. -/
theorem reachable_deliveries {d : Dialect} {id : String} {clockMs : Int}
    {s : ProtocolState J × Ledger} (hreach : (ledgered d id).Reachable (NeverRetried id)
      (ProtocolState.fresh clockMs, Ledger.fresh) s) :
    ∀ t, s.1.db.get id = some t → t.attempt = s.2.deliveries ∧ s.2.retries = 0 := by
  refine hreach.invariant (I := fun s => ∀ t, s.1.db.get id = some t →
    t.attempt = s.2.deliveries ∧ s.2.retries = 0) ?_ ?_
  · intro s e s' hcount hnever hstep t' ht'
    rcases ledgered_eq_some_iff.mp hstep with ⟨hprotocol, hledger⟩
    rw [hledger]
    rcases get_of_step hprotocol ht' with ⟨h, hnames⟩ | ⟨t, ht, heff, hnames⟩ |
      ⟨-, ⟨n, hst, rfl⟩, hnames⟩
    · rw [Ledger.record_of_not_names hnames]
      exact hcount t' h
    · obtain ⟨hattempt, hretries⟩ := hcount t ht
      have hid := Database.id_of_get ht
      have hchange := heff.attemptChange
      have hnotRetry : ∀ resetAttempt, e.statement ≠ .retry id resetAttempt := hnever
      generalize e.statement = st at heff hnotRetry hchange
      cases heff with
      | claimed _ =>
          simp only [AttemptChange] at hchange
          simp only [Ledger.record, hnames, if_true, hchange, hattempt, hretries]
          exact ⟨by push_cast; rfl, trivial⟩
      | @retried t resetAttempt _ => exact absurd (hid ▸ rfl) (hnotRetry resetAttempt)
      | recovered _ | written _ | renewed _ _ | canceled _ =>
          simp only [AttemptChange] at hchange
          simp only [Ledger.record, hnames, if_true, hchange]
          exact ⟨hattempt, hretries⟩
    · simp only [hst, Ledger.record, hnames, if_true, Ledger.fresh, NewTask.row]
      exact ⟨rfl, trivial⟩
  · intro t ht
    cases ht

/-- The attempt bound.  In every run the attempt stays within the limit plus the accepted
retries that kept it; it changes only by a delivery, which adds one, or by a resetting
retry; a fail or a recovery requeues a task only below the limit; and without retries a
task is delivered at most as often as its limit says. -/
theorem attempt_bound {d : Dialect} {id : String} {clockMs : Int}
    {s : ProtocolState J × Ledger}
    (hreach : (ledgered d id).Reachable anyStep (ProtocolState.fresh clockMs, Ledger.fresh) s)
    {t : Task J} (ht : s.1.db.get id = some t) (hmax : 1 ≤ t.maxAttempts) :
    t.attempt ≤ t.maxAttempts + s.2.retries ∧
      (∀ e s' t', ledgered d id s e = some s' → s'.1.db.get id = some t' →
        (t'.attempt = t.attempt ∧ s'.2.deliveries = s.2.deliveries ∨
          t'.attempt = t.attempt + 1 ∧ s'.2.deliveries = s.2.deliveries + 1 ∧
            (∃ filter workerId leaseMs limit,
              e.statement = .claim filter workerId leaseMs limit) ∨
          t'.attempt = 0 ∧ s'.2.deliveries = s.2.deliveries ∧ e.statement = .retry id true) ∧
        (t.status = .running → t'.status = .queued → t.attempt < t.maxAttempts)) ∧
      ((ledgered d id).Reachable (NeverRetried id)
        (ProtocolState.fresh clockMs, Ledger.fresh) s → (s.2.deliveries : Int) ≤ t.maxAttempts) := by
  have hbound := reachable_attemptBound hreach t ht hmax
  refine ⟨hbound.1, ?_, ?_⟩
  · intro e s' t' hstep ht'
    rcases ledgered_eq_some_iff.mp hstep with ⟨hprotocol, hledger⟩
    have hid := Database.id_of_get ht
    rw [hledger]
    rcases get_of_step_of_get hprotocol ht ht' with ⟨rfl, hnames⟩ | ⟨heff, hnames⟩
    · rw [Ledger.record_of_not_names hnames]
      exact ⟨Or.inl ⟨rfl, rfl⟩, fun hrunning hqueued => by simp [hrunning] at hqueued⟩
    · refine ⟨?_, fun hrunning hqueued => ?_⟩
      · have hchange := heff.attemptChange
        generalize e.statement = st at heff hchange
        cases heff with
        | @claimed filter workerId leaseMs limit t hclaimable =>
            refine Or.inr (Or.inl ⟨hchange, ?_, filter, workerId, leaseMs, limit, rfl⟩)
            simp [Ledger.record, hnames]
        | @retried t resetAttempt hstopped =>
            cases resetAttempt with
            | true =>
                refine Or.inr (Or.inr ⟨hchange, ?_, by rw [hid]⟩)
                simp [Ledger.record, hnames]
            | false => exact Or.inl ⟨hchange, by simp [Ledger.record, hnames]⟩
        | recovered _ | written _ | renewed _ _ | canceled _ =>
            exact Or.inl ⟨hchange, by simp [Ledger.record, hnames]⟩
      · rcases heff.of_queued hqueued with ⟨hstopped, -⟩ | ⟨-, hleft, -⟩
        · simp [hrunning] at hstopped
        · exact hleft
  · intro hnever
    obtain ⟨hattempt, hretries⟩ := reachable_deliveries hnever t ht
    rw [hretries] at hbound
    have := hbound.1
    omega

/-- The retry that kept the attempt is what admits the second delivery. -/
theorem attempt_bound_crashedRun :
    let s := (ledgered .postgres "t").drive (ProtocolState.fresh 0, Ledger.fresh)
      (crashedRun.take 5)
    ∃ t, s.1.db.get "t" = some t ∧ t.attempt = 2 ∧ t.maxAttempts = 1 ∧ s.2.retries = 1 ∧
      t.attempt ≤ t.maxAttempts + s.2.retries :=
  ⟨_, rfl, rfl, rfl, rfl,
    (attempt_bound (Machine.reachable_drive _ _ _ fun _ _ _ => trivial) rfl (by decide)).1⟩

end CairnQ
