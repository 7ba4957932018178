import CairnQ.Protocol.RowInvariants

/-!
# The life cycle of a task

The state machine of the protocol, as a table of edges labelled by the statement
that takes them, and the rows each statement may touch at all.

Main results:

- Theorem `legal_transitions`: every step moves every row along an edge, leaves
  terminal rows alone, and leaves untargeted rows alone.
- Theorem `cancel_wins`: a running task that was asked to cancel can only end
  canceled.
-/

namespace CairnQ

open Relational Transition

variable {J : Type}

/-! ## Edges -/

/-- The state table: which statement may take a row from which status to which, where
`none` is no row at all. -/
inductive Edge : Statement J → Option TaskStatus → Option TaskStatus → Prop
  | insert {n : NewTask J} : Edge (.insertTask n) none (some .queued)
  | claim {filter : ClaimFilter} {workerId : String} {leaseMs limit : Int} :
      Edge (.claim filter workerId leaseMs limit) (some .queued) (some .running)
  | cancel {id : String} : Edge (.cancel id) (some .queued) (some .canceled)
  | recover {error : J} {dest : TaskStatus} (hdest : dest = .queued ∨ dest = .failed ∨ dest = .canceled) :
      Edge (.recoverLeases error) (some .running) (some dest)
  | fail {id workerId : String} {error : J} {retryable : Bool} {delayMs : Int} {dest : TaskStatus}
      (hdest : dest = .queued ∨ dest = .failed ∨ dest = .canceled) :
      Edge (.owned id workerId (.fail error retryable delayMs)) (some .running) (some dest)
  | complete {id workerId : String} {result : Option J} {dest : TaskStatus}
      (hdest : dest = .succeeded ∨ dest = .canceled) :
      Edge (.owned id workerId (.complete result)) (some .running) (some dest)
  | succeed {id workerId : String} {result : Option J} {message : Option String} :
      Edge (.owned id workerId (.succeed result message)) (some .running) (some .succeeded)
  | retry {id : String} {resetAttempt : Bool} {src : TaskStatus}
      (hsrc : src = .failed ∨ src = .canceled) :
      Edge (.retry id resetAttempt) (some src) (some .queued)
  | purge {olderThanMs limit : Int} {queue name : Option String} {status : Option TaskStatus}
      {src : TaskStatus} (hsrc : src.isTerminal = true) :
      Edge (.purge olderThanMs queue status name limit) (some src) none

/-- The status a recovery leaves. -/
theorem setRecover_status (error : J) (nowMs : Int) (t : Task J) :
    ((setRecover error nowMs).set t).status = .queued ∨
      ((setRecover error nowMs).set t).status = .failed ∨
        ((setRecover error nowMs).set t).status = .canceled := by
  simp only [setRecover]
  split
  · exact Or.inr (Or.inr rfl)
  · split
    · exact Or.inl rfl
    · exact Or.inr (Or.inl rfl)

/-- The status a failure leaves. -/
theorem setFail_status (error : J) (retryable : Bool) (delayMs nowMs : Int) (t : Task J) :
    ((setFail error retryable delayMs nowMs).set t).status = .queued ∨
      ((setFail error retryable delayMs nowMs).set t).status = .failed ∨
        ((setFail error retryable delayMs nowMs).set t).status = .canceled := by
  simp only [setFail]
  split
  · exact Or.inr (Or.inr rfl)
  · split
    · exact Or.inl rfl
    · exact Or.inr (Or.inl rfl)

/-- An effect keeps the status or takes an edge. -/
theorem Effect.edge {nowMs : Int} {st : Statement J} {t t' : Task J} (heff : Effect nowMs st t t') :
    t'.status = t.status ∨ Edge st (some t.status) (some t'.status) := by
  cases heff with
  | claimed hclaimable => exact Or.inr (hclaimable.1 ▸ Edge.claim)
  | recovered hexpired => exact Or.inr (hexpired.1 ▸ Edge.recover (setRecover_status ..))
  | @written workerId write t howned =>
      rw [howned.1]
      cases write with
      | heartbeat leaseMs => exact Or.inl howned.1
      | progress value message => exact Or.inl howned.1
      | complete result =>
          refine Or.inr (Edge.complete ?_)
          simp only [OwnedWrite.setList, setComplete]
          split
          · exact Or.inr rfl
          · exact Or.inl rfl
      | succeed result message => exact Or.inr Edge.succeed
      | fail error retryable delayMs => exact Or.inr (Edge.fail (setFail_status ..))
  | renewed _ _ => exact Or.inl rfl
  | @canceled t hlive =>
      rcases hlive with hstatus | hstatus
      · have hdest : ((setCancel nowMs).set t).status = .canceled := by simp [setCancel, hstatus]
        exact Or.inr (by rw [hdest, hstatus]; exact Edge.cancel)
      · exact Or.inl (by simp [setCancel, hstatus])
  | retried hstopped => exact Or.inr (Edge.retry hstopped)

/-- The row of a finished attempt changes only by a retry, and never once it succeeded. -/
theorem Effect.of_terminal {nowMs : Int} {st : Statement J} {t t' : Task J}
    (heff : Effect nowMs st t t') (hterminal : t.status.isTerminal = true) :
    t.status ≠ .succeeded ∧ ∃ resetAttempt, st = .retry t.id resetAttempt := by
  cases heff with
  | claimed hclaimable => simp [hclaimable.1, TaskStatus.isTerminal] at hterminal
  | recovered hexpired => simp [hexpired.1, TaskStatus.isTerminal] at hterminal
  | written howned => simp [howned.1, TaskStatus.isTerminal] at hterminal
  | renewed _ howned => simp [howned.1, TaskStatus.isTerminal] at hterminal
  | canceled hlive =>
      rcases hlive with hstatus | hstatus <;> simp [hstatus, TaskStatus.isTerminal] at hterminal
  | @retried t resetAttempt hstopped =>
      exact ⟨by rcases hstopped with hstatus | hstatus <;> simp [hstatus], resetAttempt, rfl⟩

/-! ## Targets -/

/-- A finished task that a purge with these filters may delete. -/
def Purgeable (beforeMs : Int) (queue : Option String) (status : Option TaskStatus)
    (name : Option String) (t : Task J) : Prop :=
  t.status.isTerminal = true ∧ (∃ c, t.completedAtMs = some c ∧ c < beforeMs) ∧
    (∀ q, queue = some q → t.queue = q) ∧ (∀ st, status = some st → t.status = st) ∧
      ∀ n, name = some n → t.name = n

theorem purgeable_iff {beforeMs : Int} {queue : Option String} {status : Option TaskStatus}
    {name : Option String} {t : Task J} :
    purgeable beforeMs queue status name t = true ↔ Purgeable beforeMs queue status name t := by
  simp only [purgeable, Purgeable, Bool.and_eq_true, Option.all_eq_true, Option.any_eq_true,
    decide_eq_true_eq]
  tauto

/-- The stored rows a statement is about. -/
def Statement.Targets (nowMs : Int) (st : Statement J) (t : Task J) : Prop :=
  match st with
  | .claim filter _ _ _ => Claimable filter nowMs t
  | .recoverLeases _ => Expired nowMs t
  | .owned id workerId _ => t.id = id ∧ Owned workerId nowMs t
  | .heartbeatBatch ids workerId _ => t.id ∈ ids ∧ Owned workerId nowMs t
  | .cancel id => t.id = id ∧ (t.status = .queued ∨ t.status = .running)
  | .retry id _ => t.id = id ∧ (t.status = .failed ∨ t.status = .canceled)
  | .purge olderThanMs queue status name _ => Purgeable (nowMs - olderThanMs) queue status name t
  | .insertTask _ | .upsertKey _ _ => False

theorem Effect.targets {nowMs : Int} {st : Statement J} {t t' : Task J}
    (heff : Effect nowMs st t t') : st.Targets nowMs t := by
  cases heff with
  | claimed hclaimable => exact hclaimable
  | recovered hexpired => exact hexpired
  | written howned => exact ⟨rfl, howned⟩
  | renewed hid howned => exact ⟨hid, howned⟩
  | canceled hlive => exact ⟨rfl, hlive⟩
  | retried hstopped => exact ⟨rfl, hstopped⟩

/-- A purge deletes at most as many rows as its limit says. -/
theorem length_deleteSelected_le (eligible : Task J → Bool) {limit : Int} (hlimit : 0 ≤ limit)
    (db : Database J) : ((deleteSelected eligible limit db).2.length : Int) ≤ limit := by
  have hselected := db.tasks.length_selectKeys_le eligible completedOrder hlimit
  have hrows := db.tasks.length_filter_mem_le (db.tasks.selectKeys eligible completedOrder limit)
  simp only [deleteSelected, List.length_map]
  omega

/-! ## Legal transitions -/

/-- A row that a step deletes is named in the reply of the purge that deleted it. -/
theorem mem_deleted_of_step {d : Dialect} {s s' : ProtocolState J} {e : Execution J}
    (hstep : protocol d s e = some s') {id : String} {t : Task J}
    (ht : s.db.get id = some t) (hgone : s'.db.get id = none) :
    id ∈ (e.reply d s.db).deleted := by
  rcases get_none_of_step hstep ht hgone with ⟨olderThanMs, queue, status, name, limit, hst, -⟩
  rcases protocol_eq_some_iff.mp hstep with ⟨-, rfl⟩
  rw [exec_eq, hst] at hgone
  rw [Execution.reply, exec_eq, hst]
  simp only [Postgres.exec, Postgres.purge, get_deleteSelected, ht, Option.filter_eq_none_iff,
    Option.some.injEq, forall_eq', Bool.not_eq_true', decide_eq_false_iff_not, not_not] at hgone
  rw [Database.id_of_get ht] at hgone
  exact hgone

/-- One executed statement moves every row along an edge, or keeps its status. -/
theorem edge_of_step {d : Dialect} {s s' : ProtocolState J} {e : Execution J}
    (hstep : protocol d s e = some s') (id : String) :
    (s'.db.get id).map Task.status = (s.db.get id).map Task.status ∨
      Edge e.statement ((s.db.get id).map Task.status) ((s'.db.get id).map Task.status) := by
  cases ht' : s'.db.get id with
  | none =>
      cases ht : s.db.get id with
      | none => exact Or.inl rfl
      | some t =>
          rcases get_none_of_step hstep ht ht' with ⟨_, _, _, _, _, hst, hp⟩
          rw [hst]
          exact Or.inr (Edge.purge (purgeable_iff.mp hp).1)
  | some t' =>
      rcases get_of_step hstep ht' with ⟨h, -⟩ | ⟨t, ht, heff, -⟩ | ⟨hnone, ⟨n, hst, rfl⟩, -⟩
      · exact Or.inl (by rw [h])
      · rw [ht]
        simpa using heff.edge
      · rw [hnone, hst]
        exact Or.inr Edge.insert

/-- A finished row stays as it is, is purged, or, unless it succeeded, is retried. -/
theorem terminal_of_step {d : Dialect} {s s' : ProtocolState J} {e : Execution J}
    (hstep : protocol d s e = some s') {id : String} {t : Task J} (ht : s.db.get id = some t)
    (hterminal : t.status.isTerminal = true) :
    s'.db.get id = some t ∨
      (s'.db.get id = none ∧ ∃ olderThanMs queue status name limit,
        e.statement = .purge olderThanMs queue status name limit) ∨
      (t.status ≠ .succeeded ∧ ∃ resetAttempt, e.statement = .retry id resetAttempt) := by
  cases ht' : s'.db.get id with
  | none =>
      rcases get_none_of_step hstep ht ht' with ⟨olderThanMs, queue, status, name, limit, hst, -⟩
      exact Or.inr (Or.inl ⟨rfl, olderThanMs, queue, status, name, limit, hst⟩)
  | some t' =>
      rcases get_of_step_of_get hstep ht ht' with ⟨rfl, -⟩ | ⟨heff, -⟩
      · exact Or.inl rfl
      · rcases heff.of_terminal hterminal with ⟨hne, resetAttempt, hst⟩
        exact Or.inr (Or.inr ⟨hne, resetAttempt, by rw [hst, Database.id_of_get ht]⟩)

/-- A step changes no row it does not target. -/
theorem get_of_not_targets {d : Dialect} {s s' : ProtocolState J} {e : Execution J}
    (hstep : protocol d s e = some s') {id : String} {t : Task J} (ht : s.db.get id = some t)
    (htarget : ¬e.statement.Targets e.nowMs t) : s'.db.get id = some t := by
  cases ht' : s'.db.get id with
  | none =>
      rcases get_none_of_step hstep ht ht' with ⟨_, _, _, _, _, hst, hp⟩
      rw [hst] at htarget
      exact absurd (purgeable_iff.mp hp) htarget
  | some t' =>
      rcases get_of_step_of_get hstep ht ht' with ⟨rfl, -⟩ | ⟨heff, -⟩
      · rfl
      · exact absurd heff.targets htarget

/-- A succeeded row stays as it is for as long as it is in the table. -/
theorem succeeded_of_steps {d : Dialect} {s s' : ProtocolState J} {es : List (Execution J)}
    {id : String} {t t' : Task J} (ht : s.db.get id = some t) (hsucceeded : t.status = .succeeded)
    (hsteps : (protocol d).Steps (fun s _ => (s.db.get id).isSome) s es s')
    (ht' : s'.db.get id = some t') : t' = t := by
  have hkept : s'.db.get id = some t ∨ s'.db.get id = none := by
    refine hsteps.invariant (I := fun s => s.db.get id = some t ∨ s.db.get id = none) ?_
      (Or.inl ht)
    intro s e s' hs hpresent hstep
    rcases hs with hs | hs
    · rcases terminal_of_step hstep hs (by simp [hsucceeded, TaskStatus.isTerminal]) with
        h | ⟨h, -⟩ | ⟨hne, -⟩
      · exact Or.inl h
      · exact Or.inr h
      · exact absurd hsucceeded hne
    · rw [hs] at hpresent
      cases hpresent
  rcases hkept with h | h <;> rw [ht'] at h
  · exact Option.some.inj h
  · cases h

/-- Legal transitions and terminal stability.  In every database, whatever statement is
executed next: every row keeps its status or takes an edge of the state
table; a succeeded row keeps every column until a purge deletes it, now and in every
continuation; a failed or canceled row changes only by a retry or a purge; a purge
deletes only finished rows that meet every filter, at most as many as its limit
(`validate_purge_input` admits no negative one); and rows the statement does not target are
unchanged. -/
theorem legal_transitions {d : Dialect} {s s' : ProtocolState J} {e : Execution J}
    (hstep : protocol d s e = some s') :
    (∀ id, (s'.db.get id).map Task.status = (s.db.get id).map Task.status ∨
      Edge e.statement ((s.db.get id).map Task.status) ((s'.db.get id).map Task.status)) ∧
    (∀ id t, s.db.get id = some t → t.status = .succeeded →
      (s'.db.get id = some t ∨ s'.db.get id = none ∧ ∃ olderThanMs queue status name limit,
        e.statement = .purge olderThanMs queue status name limit) ∧
      ∀ es s'' t'', (protocol d).Steps (fun s _ => (s.db.get id).isSome) s es s'' →
        s''.db.get id = some t'' → t'' = t) ∧
    (∀ id t, s.db.get id = some t → (t.status = .failed ∨ t.status = .canceled) →
      s'.db.get id = some t ∨ (∃ resetAttempt, e.statement = .retry id resetAttempt) ∨
        ∃ olderThanMs queue status name limit,
          e.statement = .purge olderThanMs queue status name limit) ∧
    (∀ olderThanMs queue status name limit,
      e.statement = .purge olderThanMs queue status name limit →
        (∀ id t, s.db.get id = some t → s'.db.get id = none →
          Purgeable (e.nowMs - olderThanMs) queue status name t ∧
            id ∈ (e.reply d s.db).deleted) ∧
        (0 ≤ limit → ((e.reply d s.db).deleted.length : Int) ≤ limit)) ∧
    (∀ id t, s.db.get id = some t → ¬e.statement.Targets e.nowMs t →
      s'.db.get id = some t) := by
  refine ⟨edge_of_step hstep, ?_, ?_, ?_, fun id t ht htarget => get_of_not_targets hstep ht htarget⟩
  · intro id t ht hsucceeded
    have hterminal : t.status.isTerminal = true := by simp [hsucceeded, TaskStatus.isTerminal]
    refine ⟨?_, fun es s'' t'' hsteps ht'' => succeeded_of_steps ht hsucceeded hsteps ht''⟩
    rcases terminal_of_step hstep ht hterminal with h | h | ⟨hne, -⟩
    · exact Or.inl h
    · exact Or.inr h
    · exact absurd hsucceeded hne
  · intro id t ht hstopped
    have hterminal : t.status.isTerminal = true := by
      rcases hstopped with hstatus | hstatus <;> simp [hstatus, TaskStatus.isTerminal]
    rcases terminal_of_step hstep ht hterminal with h | ⟨-, h⟩ | ⟨-, h⟩
    · exact Or.inl h
    · exact Or.inr (Or.inr h)
    · exact Or.inr (Or.inl h)
  · intro olderThanMs queue status name limit hst
    constructor
    · intro id t ht hgone
      rcases get_none_of_step hstep ht hgone with ⟨_, _, _, _, _, hst', hp⟩
      rw [hst] at hst'
      cases hst'
      exact ⟨purgeable_iff.mp hp, mem_deleted_of_step hstep ht hgone⟩
    · intro hlimit
      rw [Execution.reply, exec_eq, hst]
      exact length_deleteSelected_le _ hlimit _

/-- The purge of a failed row takes the edge out of the table. -/
theorem legal_transitions_purged :
    Edge (J := Nat) (.purge 5 none (some .failed) none 1) (some .failed) none := by
  have hedge := (legal_transitions (d := .sqlite)
    (s := finalState .sqlite (crashedRun.take 3))
    (e := .alone 20 (.purge 5 none (some .failed) none 1)) rfl).1 "t"
  rcases hedge with hsame | hedge
  · exact absurd hsame (by decide)
  · exact hedge

/-! ## Cancel wins -/

/-- The two ways a task that was asked to cancel while it ran can go on. -/
def CancelHeld (t : Task J) : Prop :=
  t.status = .running ∧ t.cancelRequestedAtMs.isSome ∨ t.status = .canceled

/-- Neither the raw succeed statement nor a retry of the task. -/
def Statement.LeavesCancel (id : String) : Statement J → Prop
  | .owned id' _ (.succeed _ _) | .retry id' _ => id' ≠ id
  | _ => True

/-- The statements that end a running attempt, the raw succeed aside. -/
def Statement.EndsAttempt (id : String) : Statement J → Prop
  | .owned id' _ (.complete _) | .owned id' _ (.fail _ _ _) => id' = id
  | .recoverLeases _ => True
  | _ => False

/-- Every effect on a running task with a requested cancel leaves it running and asked to
cancel, or canceled; the latter exactly when the statement ends the attempt. -/
theorem Effect.of_cancelRequested {nowMs : Int} {st : Statement J} {t t' : Task J}
    (heff : Effect nowMs st t t') (hrunning : t.status = .running)
    (hcancel : t.cancelRequestedAtMs.isSome = true) (hleaves : st.LeavesCancel t.id) :
    (t'.status = .running ∧ t'.cancelRequestedAtMs.isSome ∧ ¬st.EndsAttempt t.id) ∨
      (t'.status = .canceled ∧ st.EndsAttempt t.id) := by
  cases heff with
  | claimed hclaimable => exact absurd (hrunning.symm.trans hclaimable.1) (by simp)
  | recovered _ => exact Or.inr ⟨by simp [setRecover, hcancel], trivial⟩
  | @written workerId write t _ =>
      cases write with
      | heartbeat leaseMs => exact Or.inl ⟨hrunning, hcancel, id⟩
      | progress value message => exact Or.inl ⟨hrunning, hcancel, id⟩
      | complete result =>
          exact Or.inr ⟨by simp [OwnedWrite.setList, setComplete, hcancel], rfl⟩
      | succeed result message => exact absurd rfl hleaves
      | fail error retryable delayMs =>
          exact Or.inr ⟨by simp [OwnedWrite.setList, setFail, hcancel], rfl⟩
  | renewed _ _ => exact Or.inl ⟨hrunning, hcancel, id⟩
  | canceled _ =>
      exact Or.inl ⟨by simp [setCancel, hrunning], by simp [setCancel, hrunning], id⟩
  | retried _ => exact absurd rfl hleaves

/-- A step that leaves the cancel alone keeps it held. -/
theorem cancelHeld_of_step {d : Dialect} {s s' : ProtocolState J} {e : Execution J}
    (hstep : protocol d s e = some s') {id : String} {t t' : Task J}
    (ht : s.db.get id = some t) (hheld : CancelHeld t) (hleaves : e.statement.LeavesCancel id)
    (ht' : s'.db.get id = some t') : CancelHeld t' := by
  rcases get_of_step_of_get hstep ht ht' with ⟨rfl, -⟩ | ⟨heff, -⟩
  · exact hheld
  · have hid := Database.id_of_get ht
    rcases hheld with ⟨hrunning, hcancel⟩ | hcanceled
    · rcases heff.of_cancelRequested hrunning hcancel (hid ▸ hleaves) with
        ⟨hrunning', hcancel', -⟩ | ⟨hcanceled', -⟩
      · exact Or.inl ⟨hrunning', hcancel'⟩
      · exact Or.inr hcanceled'
    · rcases heff.of_terminal (by simp [hcanceled, TaskStatus.isTerminal]) with ⟨-, reset, hst⟩
      rw [hst] at hleaves
      exact absurd hid hleaves

/-- While the task is in the table, no raw succeed and no retry is applied to it. -/
def CancelLeft (id : String) (s : ProtocolState J) (e : Execution J) : Prop :=
  (s.db.get id).isSome ∧ e.statement.LeavesCancel id

/-- Along such a continuation the cancel stays held. -/
theorem cancelHeld_of_steps {d : Dialect} {s s' : ProtocolState J} {es : List (Execution J)}
    {id : String} {t t' : Task J} (ht : s.db.get id = some t) (hheld : CancelHeld t)
    (hsteps : (protocol d).Steps (CancelLeft id) s es s') (ht' : s'.db.get id = some t') :
    CancelHeld t' := by
  refine hsteps.invariant (I := fun s => ∀ t, s.db.get id = some t → CancelHeld t) ?_ ?_ t' ht'
  · intro s e s' hs hguard hstep t' ht'
    rcases Option.isSome_iff_exists.mp hguard.1 with ⟨t, ht⟩
    exact cancelHeld_of_step hstep ht (hs t ht) hguard.2 ht'
  · intro r hr
    rw [ht] at hr
    cases hr
    exact hheld

/-- Cancel wins.  Take any database with a running task whose cancel was requested, and
any continuation without a raw succeed and without a retry of the task.  As long as the
task is in the table it is running with its cancel requested, or canceled; no claim
returns it; and whatever step comes next, a running row ends in it exactly when a complete,
a fail or a recovery takes the row, and then it ends canceled. -/
theorem cancel_wins {d : Dialect} {s s' : ProtocolState J} {es : List (Execution J)}
    {id : String} {t t' : Task J}
    (ht : s.db.get id = some t) (hrunning : t.status = .running)
    (hcancel : t.cancelRequestedAtMs.isSome = true)
    (hsteps : (protocol d).Steps (CancelLeft id) s es s') (ht' : s'.db.get id = some t') :
    CancelHeld t' ∧
      (∀ e s'', protocol d s' e = some s'' → ∀ filter workerId leaseMs limit,
        e.statement = .claim filter workerId leaseMs limit →
          ∀ r ∈ (e.reply d s'.db).rows, r.id ≠ id) ∧
      (∀ e s'' t'', protocol d s' e = some s'' → e.statement.LeavesCancel id →
        s''.db.get id = some t'' → t'.status = .running →
          (t''.status = .running ∨ t''.status = .canceled) ∧
            (t''.status = .canceled ↔
              (e.reply d s'.db).names id = true ∧ e.statement.EndsAttempt id)) := by
  have hheld := cancelHeld_of_steps ht (Or.inl ⟨hrunning, hcancel⟩) hsteps ht'
  refine ⟨hheld, ?_, ?_⟩
  · rintro e s'' hstep filter workerId leaseMs limit hst r hr rfl
    rcases get_of_mem_rows hstep hr with ⟨-, ⟨r₀, hr₀, heff⟩ | ⟨hnone, -⟩⟩
    · rw [ht'] at hr₀
      cases hr₀
      rw [hst] at heff
      cases heff with
      | claimed hclaimable =>
          rcases hheld with ⟨hstatus, -⟩ | hstatus <;> simp [hclaimable.1] at hstatus
    · rw [ht'] at hnone
      cases hnone
  · intro e s'' t'' hstep hleaves ht'' hrunning'
    have hcancel' : t'.cancelRequestedAtMs.isSome = true := by
      rcases hheld with ⟨-, hcancel'⟩ | hcanceled
      · exact hcancel'
      · simp [hrunning'] at hcanceled
    rcases get_of_step_of_get hstep ht' ht'' with ⟨rfl, hnames⟩ | ⟨heff, hnames⟩
    · simp [hrunning', hnames]
    · have hid := Database.id_of_get ht'
      rcases heff.of_cancelRequested hrunning' hcancel' (hid ▸ hleaves) with
        ⟨hstatus, -, hends⟩ | ⟨hstatus, hends⟩
      · rw [hid] at hends
        simp [hstatus, hends]
      · rw [hid] at hends
        simp [hstatus, hends, hnames]

/-- A running task that is asked to cancel. -/
def canceledRun : List (Execution Nat) :=
  [.alone 0 (.insertTask (.plain "t" "work" 3 0)),
    .alone 1 (.claim (.claimOneQueueOneName "default" "work") "w" 10 1),
    .alone 2 (.cancel "t")]

/-- Its worker crashes; the recovery cancels it although attempts are left. -/
theorem cancel_wins_crashed :
    ∃ t, (finalState .postgres (canceledRun ++ [.alone 11 (.recoverLeases 8)])).db.get "t" =
      some t ∧ t.attempt < t.maxAttempts ∧ t.status = .canceled ∧ CancelHeld t := by
  have hsteps : (protocol .postgres).Steps (CancelLeft "t") (finalState .postgres canceledRun)
      [.alone 11 (.recoverLeases 8)]
      (finalState .postgres (canceledRun ++ [.alone 11 (.recoverLeases 8)])) :=
    Machine.Steps.single ⟨rfl, trivial⟩ rfl
  exact ⟨_, rfl, by decide, rfl, (cancel_wins rfl rfl rfl hsteps rfl).1⟩

end CairnQ
