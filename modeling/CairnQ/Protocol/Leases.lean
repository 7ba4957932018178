import CairnQ.Protocol.Lifecycle

/-!
# Leases

What a worker may rely on between the moment a claim or a heartbeat sets its lease
and the moment the clock reaches it.  Every worker uses one fixed positive lease
duration; the clock is read once per statement and never goes back.

Main results:

- Theorem `lease_guarantee`: a live lease can be ended by its holder alone, and at
  every clock reading exactly one of an owned write and a recovery takes a running
  row.
-/

namespace CairnQ

open Relational Transition

variable {J : Type}

/-! ## Who accepts what -/

/-- The ownership-checked writes of a task by a worker. -/
def Statement.ChecksOwner (id workerId : String) : Statement J → Prop
  | .owned id' w _ => id' = id ∧ w = workerId
  | .heartbeatBatch ids w _ => id ∈ ids ∧ w = workerId
  | _ => False

/-- An ownership-checked write is accepted exactly when the row is owned. -/
theorem exec_checksOwner_names {d : Dialect} {held : String → Bool} {nowMs : Int}
    {id workerId : String} {st : Statement J} {db : Database J}
    (hst : st.ChecksOwner id workerId) :
    (exec d held nowMs st db).2.names id = true ↔
      ∃ t, db.get id = some t ∧ Owned workerId nowMs t := by
  have hupdates : st.updates = true := by
    cases st <;> first | rfl | cases hst
  rw [exec_eq, Postgres.exec_names _ _ _ hupdates]
  constructor
  · rintro ⟨t, ht, hsel⟩
    have htarget := (Statement.effect_of_selects ht hsel).targets
    cases st with
    | owned id' w write => exact ⟨t, ht, hst.2 ▸ htarget.2⟩
    | heartbeatBatch ids w leaseMs => exact ⟨t, ht, hst.2 ▸ htarget.2⟩
    | _ => cases hst
  · rintro ⟨t, ht, howned⟩
    have hid := Database.id_of_get ht
    refine ⟨t, ht, ?_⟩
    cases st with
    | owned id' w write => simp [Statement.selects, owned_iff, hid, hst.1, hst.2, howned]
    | heartbeatBatch ids w leaseMs =>
        simp [Statement.selects, owned_iff, hid, hst.1, hst.2, howned]
    | _ => cases hst

/-- A write of one task names no other. -/
theorem exec_owned_names {d : Dialect} {held : String → Bool} {nowMs : Int}
    {id id' workerId : String} {write : OwnedWrite J} {db : Database J}
    (h : (exec d held nowMs (.owned id workerId write) db).2.names id' = true) : id = id' := by
  rw [exec_eq, Postgres.exec_names _ _ _ rfl] at h
  rcases h with ⟨t, ht, hsel⟩
  rw [← (Statement.effect_of_selects ht hsel).targets.1, Database.id_of_get ht]

/-- A batched heartbeat names only tasks it lists. -/
theorem exec_heartbeatBatch_names {d : Dialect} {held : String → Bool} {nowMs : Int}
    {ids : List String} {id workerId : String} {leaseMs : Int} {db : Database J}
    (h : (exec d held nowMs (.heartbeatBatch ids workerId leaseMs) db).2.names id = true) :
    id ∈ ids := by
  rw [exec_eq, Postgres.exec_names _ _ _ rfl] at h
  rcases h with ⟨t, ht, hsel⟩
  rw [← Database.id_of_get ht]
  exact (Statement.effect_of_selects ht hsel).targets.1

/-- A recovery takes exactly the expired rows that no other transaction holds. -/
theorem exec_recoverLeases_names {d : Dialect} {held : String → Bool} {nowMs : Int} {id : String}
    {error : J} {db : Database J} :
    (exec d held nowMs (.recoverLeases error) db).2.names id = true ↔
      d.locked held id = false ∧ ∃ t, db.get id = some t ∧ Expired nowMs t := by
  rw [exec_eq, Postgres.exec_names _ _ _ rfl]
  constructor
  · rintro ⟨t, ht, hsel⟩
    rw [Statement.selects, Bool.and_eq_true, leaseExpired_iff, Bool.not_eq_true',
      Database.id_of_get ht] at hsel
    exact ⟨hsel.2, t, ht, hsel.1⟩
  · rintro ⟨hfree, t, ht, hexpired⟩
    refine ⟨t, ht, ?_⟩
    rw [Statement.selects, Bool.and_eq_true, leaseExpired_iff, Bool.not_eq_true',
      Database.id_of_get ht]
    exact ⟨hexpired, hfree⟩

/-- A claim names only rows that were queued. -/
theorem exec_claim_names {d : Dialect} {held : String → Bool} {nowMs : Int} {id workerId : String}
    {filter : ClaimFilter} {leaseMs limit : Int} {db : Database J}
    (h : (exec d held nowMs (.claim filter workerId leaseMs limit) db).2.names id = true) :
    ∃ t, db.get id = some t ∧ t.status = .queued := by
  rw [exec_eq, Postgres.exec_names _ _ _ rfl] at h
  rcases h with ⟨t, ht, hsel⟩
  exact ⟨t, ht, (Statement.effect_of_selects ht hsel).targets.1⟩

/-! ## Fixed lease durations -/

/-- The statement uses the lease duration of its worker. -/
def Statement.UsesLease (leaseOf : String → Int) : Statement J → Prop
  | .claim _ workerId leaseMs _ | .heartbeatBatch _ workerId leaseMs
  | .owned _ workerId (.heartbeat leaseMs) => leaseMs = leaseOf workerId
  | _ => True

/-- The guard of runs in which every worker uses its lease duration. -/
def UsesLease (leaseOf : String → Int) (_ : ProtocolState J) (e : Execution J) : Prop :=
  e.statement.UsesLease leaseOf

/-- No lease ends later than one lease duration from now. -/
def LeaseBound (leaseOf : String → Int) (nowMs : Int) (t : Task J) : Prop :=
  ∀ w u, t.workerId = some w → t.leaseUntilMs = some u → u ≤ nowMs + leaseOf w

/-- How an effect changes the lease of a row: the holder keeps it, sets it afresh, or the
row has none any more. -/
theorem Effect.lease_cases {nowMs : Int} {st : Statement J} {t t' : Task J}
    (heff : Effect nowMs st t t') :
    t'.leaseUntilMs = none ∨
      (t'.workerId = t.workerId ∧ t'.leaseUntilMs = t.leaseUntilMs) ∨
      ∃ w leaseMs, t'.workerId = some w ∧ t'.leaseUntilMs = some (nowMs + leaseMs) ∧
        ((∃ filter limit, st = .claim filter w leaseMs limit) ∨
          (∃ ids, st = .heartbeatBatch ids w leaseMs) ∨
            st = .owned t.id w (.heartbeat leaseMs)) := by
  cases heff with
  | @claimed filter workerId leaseMs limit t _ =>
      exact Or.inr (Or.inr ⟨workerId, leaseMs, rfl, rfl, Or.inl ⟨filter, limit, rfl⟩⟩)
  | @renewed ids workerId leaseMs t _ howned =>
      exact Or.inr (Or.inr ⟨workerId, leaseMs, howned.2.1, rfl, Or.inr (Or.inl ⟨ids, rfl⟩)⟩)
  | @written workerId write t howned =>
      cases write with
      | heartbeat leaseMs =>
          exact Or.inr (Or.inr ⟨workerId, leaseMs, howned.2.1, rfl, Or.inr (Or.inr rfl)⟩)
      | progress value message => exact Or.inr (Or.inl ⟨rfl, rfl⟩)
      | complete result => exact Or.inl rfl
      | succeed result message => exact Or.inl rfl
      | fail error retryable delayMs => exact Or.inl rfl
  | canceled _ => exact Or.inr (Or.inl ⟨rfl, rfl⟩)
  | recovered _ | retried _ => exact Or.inl rfl

/-- Every lease of a reachable database is bounded. -/
theorem reachable_leaseBound {d : Dialect} {leaseOf : String → Int} {clockMs : Int}
    {s : ProtocolState J}
    (hreach : (protocol d).Reachable (UsesLease leaseOf) (ProtocolState.fresh clockMs) s) :
    ∀ id t, s.db.get id = some t → LeaseBound leaseOf s.clockMs t := by
  refine hreach.invariant
    (I := fun s => ∀ id t, s.db.get id = some t → LeaseBound leaseOf s.clockMs t) ?_ ?_
  · intro s e s' hbound huses hstep id t' ht' w u hw hu
    have hclock : s.clockMs ≤ e.nowMs ∧ s'.clockMs = e.nowMs := by
      rcases protocol_eq_some_iff.mp hstep with ⟨hle, rfl⟩
      exact ⟨hle, rfl⟩
    rw [hclock.2]
    rcases get_of_step hstep ht' with ⟨h, -⟩ | ⟨t, ht, heff, -⟩ | ⟨-, ⟨n, -, rfl⟩, -⟩
    · have := hbound id t' h w u hw hu
      omega
    · rcases heff.lease_cases with hnone | ⟨hworker, hlease⟩ | ⟨v, leaseMs, hv, hlease, hst⟩
      · rw [hu] at hnone
        cases hnone
      · have := hbound id t ht w u (hworker ▸ hw) (hlease ▸ hu)
        omega
      · have hleaseMs : leaseMs = leaseOf v := by
          unfold UsesLease at huses
          rcases hst with ⟨filter, limit, hst⟩ | ⟨ids, hst⟩ | hst <;> rw [hst] at huses <;>
            exact huses
        rw [hw] at hv
        rw [hu] at hlease
        cases hv
        cases hlease
        omega
    · cases hw
  · intro id t ht
    cases ht

/-! ## The holder's guarantee -/

/-- The row runs under a worker with a lease until the given time. -/
def RunningUnder (workerId : String) (untilMs : Int) (t : Task J) : Prop :=
  t.status = .running ∧ t.workerId = some workerId ∧ t.leaseUntilMs = some untilMs

/-- The statements by which a worker sets its lease on a task. -/
def Statement.SetsLease (id workerId : String) : Statement J → Prop
  | .claim _ w _ _ | .heartbeatBatch _ w _ => w = workerId
  | .owned id' w (.heartbeat _) => id' = id ∧ w = workerId
  | _ => False

/-- The statements by which a worker settles a task. -/
def Statement.Settles (id workerId : String) : Statement J → Prop
  | .owned id' w (.complete _) | .owned id' w (.succeed _ _) | .owned id' w (.fail _ _ _) =>
      id' = id ∧ w = workerId
  | _ => False

/-- What a live lease promises about the next executed statement. -/
structure LeaseHonored (d : Dialect) (id workerId : String) (s : ProtocolState J)
    (e : Execution J) : Prop where
  accepted : e.statement.ChecksOwner id workerId → (e.reply d s.db).names id = true
  not_claimed : ∀ filter w leaseMs limit, e.statement = .claim filter w leaseMs limit →
    (e.reply d s.db).names id = false
  not_recovered : ∀ error, e.statement = .recoverLeases error →
    (e.reply d s.db).names id = false
  kept : ∀ s', protocol d s e = some s' → e.statement.Settles id workerId ∨
    ∃ t' u', s'.db.get id = some t' ∧ RunningUnder workerId u' t'

/-- An effect on a row under a live lease is a settlement by the holder, or keeps the row
running under the holder. -/
theorem Effect.runningUnder {nowMs : Int} {st : Statement J} {t t' : Task J} {w : String} {u : Int}
    (heff : Effect nowMs st t t') (hrunning : RunningUnder w u t) (hlive : nowMs < u) :
    st.Settles t.id w ∨ ∃ u', RunningUnder w u' t' ∧
      (u' = u ∨ ∃ leaseMs, u' = nowMs + leaseMs ∧
        ((∃ ids, st = .heartbeatBatch ids w leaseMs) ∨ st = .owned t.id w (.heartbeat leaseMs))) := by
  obtain ⟨hstatus, hworker, hlease⟩ := hrunning
  cases heff with
  | claimed hclaimable => exact absurd (hstatus.symm.trans hclaimable.1) (by simp)
  | recovered hexpired =>
      obtain ⟨-, v, hv, hle⟩ := hexpired
      rw [hlease] at hv
      cases hv
      omega
  | @written workerId write t howned =>
      have hw : workerId = w := Option.some.inj (howned.2.1.symm.trans hworker)
      subst hw
      cases write with
      | heartbeat leaseMs =>
          exact Or.inr ⟨_, ⟨hstatus, hworker, rfl⟩, Or.inr ⟨leaseMs, rfl, Or.inr rfl⟩⟩
      | progress value message => exact Or.inr ⟨u, ⟨hstatus, hworker, hlease⟩, Or.inl rfl⟩
      | complete result => exact Or.inl ⟨rfl, rfl⟩
      | succeed result message => exact Or.inl ⟨rfl, rfl⟩
      | fail error retryable delayMs => exact Or.inl ⟨rfl, rfl⟩
  | @renewed ids workerId leaseMs t hid howned =>
      have hw : workerId = w := Option.some.inj (howned.2.1.symm.trans hworker)
      subst hw
      exact Or.inr ⟨_, ⟨hstatus, hworker, rfl⟩, Or.inr ⟨leaseMs, rfl, Or.inl ⟨ids, rfl⟩⟩⟩
  | canceled _ =>
      exact Or.inr ⟨u, ⟨by simp [setCancel, hstatus], hworker, hlease⟩, Or.inl rfl⟩
  | retried hstopped => rcases hstopped with h | h <;> simp [hstatus] at h

/-- A step before the lease ends leaves the row running under its holder unless the holder
settles it, and never with a shorter lease. -/
theorem runningUnder_of_step {d : Dialect} {leaseOf : String → Int} {s s' : ProtocolState J}
    {e : Execution J} {id w : String} {t : Task J} {u : Int} (ht : s.db.get id = some t)
    (hrunning : RunningUnder w u t) (hbound : u ≤ s.clockMs + leaseOf w)
    (huses : e.statement.UsesLease leaseOf) (hlive : e.nowMs < u)
    (hstep : protocol d s e = some s') :
    e.statement.Settles id w ∨
      ∃ t' u', s'.db.get id = some t' ∧ RunningUnder w u' t' ∧ u ≤ u' := by
  have hclock := (protocol_eq_some_iff.mp hstep).1
  cases ht' : s'.db.get id with
  | none =>
      rcases get_none_of_step hstep ht ht' with ⟨_, _, _, _, _, -, hp⟩
      have hterminal := (purgeable_iff.mp hp).1
      simp [hrunning.1, TaskStatus.isTerminal] at hterminal
  | some t' =>
      rcases get_of_step_of_get hstep ht ht' with ⟨rfl, -⟩ | ⟨heff, -⟩
      · exact Or.inr ⟨t', u, rfl, hrunning, le_refl u⟩
      · rw [← Database.id_of_get ht]
        rcases heff.runningUnder hrunning hlive with hsettles | ⟨u', hrunning', hu'⟩
        · exact Or.inl hsettles
        · refine Or.inr ⟨t', u', rfl, hrunning', ?_⟩
          rcases hu' with rfl | ⟨leaseMs, rfl, hst⟩
          · exact le_refl _
          · have hleaseMs : leaseMs = leaseOf w := by
              rcases hst with ⟨ids, hst⟩ | hst <;> rw [hst] at huses <;> exact huses
            omega

/-- A live lease is honored by whatever statement comes next. -/
theorem leaseHonored {d : Dialect} {leaseOf : String → Int} {s : ProtocolState J}
    {e : Execution J} {id w : String} {t : Task J} {u : Int} (ht : s.db.get id = some t)
    (hrunning : RunningUnder w u t) (hbound : u ≤ s.clockMs + leaseOf w)
    (huses : e.statement.UsesLease leaseOf) (hlive : e.nowMs < u) : LeaseHonored d id w s e := by
  have howned : Owned w e.nowMs t := ⟨hrunning.1, hrunning.2.1, u, hrunning.2.2, hlive⟩
  constructor
  · intro hst
    exact (exec_checksOwner_names hst).mpr ⟨t, ht, howned⟩
  · intro filter v leaseMs limit hst
    rw [Execution.reply, hst]
    refine Bool.eq_false_iff.mpr fun hnames => ?_
    rcases exec_claim_names hnames with ⟨r, hr, hqueued⟩
    rw [ht] at hr
    cases hr
    simp [hrunning.1] at hqueued
  · intro error hst
    rw [Execution.reply, hst]
    refine Bool.eq_false_iff.mpr fun hnames => ?_
    rcases exec_recoverLeases_names.mp hnames with ⟨-, r, hr, -, v, hv, hle⟩
    rw [ht] at hr
    cases hr
    rw [hrunning.2.2] at hv
    cases hv
    omega
  · intro s' hstep
    rcases runningUnder_of_step ht hrunning hbound huses hlive hstep with
      hsettles | ⟨t', u', ht', hrunning', -⟩
    · exact Or.inl hsettles
    · exact Or.inr ⟨t', u', ht', hrunning'⟩

/-- The guard of a continuation within the lease: the clock has not reached the lease of
the row, and the holder does not settle it. -/
def WithinLease (leaseOf : String → Int) (id workerId : String) (s : ProtocolState J)
    (e : Execution J) : Prop :=
  e.statement.UsesLease leaseOf ∧ ¬e.statement.Settles id workerId ∧
    ∃ t u, s.db.get id = some t ∧ t.leaseUntilMs = some u ∧ e.nowMs < u

/-- Along a continuation within the lease the row stays with its holder, never with a
shorter lease. -/
theorem runningUnder_of_steps {d : Dialect} {leaseOf : String → Int} {clockMs : Int}
    {s s' : ProtocolState J} {es : List (Execution J)} {id w : String} {t : Task J} {u : Int}
    (hreach : (protocol d).Reachable (UsesLease leaseOf) (ProtocolState.fresh clockMs) s)
    (ht : s.db.get id = some t) (hrunning : RunningUnder w u t)
    (hsteps : (protocol d).Steps (WithinLease leaseOf id w) s es s') :
    (protocol d).Reachable (UsesLease leaseOf) (ProtocolState.fresh clockMs) s' ∧
      ∃ t' u', s'.db.get id = some t' ∧ RunningUnder w u' t' ∧ u ≤ u' := by
  refine hsteps.invariant (I := fun s =>
    (protocol d).Reachable (UsesLease leaseOf) (ProtocolState.fresh clockMs) s ∧
      ∃ t' u', s.db.get id = some t' ∧ RunningUnder w u' t' ∧ u ≤ u') ?_
    ⟨hreach, t, u, ht, hrunning, le_refl u⟩
  rintro s e s' ⟨hreach, t, v, ht, hrunning, hle⟩ ⟨huses, hnot, r, v', hr, hv', hlive⟩ hstep
  refine ⟨hreach.tail huses hstep, ?_⟩
  rw [ht] at hr
  cases hr
  rw [hrunning.2.2] at hv'
  cases hv'
  have hbound := reachable_leaseBound hreach id t ht w v hrunning.2.1 hrunning.2.2
  rcases runningUnder_of_step ht hrunning hbound huses hlive hstep with
    hsettles | ⟨t', u', ht', hrunning', hle'⟩
  · exact absurd hsettles hnot
  · exact ⟨t', u', ht', hrunning', hle.trans hle'⟩

/-- An accepted claim or heartbeat leaves the row running under the worker, with one lease
duration from now. -/
theorem runningUnder_of_setsLease {d : Dialect} {leaseOf : String → Int} {s s' : ProtocolState J}
    {e : Execution J} {id w : String} (huses : e.statement.UsesLease leaseOf)
    (hsets : e.statement.SetsLease id w) (hstep : protocol d s e = some s')
    (hnames : (e.reply d s.db).names id = true) :
    ∃ t, s'.db.get id = some t ∧ RunningUnder w (e.nowMs + leaseOf w) t := by
  have hupdates : e.statement.updates = true := by
    generalize e.statement = st at hsets
    cases st <;> first | rfl | cases hsets
  rcases protocol_eq_some_iff.mp hstep with ⟨-, rfl⟩
  rw [Execution.reply, exec_eq] at hnames
  rcases (Postgres.exec_names _ _ _ hupdates _).mp hnames with ⟨t, ht, hsel⟩
  refine ⟨(e.statement.assigns e.nowMs).set t, ?_, ?_⟩
  · simp only [exec_eq]
    rw [Postgres.exec_get_update _ _ _ hupdates, ht, Option.map_some, if_pos hsel]
  · have heff := Statement.effect_of_selects ht hsel
    generalize e.statement = st at huses hsets heff
    cases st with
    | claim filter workerId leaseMs limit =>
        cases huses
        cases hsets
        exact ⟨rfl, rfl, rfl⟩
    | heartbeatBatch ids workerId leaseMs =>
        cases huses
        cases hsets
        exact ⟨heff.targets.2.1, heff.targets.2.2.1, rfl⟩
    | owned id' workerId write =>
        cases write with
        | heartbeat leaseMs =>
            cases huses
            cases hsets.2
            exact ⟨heff.targets.2.1, heff.targets.2.2.1, rfl⟩
        | _ => cases hsets
    | _ => cases hsets

/-- The lease guarantee.  Every worker uses one fixed positive lease duration.  From the
moment a claim or an accepted heartbeat of worker {lit}`w` sets the lease of a task to
{lit}`T`, until the clock reaches the lease of the row or {lit}`w` settles the task: the row
runs under {lit}`w` with a lease no shorter than {lit}`T`, and whatever statement comes next
honors it.  And for every row running under {lit}`w`, at every clock reading exactly one of
an owned write by {lit}`w` and a recovery takes the row. -/
theorem lease_guarantee {d : Dialect} {leaseOf : String → Int} {clockMs : Int}
    {s : ProtocolState J} (hpositive : ∀ w, 0 < leaseOf w)
    (hreach : (protocol d).Reachable (UsesLease leaseOf) (ProtocolState.fresh clockMs) s)
    (id w : String) :
    (∀ e₀ s₀ es s', e₀.statement.UsesLease leaseOf → e₀.statement.SetsLease id w →
      protocol d s e₀ = some s₀ → (e₀.reply d s.db).names id = true →
      (protocol d).Steps (WithinLease leaseOf id w) s₀ es s' →
        e₀.nowMs < e₀.nowMs + leaseOf w ∧
        ∃ t u, s'.db.get id = some t ∧ RunningUnder w u t ∧ e₀.nowMs + leaseOf w ≤ u ∧
          ∀ e, e.statement.UsesLease leaseOf → e.nowMs < u → LeaseHonored d id w s' e) ∧
    (∀ t, s.db.get id = some t → t.status = .running → t.workerId = some w →
      ∀ nowMs held write error, held id = false → write.ChecksOwner id w →
        Xor ((exec d held nowMs write s.db).2.names id = true)
          ((exec d held nowMs (.recoverLeases error) s.db).2.names id = true)) := by
  constructor
  · intro e₀ s₀ es s' huses hsets hstep hnames hsteps
    rcases runningUnder_of_setsLease huses hsets hstep hnames with ⟨t, ht, hrunning⟩
    obtain ⟨hreach', t', u, ht', hrunning', hle⟩ :=
      runningUnder_of_steps (hreach.tail huses hstep) ht hrunning hsteps
    have hbound := reachable_leaseBound hreach' id t' ht' w u hrunning'.2.1 hrunning'.2.2
    have := hpositive w
    exact ⟨by omega, t', u, ht', hrunning', hle, fun e huses' hlive =>
      leaseHonored ht' hrunning' hbound huses' hlive⟩
  · intro t ht hrunning hworker nowMs held write error hfree hwrite
    have hsound := reachable_sound (hreach.mono fun _ _ _ => trivial) id t ht
    have hlease := hsound.lease.mpr hrunning
    rcases Option.isSome_iff_exists.mp hlease with ⟨u, hu⟩
    have hunlocked : d.locked held id = false := by
      cases d
      · rfl
      · exact hfree
    have hset : ∀ r, s.db.get id = some r → r = t := by
      intro r hr
      rw [ht] at hr
      exact (Option.some.inj hr).symm
    by_cases hlive : nowMs < u
    · refine Or.inl ⟨(exec_checksOwner_names hwrite).mpr ⟨t, ht, hrunning, hworker, u, hu, hlive⟩, ?_⟩
      rw [exec_recoverLeases_names]
      rintro ⟨-, r, hr, -, v, hv, hle⟩
      rw [hset r hr, hu] at hv
      cases hv
      omega
    · refine Or.inr ⟨exec_recoverLeases_names.mpr ⟨hunlocked, t, ht, hrunning, u, hu, by omega⟩, ?_⟩
      rw [exec_checksOwner_names hwrite]
      rintro ⟨r, hr, -, -, v, hv, hlt⟩
      rw [hset r hr, hu] at hv
      cases hv
      omega

/-- A worker that renews its lease once. -/
def renewedRun : List (Execution Nat) :=
  [.alone 0 (.insertTask (.plain "t" "work" 3 0)),
    .alone 1 (.claim (.claimOneQueue "default" none) "w" 10 1),
    .alone 9 (.heartbeatBatch ["t"] "w" 10)]

theorem renewedRun_usesLease (e : Execution Nat) (he : e ∈ renewedRun) :
    e.statement.UsesLease fun _ => 10 := by
  simp only [renewedRun, List.mem_cons, List.not_mem_nil, or_false] at he
  rcases he with rfl | rfl | rfl
  · trivial
  · rfl
  · rfl

/-- A recovery after the first lease and before the second does not take the row. -/
theorem lease_guarantee_renewedRun :
    ((Execution.alone 15 (.recoverLeases 8)).reply .sqlite
      (finalState .sqlite renewedRun).db).names "t" = false := by
  have hreach : (protocol .sqlite).Reachable (UsesLease fun _ => 10) (ProtocolState.fresh 0)
      (finalState .sqlite (renewedRun.take 1)) :=
    Machine.reachable_drive _ _ _ fun e he _ => renewedRun_usesLease e (List.mem_of_mem_take he)
  have hsteps : (protocol .sqlite).Steps (WithinLease (fun _ => 10) "t" "w")
      (finalState .sqlite (renewedRun.take 2)) [.alone 9 (.heartbeatBatch ["t"] "w" 10)]
      (finalState .sqlite renewedRun) :=
    Machine.Steps.single ⟨rfl, id, _, 11, rfl, rfl, by decide⟩ rfl
  obtain ⟨-, t, u, ht, hrunning, -, hhonored⟩ := (lease_guarantee (fun _ => by decide) hreach
    "t" "w").1 (.alone 1 (.claim (.claimOneQueue "default" none) "w" 10 1)) _ _ _ rfl rfl rfl rfl
    hsteps
  have hu : u = 19 := by
    have hget : (finalState .sqlite renewedRun).db.get "t" = some t := ht
    have hlease := hrunning.2.2
    cases hget
    cases hlease
    rfl
  exact (hhonored (.alone 15 (.recoverLeases 8)) trivial (by rw [hu]; decide)).not_recovered 8 rfl

end CairnQ
