import CairnQ.Worker.Fencing

/-!
# Watching one context

One delivery is watched while its handler calls `succeed`, `succeed_in`, `fail`,
`progress` and `heartbeat` concurrently, the worker's heartbeat beats, and everything
else goes on.  The watch keeps the results of the settle calls, the settlements of the
attempt that were recorded, and what ended its lease: expiry, someone else taking the
row, or the worker abandoning the attempt.

Main results:

- Theorem `Executes.runs_before`: a row runs no delivery again that it ran no more.
- Theorem `Executes.taken_cases`: only a recovery, or a settlement under the worker's id,
  takes a row from a running delivery.
- Theorem `seenAs_of_step`: the steps of the system, as the watch sees them.
-/

namespace CairnQ

open Relational Transition

variable {J : Type}

/-! ## The delivery and its row -/

/-- The row runs this very delivery: it is running, under the worker and the attempt of the
delivery, and no later delivery of the task was made. -/
def DeliveryState.runs (s : DeliveryState J) (i : Nat) : Bool :=
  s.deliveries[i]?.any fun dl =>
    ((s.protocol.db.get dl.taskId).any fun t =>
      decide (t.status = .running ∧ t.workerId = some dl.workerId ∧ t.attempt = dl.attempt)) &&
    (s.deliveries.drop (i + 1)).all fun later => decide (later.taskId ≠ dl.taskId)

/-- The row runs this delivery, and its lease has run out. -/
def DeliveryState.expiredAt (s : DeliveryState J) (i : Nat) (nowMs : Int) : Bool :=
  s.runs i && s.deliveries[i]?.any fun dl =>
    (s.protocol.db.get dl.taskId).any (leaseExpired nowMs)

/-- The writes that settle a delivery: those of `succeed`, `succeed_in` and `fail`, and the worker's
own. -/
def WriteOrigin.settles : WriteOrigin → Bool
  | .context settles => settles
  | .succeedOne | .safeFail => true
  | .heartbeatLoop => false

/-- The write is on behalf of the delivery, and settles it. -/
def PendingWrite.settlesFor (w : PendingWrite J) (i : Nat) : Bool :=
  decide (i ∈ w.deliveries) && w.origin.settles

/-! ## The watch -/

/-- How a call of `succeed`, `succeed_in` or `fail` ends. -/
inductive SettleResult
  /-- the row as it was settled -/
  | returned
  /-- `None`: the context was settled before -/
  | skipped
  /-- `LostLease` -/
  | raised
deriving DecidableEq, Repr

/-- The system, and what became of one delivery. -/
structure Watch (J : Type) where
  system : DeliveryState J
  results : List SettleResult
  /-- settlements on behalf of the delivery that took its row -/
  recorded : Nat
  /-- a statement was executed after the lease of the delivery had run out -/
  expired : Bool
  /-- a statement that does not settle on behalf of the delivery took its row -/
  taken : Bool
  /-- the attempt was abandoned on timeout -/
  abandoned : Bool
  /-- whether none of these had happened when the first settlement was executed -/
  held : Option Bool

namespace Watch

/-- A fresh database. -/
def fresh (clockMs : Int) : Watch J where
  system := DeliveryState.fresh clockMs
  results := []
  recorded := 0
  expired := false
  taken := false
  abandoned := false
  held := none

/-- The lease of the delivery was lost for a reason outside its context. -/
def Lost (s : Watch J) : Prop :=
  s.expired = true ∨ s.taken = true ∨ s.abandoned = true

instance (s : Watch J) : Decidable s.Lost :=
  inferInstanceAs (Decidable (_ ∨ _))

/-- What reading an answer tells the settle call that waits for it. -/
def resultOf (i : Nat) (s : DeliveryState J) (w : PendingWrite J) : List SettleResult :=
  match w.origin, w.reply, s.deliveries[i]? with
  | .context true, some reply, some dl =>
      if i ∈ w.deliveries then [if reply.names dl.taskId then .returned else .raised] else []
  | _, _, _ => []

/-- Account for a step of the system. -/
def observe (i : Nat) (s : Watch J) (l : DeliveryStep J) (after : DeliveryState J) : Watch J :=
  match l with
  | .execute e =>
      { s with
        system := after
        expired := s.expired || s.system.expiredAt i e.nowMs
        taken := s.taken || (s.system.runs i && !after.runs i) }
  | .perform n nowMs _ =>
      let own := s.system.writes[n]?.any fun w => w.settlesFor i
      let expired := s.expired || s.system.expiredAt i nowMs
      { s with
        system := after
        recorded := s.recorded + if own && s.system.runs i && !after.runs i then 1 else 0
        expired := expired
        taken := s.taken || (!own && s.system.runs i && !after.runs i)
        held := if own then s.held.or (some (!expired && !s.taken && !s.abandoned)) else s.held }
  | .timeout j =>
      { s with
        system := after
        abandoned := s.abandoned || (decide (j = i) && s.system.deliveries[i]?.isSome) }
  | .answer n =>
      { s with
        system := after
        results := s.results ++ s.system.writes[n]?.toList.flatMap (resultOf i s.system) }
  | _ => { s with system := after }

end Watch

/-- A label of the watch. -/
inductive WatchStep (J : Type)
  /-- the handler calls `succeed`, `succeed_in` or `fail` on the watched context -/
  | settle (write : OwnedWrite J)
  | other (l : DeliveryStep J)

/-- Watch the i-th delivery. -/
def watching (d : Dialect) (i : Nat) : Machine (Watch J) (WatchStep J) := fun s l =>
  match l with
  | .settle write => do
      let dl ← s.system.deliveries[i]?
      if write.isSettlement = false then none
      else if dl.settled then some { s with results := s.results ++ [.skipped] }
      else if dl.leaseLost then some { s with results := s.results ++ [.raised] }
      else (delivering d s.system (.contextWrite i write)).map fun after =>
        { s with system := after }
  | .other l => (delivering d s.system l).map (s.observe i l)

/-! ## Running deliveries -/

/-- `runs`, as a proposition. -/
def DeliveryState.Runs (s : DeliveryState J) (i : Nat) (dl : Delivery) (t : Task J) : Prop :=
  s.deliveries[i]? = some dl ∧ s.protocol.db.get dl.taskId = some t ∧ t.status = .running ∧
    t.workerId = some dl.workerId ∧ t.attempt = dl.attempt ∧
    ∀ (j : Nat) dl', s.deliveries[j]? = some dl' → dl'.taskId = dl.taskId → j ≤ i

theorem runs_iff {s : DeliveryState J} {i : Nat} : s.runs i = true ↔ ∃ dl t, s.Runs i dl t := by
  have hlatest : ∀ dl : Delivery, ((s.deliveries.drop (i + 1)).all fun later =>
      decide (later.taskId ≠ dl.taskId)) = true ↔
      ∀ (j : Nat) dl', s.deliveries[j]? = some dl' → dl'.taskId = dl.taskId → j ≤ i := by
    intro dl
    simp only [List.all_eq_true, decide_eq_true_eq]
    constructor
    · intro h j dl' hj htask
      by_contra hlt
      refine h dl' (List.mem_of_getElem? (i := j - (i + 1)) ?_) htask
      rw [List.getElem?_drop, Nat.add_sub_cancel' (by omega)]
      exact hj
    · intro h later hlater htask
      rcases List.mem_iff_getElem?.mp hlater with ⟨k, hk⟩
      rw [List.getElem?_drop] at hk
      have := h _ later hk htask
      omega
  unfold DeliveryState.runs DeliveryState.Runs
  simp only [Option.any_eq_true, Bool.and_eq_true, decide_eq_true_eq, hlatest]
  constructor
  · rintro ⟨dl, hdl, ⟨t, ht, hstatus, hworker, hattempt⟩, hlast⟩
    exact ⟨dl, t, hdl, ht, hstatus, hworker, hattempt, hlast⟩
  · rintro ⟨dl, t, hdl, ht, hstatus, hworker, hattempt, hlast⟩
    exact ⟨dl, hdl, ⟨t, ht, hstatus, hworker, hattempt⟩, hlast⟩

/-- The worker's own bookkeeping does not change what a row runs. -/
theorem LocalStep.runs_eq {s s' : DeliveryState J} (h : LocalStep s s') (i : Nat) :
    s'.runs i = s.runs i := by
  rw [Bool.eq_iff_iff, runs_iff, runs_iff]
  constructor
  · rintro ⟨dl', t, hdl', ht, hstatus, hworker, hattempt, hlast⟩
    rcases h.before hdl' with ⟨dl, hdl, hevolves⟩
    refine ⟨dl, t, hdl, ?_, hstatus, hevolves.workerId ▸ hworker, hevolves.attempt ▸ hattempt, ?_⟩
    · rw [← h.protocol_eq, ← hevolves.taskId]
      exact ht
    · intro j e he htask
      rcases h.after he with ⟨e', he', hevolves'⟩
      exact hlast j e' he' (by rw [hevolves'.taskId, hevolves.taskId, htask])
  · rintro ⟨dl, t, hdl, ht, hstatus, hworker, hattempt, hlast⟩
    rcases h.after hdl with ⟨dl', hdl', hevolves⟩
    refine ⟨dl', t, hdl', ?_, hstatus, hevolves.workerId ▸ hworker, hevolves.attempt ▸ hattempt, ?_⟩
    · rw [h.protocol_eq, hevolves.taskId]
      exact ht
    · intro j e' he' htask
      rcases h.before he' with ⟨e, he, hevolves'⟩
      exact hlast j e he (by rw [← hevolves'.taskId, htask, hevolves.taskId])

theorem LocalStep.none_before {s s' : DeliveryState J} (h : LocalStep s s') {i : Nat}
    (hnone : s'.deliveries[i]? = none) : s.deliveries[i]? = none := by
  rcases h.deliveries i with ⟨hbefore, -⟩ | ⟨dl, dl', -, hafter, -⟩
  · exact hbefore
  · rw [hnone] at hafter
    cases hafter

/-- An effect on a running row keeps its attempt running, or is a recovery of an expired lease, or a
settlement by its worker. -/
theorem Effect.keeps_attempt {nowMs : Int} {st : Statement J} {t t' : Task J} {w : String}
    (heff : Effect nowMs st t t') (hrunning : t.status = .running) (hworker : t.workerId = some w) :
    (t'.status = .running ∧ t'.workerId = t.workerId ∧ t'.attempt = t.attempt) ∨
      ((∃ error, st = .recoverLeases error) ∧ Expired nowMs t) ∨ st.Settles t.id w := by
  cases heff with
  | claimed hclaimable => exact absurd (hrunning.symm.trans hclaimable.1) (by simp)
  | @recovered error t hexpired => exact Or.inr (Or.inl ⟨⟨error, rfl⟩, hexpired⟩)
  | @written workerId write t howned =>
      have hw : workerId = w := Option.some.inj (howned.2.1.symm.trans hworker)
      subst hw
      cases write with
      | heartbeat leaseMs => exact Or.inl ⟨hrunning, rfl, rfl⟩
      | progress value message => exact Or.inl ⟨hrunning, rfl, rfl⟩
      | complete result => exact Or.inr (Or.inr ⟨rfl, rfl⟩)
      | succeed result message => exact Or.inr (Or.inr ⟨rfl, rfl⟩)
      | fail error retryable delayMs => exact Or.inr (Or.inr ⟨rfl, rfl⟩)
  | renewed _ _ => exact Or.inl ⟨hrunning, rfl, rfl⟩
  | canceled _ => exact Or.inl ⟨by simp [setCancel, hrunning], rfl, rfl⟩
  | retried hstopped => rcases hstopped with h | h <;> simp [hrunning] at h

/-- A statement after which a row no longer runs its attempt is a recovery of its expired lease, or
a settlement by its worker that the row was owned for. -/
theorem attempt_of_step {d : Dialect} {p p' : ProtocolState J} {e : Execution J}
    (hstep : protocol d p e = some p') {id w : String} {t : Task J} (ht : p.db.get id = some t)
    (hrunning : t.status = .running) (hworker : t.workerId = some w) :
    (∃ t', p'.db.get id = some t' ∧ t'.status = .running ∧ t'.workerId = some w ∧
      t'.attempt = t.attempt) ∨
    ((∃ error, e.statement = .recoverLeases error) ∧ Expired e.nowMs t) ∨
      e.statement.Settles id w := by
  cases ht' : p'.db.get id with
  | none =>
      rcases get_none_of_step hstep ht ht' with ⟨_, _, _, _, _, -, hp⟩
      have hterminal := (purgeable_iff.mp hp).1
      simp [hrunning, TaskStatus.isTerminal] at hterminal
  | some t' =>
      rcases get_of_step_of_get hstep ht ht' with ⟨rfl, -⟩ | ⟨heff, -⟩
      · exact Or.inl ⟨t', rfl, hrunning, hworker, rfl⟩
      · rcases heff.keeps_attempt hrunning hworker with
          ⟨hstatus, hw, hattempt⟩ | hrecovered | hsettles
        · exact Or.inl ⟨t', rfl, hstatus, hw.trans hworker, hattempt⟩
        · exact Or.inr (Or.inl hrecovered)
        · exact Or.inr (Or.inr (Database.id_of_get ht ▸ hsettles))

/-- A statement is executed, for whomever; its claimed rows become deliveries. -/
structure Executes (d : Dialect) (e : Execution J) (s s' : DeliveryState J) : Prop where
  step : protocol d s.protocol e = some s'.protocol
  deliveries : s'.deliveries = s.deliveries ++ newDeliveries e.statement (e.reply d s.protocol.db)

namespace Executes

variable {d : Dialect} {e : Execution J} {s s' : DeliveryState J} {i : Nat}

theorem getElem?_of_some (h : Executes d e s s') {dl : Delivery}
    (hdl : s.deliveries[i]? = some dl) :
    s'.deliveries[i]? = some dl := by
  rw [h.deliveries, List.getElem?_append_left (List.getElem?_eq_some_iff.mp hdl).1]
  exact hdl

theorem none_before (h : Executes d e s s') (hnone : s'.deliveries[i]? = none) :
    s.deliveries[i]? = none := by
  cases hbefore : s.deliveries[i]? with
  | none => rfl
  | some dl =>
      rw [h.getElem?_of_some hbefore] at hnone
      cases hnone

/-- A delivery is an old one, or made by the statement. -/
theorem cases_getElem? (h : Executes d e s s') {dl : Delivery} (hdl : s'.deliveries[i]? = some dl) :
    s.deliveries[i]? = some dl ∨ (s.deliveries.length ≤ i ∧
      (newDeliveries e.statement (e.reply d s.protocol.db))[i - s.deliveries.length]? =
        some dl) := by
  rw [h.deliveries, List.getElem?_append] at hdl
  split at hdl
  · exact Or.inl hdl
  · exact Or.inr ⟨by omega, hdl⟩

/-- A row runs no delivery again that it ran no more. -/
theorem runs_before (h : Executes d e s s') {dl : Delivery} (hdl : s.deliveries[i]? = some dl)
    (hruns : s'.runs i = true) : s.runs i = true := by
  rcases runs_iff.mp hruns with ⟨dl', t, hdl', ht, hstatus, hworker, hattempt, hlast⟩
  rw [h.getElem?_of_some hdl] at hdl'
  cases hdl'
  have hlast' : ∀ (j : Nat) e, s.deliveries[j]? = some e → e.taskId = dl.taskId → j ≤ i :=
    fun j e he => hlast j e (h.getElem?_of_some he)
  rcases running_before h.step ht hstatus with
    ⟨t₀, ht₀, hstatus₀, hworker₀, hattempt₀, -⟩ | ⟨hnames, filter, w, leaseMs, limit, hst, -⟩
  · exact runs_iff.mpr ⟨dl, t₀, hdl, ht₀, hstatus₀, hworker₀.trans hworker,
      hattempt₀.trans hattempt, hlast'⟩
  · -- a claim of the row makes a later delivery
    have hrow : ∃ r ∈ (e.reply d s.protocol.db).rows, r.id = dl.taskId := by
      rw [Execution.reply, exec_eq, hst] at hnames ⊢
      exact ((Postgres.exec_claim_rows ..).2 dl.taskId).mp hnames
    rcases hrow with ⟨r, hr, hid⟩
    rcases List.mem_iff_getElem?.mp hr with ⟨k, hk⟩
    have hnew : s'.deliveries[s.deliveries.length + k]? = some (deliveryOf w r) := by
      rw [h.deliveries, List.getElem?_append_right (by omega), Nat.add_sub_cancel_left, hst,
        newDeliveries, List.getElem?_map, hk]
      rfl
    have hle := hlast _ _ hnew hid
    have := (List.getElem?_eq_some_iff.mp hdl).1
    omega

/-- A new delivery runs. -/
theorem runs_new (h : Executes d e s s') (hnone : s.deliveries[i]? = none) {dl : Delivery}
    (hdl : s'.deliveries[i]? = some dl) :
    s'.runs i = true ∧ dl.leaseLost = false ∧ dl.settled = false := by
  rcases h.cases_getElem? hdl with hold | ⟨hle, hnew⟩
  · rw [hnone] at hold
    cases hold
  · rcases mem_newDeliveries h.step hnew with ⟨hnames, ⟨filter, leaseMs, limit, hst⟩, -⟩
    have hrow : ∃ r ∈ (e.reply d s.protocol.db).rows, dl = deliveryOf dl.workerId r := by
      rw [hst] at hnew
      simp only [newDeliveries, List.getElem?_map] at hnew
      rcases Option.map_eq_some_iff.mp hnew with ⟨r, hr, hdl⟩
      exact ⟨r, List.mem_of_getElem? hr, hdl.symm⟩
    rcases hrow with ⟨r, hr, hmade⟩
    have hfields : dl.taskId = r.id ∧ dl.attempt = r.attempt ∧ dl.leaseLost = false ∧
        dl.settled = false := by
      rw [hmade]
      exact ⟨rfl, rfl, rfl, rfl⟩
    rcases get_of_mem_rows h.step hr with ⟨hget, ⟨t, ht, heff⟩ | ⟨-, hinserts⟩⟩
    · rw [hst] at heff
      have hrunning : r.status = .running ∧ r.workerId = some dl.workerId := by
        cases heff
        exact ⟨rfl, rfl⟩
      refine ⟨runs_iff.mpr ⟨dl, r, hdl, ?_, hrunning.1, hrunning.2, hfields.2.1.symm, ?_⟩,
        hfields.2.2⟩
      · rw [hfields.1]
        exact hget
      · intro j dl' hj htask
        rcases h.cases_getElem? hj with hj | ⟨hlej, hj⟩
        · have := (List.getElem?_eq_some_iff.mp hj).1
          omega
        · have := newDeliveries_injective hj hnew htask
          omega
    · rcases hinserts with ⟨n, hn, -⟩
      rw [hst] at hn
      cases hn

/-- What takes a row from a running delivery: a recovery of its expired lease, or a settlement
under its worker id. -/
theorem taken_cases (h : Executes d e s s') {dl : Delivery} {t : Task J} (hruns : s.Runs i dl t) :
    s'.runs i = true ∨ ((∃ error, e.statement = .recoverLeases error) ∧ Expired e.nowMs t) ∨
      e.statement.Settles dl.taskId dl.workerId := by
  rcases hruns with ⟨hdl, ht, hstatus, hworker, hattempt, hlast⟩
  rcases attempt_of_step h.step ht hstatus hworker with
    ⟨t', ht', hstatus', hworker', hattempt'⟩ | hended
  · refine Or.inl (runs_iff.mpr ⟨dl, t', h.getElem?_of_some hdl, ht', hstatus', hworker',
      hattempt'.trans hattempt, fun j dl' hj htask => ?_⟩)
    rcases h.cases_getElem? hj with hj | ⟨-, hj⟩
    · exact hlast j dl' hj htask
    · -- a running row is not claimed
      rcases mem_newDeliveries h.step hj with ⟨hnames, ⟨filter, leaseMs, limit, hst⟩, -⟩
      rw [Execution.reply, hst, htask] at hnames
      rcases exec_claim_names hnames with ⟨r, hr, hqueued⟩
      rw [ht] at hr
      cases hr
      rw [hstatus] at hqueued
      cases hqueued
  · exact Or.inr hended

end Executes

/-! ## What a step does to the watched delivery -/

/-- A write that settles is a settlement statement. -/
def PendingWrite.Kind (w : PendingWrite J) : Prop :=
  w.origin.settles = true →
    ∃ id workerId write, w.statement = .owned id workerId write ∧ write.isSettlement = true

/-- A step inside the worker that reads no answer: the flags of the delivery stay, and no write is
executed. -/
structure Quiet (i : Nat) (s s' : DeliveryState J) : Prop where
  localStep : LocalStep s s'
  flags : ∀ dl', s'.deliveries[i]? = some dl' → ∃ dl, s.deliveries[i]? = some dl ∧
    dl'.taskId = dl.taskId ∧ dl'.leaseLost = dl.leaseLost ∧ dl'.settled = dl.settled
  executed : (s'.writes.filter fun w => w.reply.isSome).Sublist
    (s.writes.filter fun w => w.reply.isSome)
  kinds : ∀ w ∈ s'.writes, w ∈ s.writes ∨ w.Kind

namespace Quiet

variable {i : Nat} {s s' : DeliveryState J}

/-- A delivery goes to another phase. -/
theorem of_modify {j : Nat} {dl : Delivery} (phase : CallPhase) (hdl : s.deliveries[j]? = some dl)
    (hevolves : dl.Evolves { dl with phase := phase }) :
    Quiet i s (s.modify j fun dl => { dl with phase := phase }) where
  localStep := LocalStep.of_modify hdl hevolves
  flags := by
    intro dl' hdl'
    simp only [DeliveryState.modify, List.getElem?_modify] at hdl'
    rcases Option.map_eq_some_iff.mp hdl' with ⟨old, hold, rfl⟩
    refine ⟨old, hold, ?_⟩
    split <;> exact ⟨rfl, rfl, rfl⟩
  executed := List.Sublist.refl _
  kinds := fun _ hw => Or.inl hw

/-- A write is handed to the store. -/
theorem issue (h : Quiet i s s') {origin : WriteOrigin} {deliveries : List Nat}
    {statement : Statement J} (hlocal : LocalStep s (s'.issue origin deliveries statement))
    (hkind : PendingWrite.Kind (J := J) ⟨origin, deliveries, statement, none⟩) :
    Quiet i s (s'.issue origin deliveries statement) where
  localStep := hlocal
  flags := h.flags
  executed := by
    simpa [DeliveryState.issue] using h.executed
  kinds := by
    intro w hw
    rcases List.mem_append.mp hw with hold | hnew
    · exact h.kinds w hold
    · rw [List.mem_singleton.mp hnew]
      exact Or.inr hkind

theorem refl (i : Nat) (s : DeliveryState J) : Quiet i s s where
  localStep := LocalStep.refl s
  flags := fun dl hdl => ⟨dl, hdl, rfl, rfl, rfl⟩
  executed := List.Sublist.refl _
  kinds := fun _ hw => Or.inl hw

/-- An executed write was executed before. -/
theorem mem_executed (h : Quiet i s s') {w : PendingWrite J} (hw : w ∈ s'.writes) {reply : Reply J}
    (hreply : w.reply = some reply) : w ∈ s.writes := by
  have hexecuted := h.executed.subset (List.mem_filter.mpr ⟨hw, by rw [hreply]; rfl⟩)
  exact (List.mem_filter.mp hexecuted).1

end Quiet

/-- What reading an answer leaves. -/
def DeliveryState.answered (s : DeliveryState J) (n : Nat) (w : PendingWrite J) (reply : Reply J) :
    DeliveryState J :=
  { s with
    deliveries := s.deliveries.mapIdx fun i dl =>
      if i ∈ w.deliveries then dl.learn w.origin (reply.names dl.taskId) else dl
    writes := s.writes.eraseIdx n }

/-- What executing a write leaves. -/
def DeliveryState.performed (s : DeliveryState J) (n : Nat) (p : ProtocolState J)
    (reply : Reply J) : DeliveryState J :=
  { s with
    protocol := p
    writes := s.writes.modify n fun v => { v with reply := some reply } }

/-- A step of the system, as the watch of one delivery sees it: it executes a statement or a write,
it hands out a reply, it times the delivery out, or it leaves the row and the watch alone. -/
inductive SeenAs (d : Dialect) (i : Nat) (s : DeliveryState J) :
    DeliveryStep J → DeliveryState J → Prop
  | executed (e : Execution J) {s' : DeliveryState J} (hexec : Executes d e s s')
      (hwrites : s'.writes = s.writes) : SeenAs d i s (.execute e) s'
  | performed (n : Nat) (nowMs : Int) (held : String → Bool) (w : PendingWrite J)
      (p : ProtocolState J) (hw : s.writes[n]? = some w) (hnone : w.reply = none)
      (hp : protocol d s.protocol ⟨nowMs, held, w.statement⟩ = some p) :
      SeenAs d i s (.perform n nowMs held)
        (s.performed n p (Execution.reply d s.protocol.db ⟨nowMs, held, w.statement⟩))
  | answered (n : Nat) (w : PendingWrite J) (reply : Reply J) (hw : s.writes[n]? = some w)
      (hreply : w.reply = some reply) : SeenAs d i s (.answer n) (s.answered n w reply)
  | timedOut (dl : Delivery) (hdl : s.deliveries[i]? = some dl) :
      SeenAs d i s (.timeout i) (s.modify i fun dl => { dl with leaseLost := true })
  | quiet {l : DeliveryStep J} {s' : DeliveryState J} (hquiet : Quiet i s s')
      (hobserve : ∀ v : Watch J, v.system = s → v.observe i l s' = { v with system := s' }) :
      SeenAs d i s l s'

/-- The steps of the system, as the watch of one delivery sees them. -/
theorem seenAs_of_step {d : Dialect} {i : Nat} {s s' : DeliveryState J} {l : DeliveryStep J}
    (h : delivering d s l = some s') : SeenAs d i s l s' := by
  cases l with
  | execute e =>
      rcases Option.bind_eq_some_iff.mp h with ⟨p, hp, hs⟩
      cases hs
      exact .executed e ⟨hp, rfl⟩ rfl
  | contextWrite j write =>
      rcases Option.bind_eq_some_iff.mp h with ⟨dl, hdl, hs⟩
      split at hs
      · rename_i hlive
        cases hs
        refine .quiet ?_ fun _ _ => rfl
        refine (Quiet.refl i s).issue ((LocalStep.refl s).issue hdl
          (Delivery.not_closed_of_live hlive) _ _ rfl) fun hsettles => ?_
        exact ⟨_, _, _, rfl, hsettles⟩
      · cases hs
  | heartbeat workerId candidates leaseMs =>
      simp only [delivering] at h
      split at h
      · cases h
      · cases h
        refine .quiet ?_ fun _ _ => rfl
        refine (Quiet.refl i s).issue (LocalStep.heartbeat s workerId candidates leaseMs) ?_
        intro hsettles
        cases hsettles
  | succeedOne j result =>
      rcases Option.bind_eq_some_iff.mp h with ⟨dl, hdl, hs⟩
      split at hs
      · rename_i hgate
        cases hs
        refine .quiet ?_ fun _ _ => rfl
        refine (Quiet.of_modify .finished hdl dl.evolves_finished).issue
          ((LocalStep.of_modify hdl dl.evolves_finished).issue hdl ?_ _ _ rfl) fun _ => ?_
        · simp [Delivery.Closed, hgate.1, hgate.2]
        · exact ⟨_, _, _, rfl, rfl⟩
      · cases hs
  | selectFail j =>
      rcases Option.bind_eq_some_iff.mp h with ⟨dl, hdl, hs⟩
      split at hs
      · rename_i hgate
        cases hs
        exact .quiet (Quiet.of_modify .failing hdl (dl.evolves_failing hgate.1 hgate.2))
          fun _ _ => rfl
      · cases hs
  | safeFail j error retryable delayMs =>
      rcases Option.bind_eq_some_iff.mp h with ⟨dl, hdl, hs⟩
      split at hs
      · rename_i hgate
        cases hs
        refine .quiet ?_ fun _ _ => rfl
        refine (Quiet.of_modify .finished hdl dl.evolves_finished).issue
          ((LocalStep.of_modify hdl dl.evolves_finished).issue hdl ?_ _ _ rfl) fun _ => ?_
        · simp [Delivery.Closed, hgate]
        · exact ⟨_, _, _, rfl, rfl⟩
      · cases hs
  | finish j =>
      rcases Option.bind_eq_some_iff.mp h with ⟨dl, hdl, hs⟩
      split at hs
      · cases hs
        exact .quiet (Quiet.of_modify .finished hdl dl.evolves_finished) fun _ _ => rfl
      · cases hs
  | timeout j =>
      cases h
      cases hdl : s.deliveries[j]? with
      | none =>
          refine .quiet ?_ fun v hv => ?_
          · simp only [DeliveryState.modify, List.modify_eq_self (List.getElem?_eq_none_iff.mp hdl)]
            exact Quiet.refl i s
          · have habsent : (decide (j = i) && v.system.deliveries[i]?.isSome) = false := by
              by_cases hji : j = i
              · rw [← hji, hv, hdl]
                simp
              · simp [hji]
            simp only [Watch.observe, habsent, Bool.or_false]
      | some dl =>
          by_cases hji : j = i
          · subst hji
            exact .timedOut dl hdl
          · refine .quiet ⟨LocalStep.of_modify hdl dl.evolves_leaseLost, fun dl' hdl' => ?_,
              List.Sublist.refl _, fun w hw => Or.inl hw⟩ fun v hv => ?_
            · simp only [DeliveryState.modify, List.getElem?_modify, if_neg hji,
                Option.map_eq_map, Option.map_id'] at hdl'
              exact ⟨dl', hdl', rfl, rfl, rfl⟩
            · simp [Watch.observe, hji]
  | perform n nowMs held =>
      rcases perform_cases h with ⟨w, p, hw, hnone, hp, hs⟩
      rw [hs]
      exact .performed n nowMs held w p hw hnone hp
  | answer n =>
      rcases Option.bind_eq_some_iff.mp h with ⟨w, hw, hrest⟩
      rcases Option.bind_eq_some_iff.mp hrest with ⟨reply, hreply, hs⟩
      cases hs
      exact .answered n w reply hw hreply
  | forget n =>
      cases h
      have hkept : ∀ w ∈ s.writes.eraseIdx n, w ∈ s.writes := fun _ hw =>
        List.mem_of_mem_eraseIdx hw
      have hlocal : LocalStep s { s with writes := s.writes.eraseIdx n } :=
        { LocalStep.refl s with writes := fun w hw => Or.inl (hkept w hw) }
      exact .quiet ⟨hlocal, fun dl hdl => ⟨dl, hdl, rfl, rfl, rfl⟩,
        (List.eraseIdx_sublist _ _).filter _, fun w hw => Or.inl (hkept w hw)⟩ fun _ _ => rfl

end CairnQ
