import CairnQ.Worker.Delivery
import CairnQ.Transition.Slots

/-!
# Per-attempt fencing

A write on behalf of a delivery is fenced when it changes the row of its task only
while the row still runs that very delivery.  Ownership is checked by worker id and
lease alone, so what separates two deliveries of a task to the same worker is the
worker's own bookkeeping: the flags of the earlier context.

The bookkeeping does not always suffice.  A lease can run out without the context
noticing, and the worker's own sweep and claim then deliver the task to it again
while the earlier handler still writes.

Main results:

- Theorem `fencing`: in every run in which a worker is only given a task again once
  its earlier deliveries of the task are closed, every write is fenced.
- Theorem `fencing_fails`: a run in which a worker settles the second delivery of a
  task through the context of the first.
-/

namespace CairnQ

open Relational Transition

variable {J : Type}

/-! ## The property and the condition -/

/-- The n-th unanswered write, executed now, changes no row but those of its deliveries,
and each of them only while the row runs that delivery: it is running, under the worker
and the attempt of the delivery, and no later delivery of the task was made. -/
def Fenced (d : Dialect) (s : DeliveryState J) (n : Nat) (nowMs : Int) (held : String → Bool) :
    Prop :=
  ∀ w, s.writes[n]? = some w →
    let reply := (exec d held nowMs w.statement s.protocol.db).2
    (∀ id, reply.names id = true →
      ∃ i ∈ w.deliveries, ∃ dl, s.deliveries[i]? = some dl ∧ dl.taskId = id) ∧
    ∀ i ∈ w.deliveries, ∀ dl, s.deliveries[i]? = some dl → reply.names dl.taskId = true →
      (∃ t, s.protocol.db.get dl.taskId = some t ∧ t.status = .running ∧
        t.workerId = some dl.workerId ∧ t.attempt = dl.attempt) ∧
      ∀ (j : Nat) dl', s.deliveries[j]? = some dl' → dl'.taskId = dl.taskId → j ≤ i

/-- A claim gives a worker no task of which an earlier delivery to it is still open. -/
def ClaimsClosed (d : Dialect) (s : DeliveryState J) : DeliveryStep J → Prop
  | .execute e =>
      match e.statement with
      | .claim _ w _ _ => ∀ (i : Nat) dl, s.deliveries[i]? = some dl → dl.workerId = w →
          (e.reply d s.protocol.db).names dl.taskId = true → s.Closed i
      | _ => True
  | _ => True

/-! ## The invariant -/

/-- What holds of the deliveries of every guarded run. -/
structure DeliveryInvariant (s : DeliveryState J) : Prop where
  /-- a running row runs the last delivery of its task -/
  latest : ∀ id t w, s.protocol.db.get id = some t → t.status = .running → t.workerId = some w →
    ∃ (i : Nat) (dl : Delivery), s.deliveries[i]? = some dl ∧ dl.taskId = id ∧ dl.workerId = w ∧
      dl.attempt = t.attempt ∧
        ∀ (j : Nat) dl', s.deliveries[j]? = some dl' → dl'.taskId = id → j ≤ i
  /-- a delivery is closed before the task is delivered to the same worker again -/
  superseded : ∀ (i j : Nat) dl dl', s.deliveries[i]? = some dl → s.deliveries[j]? = some dl' →
    i < j → dl'.taskId = dl.taskId → dl'.workerId = dl.workerId → s.Closed i
  /-- the unanswered writes are about their deliveries -/
  about : ∀ w ∈ s.writes, w.About s

theorem DeliveryInvariant.fresh (clockMs : Int) :
    DeliveryInvariant (J := J) (DeliveryState.fresh clockMs) where
  latest id t w ht := by cases ht
  superseded i j dl dl' hi := by simp [DeliveryState.fresh] at hi
  about w hw := by cases hw

/-! ### Local steps -/

/-- A delivery after a local step was there before. -/
theorem LocalStep.before {s s' : DeliveryState J} (h : LocalStep s s') {i : Nat} {dl' : Delivery}
    (hi : s'.deliveries[i]? = some dl') :
    ∃ dl, s.deliveries[i]? = some dl ∧ dl.Evolves dl' := by
  rcases h.deliveries i with ⟨-, hnone⟩ | ⟨dl, dl'', hdl, hdl'', hevolves⟩
  · rw [hi] at hnone
    cases hnone
  · rw [hi] at hdl''
    cases hdl''
    exact ⟨dl, hdl, hevolves⟩

/-- A delivery before a local step is there afterwards. -/
theorem LocalStep.after {s s' : DeliveryState J} (h : LocalStep s s') {i : Nat} {dl : Delivery}
    (hi : s.deliveries[i]? = some dl) :
    ∃ dl', s'.deliveries[i]? = some dl' ∧ dl.Evolves dl' := by
  rcases h.deliveries i with ⟨hnone, -⟩ | ⟨dl₀, dl', hdl₀, hdl', hevolves⟩
  · rw [hi] at hnone
    cases hnone
  · rw [hi] at hdl₀
    cases hdl₀
    exact ⟨dl', hdl', hevolves⟩

/-- A write stays about its deliveries for as long as they keep their identity. -/
theorem PendingWrite.About.of_deliveries {s s' : DeliveryState J} {w : PendingWrite J}
    (h : w.About s)
    (hafter : ∀ (i : Nat) dl, s.deliveries[i]? = some dl → ∃ dl' : Delivery,
      s'.deliveries[i]? = some dl' ∧ dl'.taskId = dl.taskId ∧ dl'.workerId = dl.workerId) :
    w.About s' where
  checksOwner i hi := by
    rcases h.checksOwner i hi with ⟨dl, hdl, howner⟩
    rcases hafter i dl hdl with ⟨dl', hdl', htask, hworker⟩
    exact ⟨dl', hdl', by rw [htask, hworker]; exact howner⟩
  addressed id hid := by
    rcases h.addressed id hid with ⟨i, hi, dl, hdl, htask⟩
    rcases hafter i dl hdl with ⟨dl', hdl', htask', -⟩
    exact ⟨i, hi, dl', hdl', htask'.trans htask⟩
  kind := h.kind

/-- After a local step the unanswered writes are about their deliveries. -/
theorem LocalStep.about {s s' : DeliveryState J} (hlocal : LocalStep s s')
    (h : ∀ w ∈ s.writes, w.About s) : ∀ w ∈ s'.writes, w.About s' := by
  intro w hw
  have hkept : ∀ (i : Nat) dl, s.deliveries[i]? = some dl → ∃ dl' : Delivery,
      s'.deliveries[i]? = some dl' ∧ dl'.taskId = dl.taskId ∧ dl'.workerId = dl.workerId := by
    intro i dl hdl
    rcases hlocal.after hdl with ⟨dl', hdl', hevolves⟩
    exact ⟨dl', hdl', hevolves.taskId, hevolves.workerId⟩
  rcases hlocal.writes w hw with hold | ⟨habout, -⟩
  · exact (h w hold).of_deliveries hkept
  · exact habout.of_deliveries hkept

theorem DeliveryInvariant.of_localStep {s s' : DeliveryState J} (h : DeliveryInvariant s)
    (hlocal : LocalStep s s') : DeliveryInvariant s' where
  latest id t w ht hrunning hworker := by
    rw [hlocal.protocol_eq] at ht
    rcases h.latest id t w ht hrunning hworker with ⟨i, dl, hdl, htask, hw, hattempt, hlast⟩
    rcases hlocal.after hdl with ⟨dl', hdl', hevolves⟩
    refine ⟨i, dl', hdl', hevolves.taskId.trans htask, hevolves.workerId.trans hw,
      hevolves.attempt.trans hattempt, ?_⟩
    intro j e' he' htask'
    rcases hlocal.before he' with ⟨e, he, hevolves'⟩
    exact hlast j e he (hevolves'.taskId.symm.trans htask')
  superseded i j dl dl' hi hj hij htask hworker := by
    rcases hlocal.before hi with ⟨e, he, hevolves⟩
    rcases hlocal.before hj with ⟨e', he', hevolves'⟩
    have hclosed := h.superseded i j e e' he he' hij
      (by rw [← hevolves.taskId, ← hevolves'.taskId, htask])
      (by rw [← hevolves.workerId, ← hevolves'.workerId, hworker])
    constructor
    · intro c hc
      rw [hi] at hc
      cases hc
      exact hevolves.closed (hclosed.1 e he)
    · intro w hw hmem
      rcases hlocal.writes w hw with hold | ⟨-, hopen⟩
      · exact hclosed.2 w hold hmem
      · exact absurd (hclosed.1 e he) (hopen i hmem e he)
  about := hlocal.about h.about

/-! ### Executed statements -/

/-- A row that runs after a statement other than a claim ran before, as the same attempt
under the same worker. -/
theorem running_before {d : Dialect} {p p' : ProtocolState J} {e : Execution J}
    (hstep : protocol d p e = some p') {id : String} {t' : Task J} (ht' : p'.db.get id = some t')
    (hrunning : t'.status = .running) :
    (∃ t, p.db.get id = some t ∧ t.status = .running ∧ t.workerId = t'.workerId ∧
      t.attempt = t'.attempt ∧ ((e.reply d p.db).names id = false ∨
        ∀ filter w leaseMs limit, e.statement ≠ .claim filter w leaseMs limit)) ∨
    ((e.reply d p.db).names id = true ∧ ∃ filter w leaseMs limit,
      e.statement = .claim filter w leaseMs limit ∧ t'.workerId = some w) := by
  rcases get_of_step hstep ht' with ⟨ht, hnames⟩ | ⟨t, ht, heff, hnames⟩ | ⟨-, ⟨n, -, rfl⟩, -⟩
  · exact Or.inl ⟨t', ht, hrunning, rfl, rfl, Or.inl hnames⟩
  · rcases heff.of_running hrunning with
      ⟨filter, w, leaseMs, limit, hst, hworker⟩ | ⟨hstatus, hworker, hattempt, hnot⟩
    · exact Or.inr ⟨hnames, filter, w, leaseMs, limit, hst, hworker⟩
    · exact Or.inl ⟨t, ht, hstatus, hworker.symm, hattempt.symm, Or.inr hnot⟩
  · cases hrunning

/-- The deliveries a statement makes are of the rows it names, each with the attempt and
the worker the row has afterwards. -/
theorem mem_newDeliveries {d : Dialect} {p p' : ProtocolState J} {e : Execution J}
    (hstep : protocol d p e = some p') {k : Nat} {dl : Delivery}
    (hk : (newDeliveries e.statement (e.reply d p.db))[k]? = some dl) :
    (e.reply d p.db).names dl.taskId = true ∧
      (∃ filter leaseMs limit, e.statement = .claim filter dl.workerId leaseMs limit) ∧
      ∃ t, p'.db.get dl.taskId = some t ∧ dl.attempt = t.attempt := by
  cases hst : e.statement with
  | claim filter w leaseMs limit =>
      rw [hst] at hk
      simp only [newDeliveries, List.getElem?_map] at hk
      rcases Option.map_eq_some_iff.mp hk with ⟨r, hr, rfl⟩
      have hmem := List.mem_of_getElem? hr
      refine ⟨?_, ⟨filter, leaseMs, limit, rfl⟩, r, (get_of_mem_rows hstep hmem).1, rfl⟩
      rw [Execution.reply, exec_eq, hst] at hmem ⊢
      exact ((Postgres.exec_claim_rows ..).2 _).mpr ⟨r, hmem, rfl⟩
  | _ =>
      rw [hst] at hk
      simp [newDeliveries] at hk

/-- One statement delivers a task at most once. -/
theorem newDeliveries_injective {d : Dialect} {db : Database J} {e : Execution J} {j k : Nat}
    {dl dl' : Delivery} (hj : (newDeliveries e.statement (e.reply d db))[j]? = some dl)
    (hk : (newDeliveries e.statement (e.reply d db))[k]? = some dl')
    (htask : dl.taskId = dl'.taskId) : j = k := by
  cases hst : e.statement with
  | claim filter w leaseMs limit =>
      rw [hst] at hj hk
      have hnodup : ((newDeliveries (.claim filter w leaseMs limit) (e.reply d db)).map
          Delivery.taskId).Nodup := by
        rw [newDeliveries, List.map_map, Execution.reply, exec_eq, hst]
        exact (Postgres.exec_claim_rows ..).1
      have hbound := (List.getElem?_eq_some_iff.mp hj).1
      refine (List.getElem?_inj (by rwa [List.length_map]) hnodup).mp ?_
      simp [hj, hk, htask]
  | _ =>
      rw [hst] at hj
      simp [newDeliveries] at hj

/-- An executed statement keeps the invariant when its claims give a worker only tasks
whose earlier deliveries to it are closed. -/
theorem DeliveryInvariant.of_execute {d : Dialect} {s : DeliveryState J} {e : Execution J}
    {p : ProtocolState J} (h : DeliveryInvariant s)
    (hguard : ClaimsClosed d s (.execute e)) (hstep : protocol d s.protocol e = some p) :
    DeliveryInvariant { s with
      protocol := p
      deliveries := s.deliveries ++ newDeliveries e.statement (e.reply d s.protocol.db) } := by
  -- a delivery is an old one, or made by the statement
  have hsplit : ∀ (i : Nat) dl, (s.deliveries ++ newDeliveries e.statement
      (e.reply d s.protocol.db))[i]? = some dl → s.deliveries[i]? = some dl ∨
      (s.deliveries.length ≤ i ∧ (newDeliveries e.statement
        (e.reply d s.protocol.db))[i - s.deliveries.length]? = some dl) := by
    intro i dl hi
    rw [List.getElem?_append] at hi
    split at hi
    · exact Or.inl hi
    · exact Or.inr ⟨by omega, hi⟩
  have hold : ∀ (i : Nat) dl, s.deliveries[i]? = some dl → (s.deliveries ++ newDeliveries
      e.statement (e.reply d s.protocol.db))[i]? = some dl := by
    intro i dl hi
    rw [List.getElem?_append_left (List.getElem?_eq_some_iff.mp hi).1]
    exact hi
  constructor
  · intro id t w ht hrunning hworker
    rcases running_before hstep ht hrunning with
      ⟨t₀, ht₀, hstatus, hworker₀, hattempt₀, hcase⟩ | ⟨hnames, filter, v, leaseMs, limit, hst, hv⟩
    · rcases h.latest id t₀ w ht₀ hstatus (hworker₀.trans hworker) with
        ⟨i, dl, hdl, htask, hw, hattempt, hlast⟩
      refine ⟨i, dl, hold i dl hdl, htask, hw, hattempt.trans hattempt₀, ?_⟩
      intro j dl' hj htask'
      rcases hsplit j dl' hj with hj | ⟨-, hj⟩
      · exact hlast j dl' hj htask'
      · -- no new delivery is of this task
        rcases mem_newDeliveries hstep hj with ⟨hnamed, ⟨filter, leaseMs, limit, hst⟩, -⟩
        rcases hcase with hnot | hnot
        · rw [htask', hnot] at hnamed
          cases hnamed
        · exact absurd hst (hnot _ _ _ _)
    · -- the statement delivered the row
      rw [hworker] at hv
      cases hv
      have hrow : ∃ r ∈ (e.reply d s.protocol.db).rows, r.id = id := by
        rw [Execution.reply, exec_eq, hst] at hnames ⊢
        exact ((Postgres.exec_claim_rows ..).2 id).mp hnames
      rcases hrow with ⟨r, hr, rfl⟩
      have hget := (get_of_mem_rows hstep hr).1
      rw [ht] at hget
      cases hget
      rcases List.mem_iff_getElem?.mp hr with ⟨k, hk⟩
      have hnew : (newDeliveries e.statement (e.reply d s.protocol.db))[k]? =
          some (deliveryOf w t) := by
        rw [hst, newDeliveries, List.getElem?_map, hk]
        rfl
      refine ⟨s.deliveries.length + k, deliveryOf w t, ?_, rfl, rfl, rfl, ?_⟩
      · rw [List.getElem?_append_right (by omega), Nat.add_sub_cancel_left]
        exact hnew
      · intro j dl' hj htask'
        rcases hsplit j dl' hj with hj | ⟨hle, hj⟩
        · have := (List.getElem?_eq_some_iff.mp hj).1
          omega
        · have := newDeliveries_injective hj hnew htask'
          omega
  · intro i j dl dl' hi hj hij htask hworker
    rcases hsplit i dl hi with hi | ⟨hlei, hi⟩ <;> rcases hsplit j dl' hj with hj | ⟨hlej, hj⟩
    · have hclosed := h.superseded i j dl dl' hi hj hij htask hworker
      refine ⟨fun c hc => hclosed.1 c ?_, hclosed.2⟩
      rw [hold i dl hi] at hc
      cases hc
      exact hi
    · rcases mem_newDeliveries hstep hj with ⟨hnames, ⟨filter, leaseMs, limit, hst⟩, -⟩
      simp only [ClaimsClosed, hst] at hguard
      have hclosed := hguard i dl hi hworker.symm (htask ▸ hnames)
      refine ⟨fun c hc => hclosed.1 c ?_, hclosed.2⟩
      rw [hold i dl hi] at hc
      cases hc
      exact hi
    · have := (List.getElem?_eq_some_iff.mp hj).1
      omega
    · have := newDeliveries_injective hi hj htask.symm
      omega
  · intro w hw
    exact (h.about w hw).of_deliveries fun i dl hdl => ⟨dl, hold i dl hdl, rfl, rfl⟩

/-- An executed write keeps the invariant. -/
theorem DeliveryInvariant.of_perform {d : Dialect} {s : DeliveryState J} {n : Nat} {nowMs : Int}
    {held : String → Bool} {w : PendingWrite J} {p : ProtocolState J} {reply : Reply J}
    (h : DeliveryInvariant s) (hw : s.writes[n]? = some w)
    (hstep : protocol d s.protocol ⟨nowMs, held, w.statement⟩ = some p) :
    DeliveryInvariant { s with
      protocol := p
      writes := s.writes.modify n fun v => { v with reply := some reply } } := by
  have habout := h.about w (List.mem_of_getElem? hw)
  have hwrites : ∀ v ∈ s.writes.modify n fun v => { v with reply := some reply },
      v ∈ s.writes ∨ v = { w with reply := some reply } := fun _ => mem_modify hw
  constructor
  · intro id t v ht hrunning hworker
    rcases running_before hstep ht hrunning with
      ⟨t₀, ht₀, hstatus, hworker₀, hattempt₀, -⟩ | ⟨-, filter, u, leaseMs, limit, hst, -⟩
    · rcases h.latest id t₀ v ht₀ hstatus (hworker₀.trans hworker) with
        ⟨i, dl, hdl, htask, hv, hattempt, hlast⟩
      exact ⟨i, dl, hdl, htask, hv, hattempt.trans hattempt₀, hlast⟩
    · rcases habout.kind with ⟨_, _, _, hkind⟩ | ⟨_, _, _, hkind⟩ <;> simp [hkind] at hst
  · intro i j dl dl' hi hj hij htask hworker
    have hclosed := h.superseded i j dl dl' hi hj hij htask hworker
    refine ⟨hclosed.1, fun v hv hmem => ?_⟩
    rcases hwrites v hv with hv | rfl
    · exact hclosed.2 v hv hmem
    · rfl
  · intro v hv
    rcases hwrites v hv with hv | rfl
    · exact ⟨(h.about v hv).checksOwner, (h.about v hv).addressed, (h.about v hv).kind⟩
    · exact ⟨habout.checksOwner, habout.addressed, habout.kind⟩

theorem DeliveryInvariant.of_step {d : Dialect} {s s' : DeliveryState J} {l : DeliveryStep J}
    (h : DeliveryInvariant s) (hguard : ClaimsClosed d s l)
    (hstep : delivering d s l = some s') : DeliveryInvariant s' := by
  rcases deliveryStep_cases hstep with
    ⟨e, p, rfl, hp, rfl⟩ | ⟨n, nowMs, held, w, p, rfl, hw, hp, rfl⟩ | hlocal
  · exact h.of_execute hguard hp
  · exact h.of_perform hw hp
  · exact h.of_localStep hlocal

/-! ## Fencing -/

/-- The invariant fences every write that is still to be executed. -/
theorem DeliveryInvariant.fenced {d : Dialect} {s : DeliveryState J} (h : DeliveryInvariant s)
    {n : Nat} {nowMs : Int} {held : String → Bool} {w : PendingWrite J}
    (hw : s.writes[n]? = some w) (hreply : w.reply = none) : Fenced d s n nowMs held := by
  intro w' hw'
  rw [hw] at hw'
  cases hw'
  have habout := h.about w (List.mem_of_getElem? hw)
  constructor
  · intro id hnames
    refine habout.addressed id ?_
    rcases habout.kind with ⟨_, _, _, hst⟩ | ⟨_, _, _, hst⟩ <;> rw [hst] at hnames ⊢
    · exact decide_eq_true (exec_owned_names hnames).symm
    · exact decide_eq_true (exec_heartbeatBatch_names hnames)
  · intro i hi dl hdl hnames
    rcases habout.checksOwner i hi with ⟨dl₀, hdl₀, howner⟩
    rw [hdl] at hdl₀
    cases hdl₀
    rcases (exec_checksOwner_names howner).mp hnames with ⟨t, ht, hrunning, hworker, -⟩
    rcases h.latest dl.taskId t dl.workerId ht hrunning hworker with
      ⟨k, dk, hk, htask, hwk, hattempt, hlast⟩
    have hik : i = k := by
      by_contra hne
      have hle := hlast i dl hdl rfl
      -- an earlier delivery to the same worker is closed, so its writes are executed
      have hclosed := h.superseded i k dl dk hdl hk (by omega) htask hwk
      have hdone := hclosed.2 w (List.mem_of_getElem? hw) hi
      rw [hreply] at hdone
      cases hdone
    subst hik
    rw [hdl] at hk
    cases hk
    exact ⟨⟨t, ht, hrunning, hworker, hattempt.symm⟩, hlast⟩

/-- Per-attempt fencing.  In every run in which a claim gives a worker a task only once the
worker's earlier deliveries of the task are closed, every write that is executed on behalf
of deliveries changes their rows only, and each of them only while the row runs that
delivery. -/
theorem fencing {d : Dialect} {clockMs : Int} {s s' : DeliveryState J} {n : Nat} {nowMs : Int}
    {held : String → Bool}
    (hreach : (delivering d).Reachable (ClaimsClosed d) (DeliveryState.fresh clockMs) s)
    (hstep : delivering d s (.perform n nowMs held) = some s') : Fenced d s n nowMs held := by
  have hinvariant : DeliveryInvariant s :=
    hreach.invariant (fun _ _ _ h hguard hstep => h.of_step hguard hstep)
      (DeliveryInvariant.fresh clockMs)
  rcases perform_cases hstep with ⟨w, p, hw, hreply, -⟩
  exact hinvariant.fenced hw hreply

/-- A delivery is failed by its handler, and the task is delivered to the same worker
again once the context knows. -/
def refailedRun : List (DeliveryStep Nat) :=
  [.execute (.alone 0 (.insertTask (.plain "t" "work" 3 0))),
    .execute (.alone 1 (.claim (.claimOneQueue "default" none) "w" 10 1)),
    .contextWrite 0 (.fail 7 true 0),
    .perform 0 2 unlocked,
    .answer 0,
    .execute (.alone 3 (.claim (.claimOneQueue "default" none) "w" 10 1)),
    .contextWrite 1 (.progress (some (.finite 1)) none)]

/-- The progress of the second delivery is fenced. -/
theorem fencing_refailedRun :
    Fenced .sqlite ((delivering .sqlite).drive (DeliveryState.fresh 0) refailedRun) 0 4 unlocked := by
  have hsteps : (delivering .sqlite).Steps (ClaimsClosed .sqlite) (DeliveryState.fresh 0)
      refailedRun ((delivering .sqlite).drive (DeliveryState.fresh 0) refailedRun) := by
    refine .cons trivial rfl (.cons ?_ rfl (.cons trivial rfl (.cons trivial rfl (.cons trivial rfl
      (.cons ?_ rfl (.cons trivial rfl (.nil _)))))))
    · intro i dl hi
      cases hi
    · -- the context learned that it is settled
      rintro (_ | i) dl hi - -
      · exact ⟨fun c hc => by cases hc; exact ⟨by decide, Or.inl rfl⟩, fun w hw => by cases hw⟩
      · cases hi
  exact fencing ⟨_, hsteps⟩ rfl

/-- The lease of a delivery runs out unnoticed; the worker's own sweep and claim deliver the
task to it again; then the first handler succeeds. -/
def reclaimedRun : List (DeliveryStep Nat) :=
  [.execute (.alone 0 (.insertTask (.plain "t" "work" 3 0))),
    .execute (.alone 1 (.claim (.claimOneQueue "default" none) "w" 10 1)),
    .execute (.alone 11 (.recoverLeases 8)),
    .execute (.alone 12 (.claim (.claimOneQueue "default" none) "w" 10 1)),
    .contextWrite 0 (.complete (some 7))]

/-- Per-attempt fencing fails: the context of the first delivery settles the second. -/
theorem fencing_fails :
    ∃ s s' : DeliveryState Nat,
      (delivering .sqlite).Reachable anyStep (DeliveryState.fresh 0) s ∧
      delivering .sqlite s (.perform 0 13 unlocked) = some s' ∧
      (s.deliveries[0]?.map Delivery.attempt = some 1 ∧
        (s.protocol.db.get "t").map Task.attempt = some 2) ∧
      (s'.protocol.db.get "t").map Task.status = some .succeeded ∧
      ¬Fenced .sqlite s 0 13 unlocked := by
  refine ⟨(delivering .sqlite).drive (DeliveryState.fresh 0) reclaimedRun, _,
    Machine.reachable_drive _ _ _ fun _ _ _ => trivial, rfl, ⟨rfl, rfl⟩, rfl, ?_⟩
  intro hfenced
  have hlast := ((hfenced _ rfl).2 0 (List.mem_singleton_self 0) _ rfl rfl).2
  have := hlast 1 _ rfl rfl
  omega

end CairnQ
