import CairnQ.Protocol.Leases

/-!
# Deliveries

What the worker process does for the tasks its claims returned.  Each returned row
becomes a delivery: a `TaskContext` with its two flags, and the part of `_run_call`
that settles it.  The ownership-checked writes of a delivery are issued, executed
and answered in separate steps, and everything else (other workers, other
statements, recoveries, the clock) may happen in between.

A delivery is closed when nothing can be written on its behalf any more.

Main results:

- Theorem `deliveryStep_cases`: what one step of the system changes.
- Theorem `Delivery.evolves_learn`: an answer keeps a closed delivery closed.
-/

namespace CairnQ

open Relational Transition

variable {J : Type}

/-! ## State -/

/-- How far `_run_call` has come with one of its tasks. -/
inductive CallPhase
  /-- the handler runs, or the worker has yet to decide the task -/
  | running
  /-- chosen for `_safe_fail`, whose statement is not issued yet -/
  | failing
  /-- the worker issued its own settlement, or has nothing to settle -/
  | finished
deriving DecidableEq, Repr

/-- A `TaskContext` and the part of `_run_call` that belongs to it. -/
structure Delivery where
  workerId : String
  taskId : String
  attempt : Int
  leaseLost : Bool
  settled : Bool
  phase : CallPhase
deriving DecidableEq, Repr

/-- Which code path issued a write, and so what its answer is read for. -/
inductive WriteOrigin
  /-- `TaskContext._owned`; `succeed` and `fail` settle the context -/
  | context (settles : Bool)
  | heartbeatLoop
  | succeedOne
  | safeFail
deriving DecidableEq, Repr

/-- An ownership-checked write on behalf of deliveries, given by their position. -/
structure PendingWrite (J : Type) where
  origin : WriteOrigin
  deliveries : List Nat
  statement : Statement J
  reply : Option (Reply J)
deriving DecidableEq, Repr

/-- The database, every delivery made so far in order, and the unanswered writes. -/
structure DeliveryState (J : Type) where
  protocol : ProtocolState J
  deliveries : List Delivery
  writes : List (PendingWrite J)

/-- A fresh database and no delivery. -/
def DeliveryState.fresh (clockMs : Int) : DeliveryState J where
  protocol := ProtocolState.fresh clockMs
  deliveries := []
  writes := []

/-! ## Steps -/

/-- `_context`: the context of a claimed task. -/
def deliveryOf (workerId : String) (t : Task J) : Delivery where
  workerId := workerId
  taskId := t.id
  attempt := t.attempt
  leaseLost := false
  settled := false
  phase := .running

/-- The deliveries a statement makes: one for each row a claim returned. -/
def newDeliveries : Statement J → Reply J → List Delivery
  | .claim _ workerId _ _, reply => reply.rows.map (deliveryOf workerId)
  | _, _ => []

/-- The gate of `TaskContext._owned` and the filter of `_heartbeat_loop`. -/
def Delivery.live (d : Delivery) : Bool :=
  !d.settled && !d.leaseLost

/-- The writes after which `TaskContext` marks itself settled. -/
def OwnedWrite.isSettlement : OwnedWrite J → Bool
  | .heartbeat _ | .progress _ _ => false
  | .complete _ | .succeed _ _ | .fail _ _ _ => true

/-- What a delivery learns from the answer to a write on its behalf. -/
def Delivery.learn (d : Delivery) (origin : WriteOrigin) (named : Bool) : Delivery :=
  match origin, named with
  | .context true, true | .succeedOne, true | .safeFail, true => { d with settled := true }
  | .context _, false | .succeedOne, false => { d with leaseLost := true }
  | .heartbeatLoop, false => if d.settled then d else { d with leaseLost := true }
  | .context false, true | .heartbeatLoop, true | .safeFail, false => d

/-- A label of the system. -/
inductive DeliveryStep (J : Type)
  /-- anyone executes a statement; the rows of a claim become deliveries -/
  | execute (e : Execution J)
  /-- a handler writes through its context -/
  | contextWrite (i : Nat) (write : OwnedWrite J)
  /-- `_heartbeat_loop` beats for those of the given deliveries that are live -/
  | heartbeat (workerId : String) (candidates : List Nat) (leaseMs : Int)
  /-- `_succeed_one` -/
  | succeedOne (i : Nat) (result : Option J)
  /-- `_settle_each` picks a delivery for `_safe_fail` -/
  | selectFail (i : Nat)
  /-- `_safe_fail` -/
  | safeFail (i : Nat) (error : J) (retryable : Bool) (delayMs : Int)
  /-- `_run_call` has nothing to settle for a delivery -/
  | finish (i : Nat)
  /-- `_attempt` abandons a delivery on timeout -/
  | timeout (i : Nat)
  /-- the store executes the n-th unanswered write -/
  | perform (n : Nat) (nowMs : Int) (held : String → Bool)
  /-- the issuer reads the answer to the n-th write -/
  | answer (n : Nat)
  /-- the issuer of the n-th write is gone, or got an error that says nothing -/
  | forget (n : Nat)

namespace DeliveryState

/-- Change one delivery. -/
def modify (s : DeliveryState J) (i : Nat) (f : Delivery → Delivery) : DeliveryState J :=
  { s with deliveries := s.deliveries.modify i f }

/-- Hand a write to the store. -/
def issue (s : DeliveryState J) (origin : WriteOrigin) (deliveries : List Nat)
    (statement : Statement J) : DeliveryState J :=
  { s with writes := s.writes ++
      [{ origin := origin, deliveries := deliveries, statement := statement, reply := none }] }

/-- The live candidates of one worker's heartbeat. -/
def liveOf (s : DeliveryState J) (workerId : String) (candidates : List Nat) : List Nat :=
  candidates.filter fun i =>
    s.deliveries[i]?.any fun d => decide (d.workerId = workerId) && d.live

/-- The task ids of deliveries. -/
def taskIds (s : DeliveryState J) (is : List Nat) : List String :=
  is.filterMap fun i => s.deliveries[i]?.map Delivery.taskId

end DeliveryState

/-- The system: any number of workers over one database. -/
def delivering (d : Dialect) : Machine (DeliveryState J) (DeliveryStep J) := fun s l =>
  match l with
  | .execute e => do
      let p ← protocol d s.protocol e
      let new := newDeliveries e.statement (e.reply d s.protocol.db)
      some { s with protocol := p, deliveries := s.deliveries ++ new }
  | .contextWrite i write => do
      let dl ← s.deliveries[i]?
      if dl.live then
        some (s.issue (.context write.isSettlement) [i] (.owned dl.taskId dl.workerId write))
      else none
  | .heartbeat workerId candidates leaseMs =>
      let live := s.liveOf workerId candidates
      if live = [] then none
      else some (s.issue .heartbeatLoop live (.heartbeatBatch (s.taskIds live) workerId leaseMs))
  | .succeedOne i result => do
      let dl ← s.deliveries[i]?
      if dl.phase = .running ∧ dl.settled = false then
        some ((s.modify i fun dl => { dl with phase := .finished }).issue .succeedOne [i]
          (.owned dl.taskId dl.workerId (.complete result)))
      else none
  | .selectFail i => do
      let dl ← s.deliveries[i]?
      if dl.phase = .running ∧ dl.settled = false then
        some (s.modify i fun dl => { dl with phase := .failing })
      else none
  | .safeFail i error retryable delayMs => do
      let dl ← s.deliveries[i]?
      if dl.phase = .failing then
        some ((s.modify i fun dl => { dl with phase := .finished }).issue .safeFail [i]
          (.owned dl.taskId dl.workerId (.fail error retryable delayMs)))
      else none
  | .finish i => do
      let dl ← s.deliveries[i]?
      if dl.phase = .running then some (s.modify i fun dl => { dl with phase := .finished })
      else none
  | .timeout i => some (s.modify i fun dl => { dl with leaseLost := true })
  | .perform n nowMs held => do
      let w ← s.writes[n]?
      let e : Execution J := { nowMs := nowMs, held := held, statement := w.statement }
      let p ← protocol d s.protocol e
      if w.reply.isNone then
        some { s with
          protocol := p
          writes := s.writes.modify n fun v =>
            { v with reply := some (e.reply d s.protocol.db) } }
      else none
  | .answer n => do
      let w ← s.writes[n]?
      let reply ← w.reply
      some { s with
        deliveries := s.deliveries.mapIdx fun i dl =>
          if i ∈ w.deliveries then dl.learn w.origin (reply.names dl.taskId) else dl
        writes := s.writes.eraseIdx n }
  | .forget n => some { s with writes := s.writes.eraseIdx n }

/-! ## Closed deliveries -/

/-- Neither the handler, nor the heartbeat, nor the worker writes for a delivery any more. -/
def Delivery.Closed (d : Delivery) : Prop :=
  d.phase ≠ .failing ∧ (d.settled = true ∨ (d.leaseLost = true ∧ d.phase = .finished))

/-- And no write issued earlier is still to be executed. -/
def DeliveryState.Closed (s : DeliveryState J) (i : Nat) : Prop :=
  (∀ d, s.deliveries[i]? = some d → d.Closed) ∧
    ∀ w ∈ s.writes, i ∈ w.deliveries → w.reply.isSome = true

/-- How a step changes a delivery: its identity stays, and a closed one stays closed. -/
structure Delivery.Evolves (d d' : Delivery) : Prop where
  workerId : d'.workerId = d.workerId
  taskId : d'.taskId = d.taskId
  attempt : d'.attempt = d.attempt
  closed : d.Closed → d'.Closed

theorem Delivery.Evolves.refl (d : Delivery) : d.Evolves d where
  workerId := rfl
  taskId := rfl
  attempt := rfl
  closed := id

theorem Delivery.evolves_leaseLost (d : Delivery) : d.Evolves { d with leaseLost := true } where
  workerId := rfl
  taskId := rfl
  attempt := rfl
  closed h := ⟨h.1, h.2.imp_right fun h => ⟨rfl, h.2⟩⟩

theorem Delivery.evolves_settled (d : Delivery) : d.Evolves { d with settled := true } where
  workerId := rfl
  taskId := rfl
  attempt := rfl
  closed h := ⟨h.1, Or.inl rfl⟩

theorem Delivery.evolves_finished (d : Delivery) : d.Evolves { d with phase := .finished } where
  workerId := rfl
  taskId := rfl
  attempt := rfl
  closed h := ⟨by simp, h.2.imp_right fun h => ⟨h.1, rfl⟩⟩

/-- Only an open delivery is chosen for a failure. -/
theorem Delivery.evolves_failing (d : Delivery) (hphase : d.phase = .running)
    (hsettled : d.settled = false) : d.Evolves { d with phase := .failing } where
  workerId := rfl
  taskId := rfl
  attempt := rfl
  closed h := by simp [Delivery.Closed, hphase, hsettled] at h

theorem Delivery.evolves_learn (d : Delivery) (origin : WriteOrigin) (named : Bool) :
    d.Evolves (d.learn origin named) := by
  unfold Delivery.learn
  split
  · exact d.evolves_settled
  · exact d.evolves_settled
  · exact d.evolves_settled
  · exact d.evolves_leaseLost
  · exact d.evolves_leaseLost
  · split
    · exact Evolves.refl d
    · exact d.evolves_leaseLost
  · exact Evolves.refl d
  · exact Evolves.refl d
  · exact Evolves.refl d

/-! ## What a step changes -/

/-- A write is about the tasks of its deliveries, under their worker. -/
structure PendingWrite.About (w : PendingWrite J) (s : DeliveryState J) : Prop where
  checksOwner : ∀ i ∈ w.deliveries, ∃ d, s.deliveries[i]? = some d ∧
    w.statement.ChecksOwner d.taskId d.workerId
  addressed : ∀ id, w.statement.addresses id = true →
    ∃ i ∈ w.deliveries, ∃ d, s.deliveries[i]? = some d ∧ d.taskId = id
  kind : (∃ id workerId write, w.statement = .owned id workerId write) ∨
    ∃ ids workerId leaseMs, w.statement = .heartbeatBatch ids workerId leaseMs

/-- A step that changes no row: every delivery evolves in place, and a write that is new
is about deliveries that were not closed. -/
structure LocalStep (s s' : DeliveryState J) : Prop where
  protocol_eq : s'.protocol = s.protocol
  deliveries : ∀ i : Nat, (s.deliveries[i]? = none ∧ s'.deliveries[i]? = none) ∨
    ∃ d d' : Delivery, s.deliveries[i]? = some d ∧ s'.deliveries[i]? = some d' ∧ d.Evolves d'
  writes : ∀ w ∈ s'.writes, w ∈ s.writes ∨
    (w.About s ∧ ∀ i ∈ w.deliveries, ∀ d, s.deliveries[i]? = some d → ¬d.Closed)

theorem LocalStep.of_modify {s : DeliveryState J} {i : Nat} {d : Delivery}
    {f : Delivery → Delivery} (hd : s.deliveries[i]? = some d) (hf : d.Evolves (f d)) :
    LocalStep s (s.modify i f) where
  protocol_eq := rfl
  deliveries := by
    intro j
    simp only [DeliveryState.modify, List.getElem?_modify]
    by_cases hij : i = j
    · subst hij
      exact Or.inr ⟨d, f d, hd, by simp [hd], hf⟩
    · cases hj : s.deliveries[j]? with
      | none => exact Or.inl ⟨rfl, by simp⟩
      | some dj => exact Or.inr ⟨dj, dj, rfl, by simp [hij], Delivery.Evolves.refl dj⟩
  writes := fun w hw => Or.inl hw

theorem LocalStep.refl (s : DeliveryState J) : LocalStep s s where
  protocol_eq := rfl
  deliveries := by
    intro i
    cases hi : s.deliveries[i]? with
    | none => exact Or.inl ⟨rfl, rfl⟩
    | some d => exact Or.inr ⟨d, d, rfl, rfl, Delivery.Evolves.refl d⟩
  writes := fun w hw => Or.inl hw

/-- Issuing a write for an open delivery. -/
theorem LocalStep.issue {s s' : DeliveryState J} (h : LocalStep s s') {i : Nat} {d : Delivery}
    (hd : s.deliveries[i]? = some d) (hopen : ¬d.Closed) (origin : WriteOrigin)
    (write : OwnedWrite J) (hwrites : s'.writes = s.writes) :
    LocalStep s (s'.issue origin [i] (.owned d.taskId d.workerId write)) where
  protocol_eq := h.protocol_eq
  deliveries := h.deliveries
  writes := by
    intro w hw
    simp only [DeliveryState.issue, hwrites, List.mem_append, List.mem_singleton] at hw
    rcases hw with hw | rfl
    · exact Or.inl hw
    · refine Or.inr ⟨⟨?_, ?_, Or.inl ⟨_, _, _, rfl⟩⟩, ?_⟩
      · intro j hj
        rw [List.mem_singleton] at hj
        exact ⟨d, hj ▸ hd, rfl, rfl⟩
      · intro id hid
        exact ⟨i, List.mem_singleton_self i, d, hd, (of_decide_eq_true hid).symm⟩
      · intro j hj e he
        rw [List.mem_singleton.mp hj, hd] at he
        cases he
        exact hopen

theorem Delivery.not_closed_of_live {d : Delivery} (h : d.live = true) : ¬d.Closed := by
  simp only [Delivery.live, Bool.and_eq_true, Bool.not_eq_true'] at h
  simp [Delivery.Closed, h.1, h.2]

/-- One heartbeat is about the live deliveries it lists. -/
theorem LocalStep.heartbeat (s : DeliveryState J) (workerId : String) (candidates : List Nat)
    (leaseMs : Int) : LocalStep s (s.issue .heartbeatLoop (s.liveOf workerId candidates)
      (.heartbeatBatch (s.taskIds (s.liveOf workerId candidates)) workerId leaseMs)) where
  protocol_eq := rfl
  deliveries := (LocalStep.refl s).deliveries
  writes := by
    have hlive : ∀ i ∈ s.liveOf workerId candidates, ∃ d, s.deliveries[i]? = some d ∧
        d.workerId = workerId ∧ d.live = true := by
      intro i hi
      have hi := (List.mem_filter.mp hi).2
      rcases Option.any_eq_true _ _ |>.mp hi with ⟨d, hd, h⟩
      rw [Bool.and_eq_true, decide_eq_true_eq] at h
      exact ⟨d, hd, h⟩
    intro w hw
    simp only [DeliveryState.issue, List.mem_append, List.mem_singleton] at hw
    rcases hw with hw | rfl
    · exact Or.inl hw
    · refine Or.inr ⟨⟨?_, ?_, Or.inr ⟨_, _, _, rfl⟩⟩, ?_⟩
      · intro i hi
        rcases hlive i hi with ⟨d, hd, hworker, -⟩
        refine ⟨d, hd, ?_, hworker.symm⟩
        exact List.mem_filterMap.mpr ⟨i, hi, by simp [hd]⟩
      · intro id hid
        rcases List.mem_filterMap.mp (of_decide_eq_true hid) with ⟨i, hi, htask⟩
        rcases Option.map_eq_some_iff.mp htask with ⟨d, hd, htask⟩
        exact ⟨i, hi, d, hd, htask⟩
      · intro i hi d hd
        rcases hlive i hi with ⟨d', hd', -, h⟩
        rw [hd] at hd'
        cases hd'
        exact Delivery.not_closed_of_live h

/-- Reading an answer. -/
theorem LocalStep.answer (s : DeliveryState J) (w : PendingWrite J) (reply : Reply J) (n : Nat) :
    LocalStep s { s with
      deliveries := s.deliveries.mapIdx fun i dl =>
        if i ∈ w.deliveries then dl.learn w.origin (reply.names dl.taskId) else dl
      writes := s.writes.eraseIdx n } where
  protocol_eq := rfl
  deliveries := by
    intro i
    simp only [List.getElem?_mapIdx]
    cases hi : s.deliveries[i]? with
    | none => exact Or.inl ⟨rfl, rfl⟩
    | some d =>
        refine Or.inr ⟨d, _, rfl, rfl, ?_⟩
        split
        · exact d.evolves_learn ..
        · exact Delivery.Evolves.refl d
  writes := fun v hv => Or.inl (List.mem_of_mem_eraseIdx hv)

/-- What executing an issued write changes. -/
theorem perform_cases {d : Dialect} {s s' : DeliveryState J} {n : Nat} {nowMs : Int}
    {held : String → Bool} (h : delivering d s (.perform n nowMs held) = some s') :
    ∃ w p, s.writes[n]? = some w ∧ w.reply = none ∧
      protocol d s.protocol ⟨nowMs, held, w.statement⟩ = some p ∧
      s' = { s with
        protocol := p
        writes := s.writes.modify n fun v =>
          { v with reply := some (Execution.reply d s.protocol.db ⟨nowMs, held, w.statement⟩) } } := by
  rcases Option.bind_eq_some_iff.mp h with ⟨w, hw, hrest⟩
  rcases Option.bind_eq_some_iff.mp hrest with ⟨p, hp, hs⟩
  split at hs
  · rename_i hnone
    exact ⟨w, p, hw, by simpa using hnone, hp, (Option.some.inj hs).symm⟩
  · cases hs

/-- What one step of the system changes: a statement is executed and its claimed rows
become deliveries, an issued write is executed, or only the worker's own state changes. -/
theorem deliveryStep_cases {d : Dialect} {s s' : DeliveryState J} {l : DeliveryStep J}
    (h : delivering d s l = some s') :
    (∃ e p, l = .execute e ∧ protocol d s.protocol e = some p ∧
      s' = { s with
        protocol := p
        deliveries := s.deliveries ++ newDeliveries e.statement (e.reply d s.protocol.db) }) ∨
    (∃ n nowMs held w p, l = .perform n nowMs held ∧ s.writes[n]? = some w ∧
      protocol d s.protocol ⟨nowMs, held, w.statement⟩ = some p ∧
      s' = { s with
        protocol := p
        writes := s.writes.modify n fun v =>
          { v with reply := some (Execution.reply d s.protocol.db ⟨nowMs, held, w.statement⟩) } }) ∨
    LocalStep s s' := by
  cases l with
  | execute e =>
      rcases Option.bind_eq_some_iff.mp h with ⟨p, hp, hs⟩
      exact Or.inl ⟨e, p, rfl, hp, (Option.some.inj hs).symm⟩
  | contextWrite i write =>
      rcases Option.bind_eq_some_iff.mp h with ⟨dl, hdl, hs⟩
      split at hs
      · rename_i hlive
        cases hs
        exact Or.inr (Or.inr ((LocalStep.refl s).issue hdl
          (Delivery.not_closed_of_live hlive) _ _ rfl))
      · cases hs
  | heartbeat workerId candidates leaseMs =>
      simp only [delivering] at h
      split at h
      · cases h
      · cases h
        exact Or.inr (Or.inr (LocalStep.heartbeat s workerId candidates leaseMs))
  | succeedOne i result =>
      rcases Option.bind_eq_some_iff.mp h with ⟨dl, hdl, hs⟩
      split at hs
      · rename_i hgate
        cases hs
        refine Or.inr (Or.inr ((LocalStep.of_modify hdl dl.evolves_finished).issue hdl ?_ _ _ rfl))
        simp [Delivery.Closed, hgate.1, hgate.2]
      · cases hs
  | selectFail i =>
      rcases Option.bind_eq_some_iff.mp h with ⟨dl, hdl, hs⟩
      split at hs
      · rename_i hgate
        cases hs
        exact Or.inr (Or.inr (LocalStep.of_modify hdl (dl.evolves_failing hgate.1 hgate.2)))
      · cases hs
  | safeFail i error retryable delayMs =>
      rcases Option.bind_eq_some_iff.mp h with ⟨dl, hdl, hs⟩
      split at hs
      · rename_i hgate
        cases hs
        refine Or.inr (Or.inr ((LocalStep.of_modify hdl dl.evolves_finished).issue hdl ?_ _ _ rfl))
        simp [Delivery.Closed, hgate]
      · cases hs
  | finish i =>
      rcases Option.bind_eq_some_iff.mp h with ⟨dl, hdl, hs⟩
      split at hs
      · cases hs
        exact Or.inr (Or.inr (LocalStep.of_modify hdl dl.evolves_finished))
      · cases hs
  | timeout i =>
      cases h
      refine Or.inr (Or.inr ?_)
      cases hdl : s.deliveries[i]? with
      | none =>
          simp only [DeliveryState.modify, List.modify_eq_self (List.getElem?_eq_none_iff.mp hdl)]
          exact LocalStep.refl s
      | some dl => exact LocalStep.of_modify hdl dl.evolves_leaseLost
  | perform n nowMs held =>
      rcases perform_cases h with ⟨w, p, hw, -, hp, hs⟩
      exact Or.inr (Or.inl ⟨n, nowMs, held, w, p, rfl, hw, hp, hs⟩)
  | answer n =>
      rcases Option.bind_eq_some_iff.mp h with ⟨w, hw, hrest⟩
      rcases Option.bind_eq_some_iff.mp hrest with ⟨reply, hreply, hs⟩
      cases hs
      exact Or.inr (Or.inr (LocalStep.answer s w reply n))
  | forget n =>
      cases h
      exact Or.inr (Or.inr
        { LocalStep.refl s with writes := fun w hw => Or.inl (List.mem_of_mem_eraseIdx hw) })

end CairnQ
