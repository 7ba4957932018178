import CairnQ.Admission.Credits
import CairnQ.Protocol.Reads

/-!
# The queue depth gate

`QueueDepthGate` as producers use it: every producer has a gate of its own over the
same store, and any number of concurrent submits, each of which acquires a unit and
inserts its task some time later.  Submits of one gate share its headroom and at most
one probe; a probe is a read of `queue_depth` whose answer arrives later.  Everything
else that happens to the queue is a statement of somebody else.

A gate's units and the store make a ledger of credits.  What the ledger asks of a
draw, that the holder has no credits left, is not what the gate checks: a probe goes
out when the headroom is used up, and its read does not see the units that were handed
out and not yet inserted.

Main results:

- Theorem `QueueDepthGate.step_credit`: what one step of a gate does to its units.
- Theorem `producers_move`: a step is a move of the ledger as long as no probe is read
  while units of its gate are outstanding.
- Theorem `depth_le_softLimit`: in runs of such steps the depth stays within the limit
  and the grants of all producers but one.
-/

namespace CairnQ

open Relational Transition Admission

variable {J : Type}

/-! ## One gate -/

/-- `MAX_GRANT`. -/
def maxGrant : Nat := 64

/-- `QueueDepthLimit`: one limit for every queue, or limits for the queues named. -/
inductive QueueDepthLimit
  | every (limit : Nat)
  | named (limits : List (String × Nat))
deriving DecidableEq, Repr

/-- `limit_for`. -/
def QueueDepthLimit.limitFor : QueueDepthLimit → String → Option Nat
  | .every limit, _ => some limit
  | .named limits, queue => limits.lookup queue

/-- An entry of `_probing`: the read has yet to execute, its answer is on the way, or
`_refresh` is done and the done callback has yet to run. -/
inductive ProbePhase
  | issued
  | answered (headroom : Nat)
  | done
deriving DecidableEq, Repr

/-- Where a submit stands. -/
inductive SubmitPhase
  | acquiring
  /-- awaits the probe in flight -/
  | probing
  /-- the probe it awaited is done -/
  | probed
  | sleeping
  /-- `acquire` has returned, the insert is outstanding -/
  | granted
  | ended
deriving DecidableEq, Repr

/-- A `QueueDepthGate`, as far as one queue is concerned, and its submits. -/
structure QueueDepthGate where
  headroom : Nat
  probing : Option ProbePhase
  submits : List SubmitPhase
deriving DecidableEq, Repr

/-- A step of a gate or of one of its submits. -/
inductive GateStep
  | submit
  /-- the first turn of `acquire`, and the turn after a sleep -/
  | acquire (i : Nat)
  /-- the store executes `queue_depth` for the probe -/
  | read
  /-- `_refresh` receives the answer -/
  | answer
  /-- `_refresh` raises, and so do those who await it -/
  | raise
  /-- the done callback of the probe -/
  | forget
  /-- the turn of `acquire` after its probe -/
  | resume (i : Nat) (timedOut : Bool)
  /-- a submit is cancelled, or its insert fails -/
  | abandon (i : Nat)
deriving DecidableEq, Repr

namespace QueueDepthGate

/-- A gate nobody has used. -/
def fresh : QueueDepthGate where
  headroom := 0
  probing := none
  submits := []

/-- One submit goes to another phase. -/
def setPhase (g : QueueDepthGate) (i : Nat) (phase : SubmitPhase) : QueueDepthGate :=
  { g with submits := g.submits.set i phase }

/-- The top of the loop of `acquire`: take a unit, or join the probe, or start one. -/
def take (g : QueueDepthGate) (i : Nat) : QueueDepthGate :=
  if 0 < g.headroom then { g with headroom := g.headroom - 1 }.setPhase i .granted
  else match g.probing with
    | none => { g with probing := some .issued }.setPhase i .probing
    | some .done => g.setPhase i .probed
    | some _ => g.setPhase i .probing

/-- `acquire` up to its first await; a queue without a limit is not gated. -/
def acquire (g : QueueDepthGate) (limit : Option Nat) (i : Nat) : QueueDepthGate :=
  if limit = none then g.setPhase i .granted else g.take i

/-- `acquire` after its probe: round the loop, `QueueFull`, or sleep. -/
def resume (g : QueueDepthGate) (i : Nat) (timedOut : Bool) : QueueDepthGate :=
  if 0 < g.headroom then g.take i
  else if timedOut then g.setPhase i .ended
  else g.setPhase i .sleeping

/-- Those who await the probe learn how it ended. -/
def release (g : QueueDepthGate) (phase : SubmitPhase) : QueueDepthGate :=
  { g with submits := g.submits.map fun p => if p = .probing then phase else p }

/-- One step, given the limit and the answer `queue_depth` would give now. -/
def step (limit : Option Nat) (queueDepth : Nat → Nat) (g : QueueDepthGate) :
    GateStep → Option QueueDepthGate
  | .submit => some { g with submits := g.submits ++ [.acquiring] }
  | .acquire i => match g.submits[i]? with
    | some .acquiring | some .sleeping => some (g.acquire limit i)
    | _ => none
  | .read => match g.probing, limit with
    | some .issued, some limit => some { g with probing := some (.answered (queueDepth limit)) }
    | _, _ => none
  | .answer => match g.probing with
    | some (.answered headroom) =>
        some ({ g with headroom := min headroom maxGrant, probing := some .done }.release .probed)
    | _ => none
  | .raise => match g.probing with
    | some .issued | some (.answered _) => some ({ g with probing := none }.release .ended)
    | _ => none
  | .forget => if g.probing = some .done then some { g with probing := none } else none
  | .resume i timedOut =>
      if g.submits[i]? = some .probed then some (g.resume i timedOut) else none
  | .abandon i => match g.submits[i]? with
    | some .ended | none => none
    | some _ => some (g.setPhase i .ended)

/-- The insert of a submit executes. -/
def insert (g : QueueDepthGate) (i : Nat) : Option QueueDepthGate :=
  if g.submits[i]? = some .granted then some (g.setPhase i .ended) else none

/-! ### Units -/

/-- The units handed out and not yet inserted. -/
def outstanding (g : QueueDepthGate) : Nat :=
  g.submits.count .granted

/-- The units of an answer on its way. -/
def promised (g : QueueDepthGate) : Nat :=
  match g.probing with
  | some (.answered headroom) => min headroom maxGrant
  | _ => 0

/-- Every unit the gate has, from the read that granted it to the insert. -/
def credit (g : QueueDepthGate) : Nat :=
  g.headroom + g.outstanding + g.promised

/-- A probe is in flight only once the headroom is used up. -/
def Coherent (g : QueueDepthGate) : Prop :=
  g.probing = none ∨ g.probing = some .done ∨ g.headroom = 0

/-- The units outstanding after a submit went from one phase to another. -/
theorem outstanding_setPhase {g : QueueDepthGate} {i : Nat} {old : SubmitPhase}
    (h : g.submits[i]? = some old) (new : SubmitPhase) :
    (g.setPhase i new).outstanding + (if old = .granted then 1 else 0) =
      g.outstanding + if new = .granted then 1 else 0 := by
  rcases List.getElem?_eq_some_iff.mp h with ⟨hi, hold⟩
  have hpos : old = .granted → 0 < g.submits.count .granted := by
    rintro rfl
    exact List.count_pos_iff.mpr (hold ▸ List.getElem_mem hi)
  simp only [outstanding, setPhase, List.count_set hi, hold, beq_iff_eq]
  split
  · have := hpos ‹_›
    omega
  · omega

theorem outstanding_release (g : QueueDepthGate) (phase : SubmitPhase) (h : phase ≠ .granted) :
    (g.release phase).outstanding = g.outstanding := by
  simp only [outstanding, release, List.count, List.countP_map]
  refine List.countP_congr fun p _ => ?_
  by_cases hp : p = .probing
  · simp [hp, h]
  · simp [hp]

/-- A submit goes to another phase without a unit handed out or used. -/
theorem credit_setPhase {g : QueueDepthGate} {i : Nat} {old new : SubmitPhase}
    (h : g.submits[i]? = some old) (hold : old ≠ .granted) (hnew : new ≠ .granted) :
    (g.setPhase i new).credit = g.credit := by
  have hout := outstanding_setPhase h new
  rw [if_neg hold, if_neg hnew] at hout
  unfold credit
  rw [show (g.setPhase i new).outstanding = g.outstanding from hout]
  rfl

/-- The top of the loop keeps the units: one may go from the headroom to a submit. -/
theorem credit_take {g : QueueDepthGate} {i : Nat} {old : SubmitPhase}
    (h : g.submits[i]? = some old) (hold : old ≠ .granted) : (g.take i).credit = g.credit := by
  unfold take
  split
  · have hout := outstanding_setPhase (g := { g with headroom := g.headroom - 1 }) h .granted
    rw [if_neg hold, if_pos rfl] at hout
    have hpromised : ({ g with headroom := g.headroom - 1 }.setPhase i .granted).promised =
        g.promised := rfl
    have hsame : ({ g with headroom := g.headroom - 1 } : QueueDepthGate).outstanding =
        g.outstanding := rfl
    have hhead : ({ g with headroom := g.headroom - 1 }.setPhase i .granted).headroom =
        g.headroom - 1 := rfl
    unfold credit
    omega
  · split
    · rename_i hprobing
      have hkept := credit_setPhase (g := { g with probing := some .issued }) h hold
        (show SubmitPhase.probing ≠ .granted by decide)
      rw [hkept]
      simp [credit, promised, outstanding, hprobing]
    · exact credit_setPhase h hold (by decide)
    · exact credit_setPhase h hold (by decide)

theorem coherent_take {g : QueueDepthGate} (i : Nat) (h : g.Coherent) : (g.take i).Coherent := by
  unfold take
  split
  · rename_i hpos
    rcases h with h | h | h
    · exact Or.inl h
    · exact Or.inr (Or.inl h)
    · omega
  · rename_i hzero
    have hnone : g.headroom = 0 := by omega
    split
    · exact Or.inr (Or.inr hnone)
    · exact h
    · exact h

/-- A gate has no units when its probe is read with none outstanding. -/
theorem credit_of_issued {g : QueueDepthGate} (h : g.Coherent) (hissued : g.probing = some .issued)
    (hout : g.outstanding = 0) : g.credit = 0 := by
  rcases h with h | h | h
  · cases hissued.symm.trans h
  · cases hissued.symm.trans h
  · simp [credit, promised, hissued, hout, h]

/-- A step of a gate adds no units, unless it reads the depth: then what it gets is the
grant, on top of the units outstanding. -/
theorem step_credit {limit : Nat} {queueDepth : Nat → Nat} {g g' : QueueDepthGate} {l : GateStep}
    (h : g.Coherent) (hstep : g.step (some limit) queueDepth l = some g') :
    g'.Coherent ∧ (g'.credit ≤ g.credit ∨
      (l = .read ∧ g.probing = some .issued ∧
        g'.credit = g.headroom + g.outstanding + min (queueDepth limit) maxGrant)) := by
  cases l with
  | submit =>
      cases hstep
      refine ⟨h, Or.inl (Nat.le_of_eq ?_)⟩
      simp [credit, outstanding, promised]
  | acquire i =>
      simp only [step, acquire, reduceCtorEq, if_false] at hstep
      split at hstep
      · cases hstep
        exact ⟨coherent_take i h, Or.inl (Nat.le_of_eq (credit_take ‹_› (by decide)))⟩
      · cases hstep
        exact ⟨coherent_take i h, Or.inl (Nat.le_of_eq (credit_take ‹_› (by decide)))⟩
      · cases hstep
  | read =>
      simp only [step] at hstep
      split at hstep
      · rename_i hissued heq
        cases heq
        cases hstep
        have hzero : g.headroom = 0 := by
          rcases h with h | h | h
          · cases hissued.symm.trans h
          · cases hissued.symm.trans h
          · exact h
        exact ⟨Or.inr (Or.inr hzero), Or.inr ⟨rfl, hissued, rfl⟩⟩
      · cases hstep
  | answer =>
      simp only [step] at hstep
      split at hstep
      · rename_i headroom hanswered
        cases hstep
        have hout := outstanding_release
          { g with headroom := min headroom maxGrant, probing := some .done } .probed (by decide)
        refine ⟨Or.inr (Or.inl rfl), Or.inl ?_⟩
        unfold credit
        rw [hout]
        simp only [release, promised, hanswered, outstanding]
        omega
      · cases hstep
  | raise =>
      have hraised : ({ g with probing := none }.release .ended).credit ≤ g.credit := by
        have hout := outstanding_release { g with probing := none } .ended (by decide)
        unfold credit
        rw [hout]
        simp only [release, promised, outstanding]
        omega
      simp only [step] at hstep
      split at hstep
      · cases hstep
        exact ⟨Or.inl rfl, Or.inl hraised⟩
      · cases hstep
        exact ⟨Or.inl rfl, Or.inl hraised⟩
      · cases hstep
  | forget =>
      simp only [step] at hstep
      split at hstep
      · rename_i hdone
        cases hstep
        refine ⟨Or.inl rfl, Or.inl (Nat.le_of_eq ?_)⟩
        simp [credit, promised, outstanding, hdone]
      · cases hstep
  | resume i timedOut =>
      simp only [step, resume] at hstep
      split at hstep
      · rename_i hprobed
        cases hstep
        split
        · exact ⟨coherent_take i h, Or.inl (Nat.le_of_eq (credit_take hprobed (by decide)))⟩
        · split
          · exact ⟨h, Or.inl (Nat.le_of_eq (credit_setPhase hprobed (by decide) (by decide)))⟩
          · exact ⟨h, Or.inl (Nat.le_of_eq (credit_setPhase hprobed (by decide) (by decide)))⟩
      · cases hstep
  | abandon i =>
      simp only [step] at hstep
      split at hstep
      · cases hstep
      · cases hstep
      · rename_i old _ hold
        cases hstep
        have hout := outstanding_setPhase hold .ended
        refine ⟨h, Or.inl ?_⟩
        rw [if_neg (show SubmitPhase.ended ≠ .granted by decide)] at hout
        have hpromised : (g.setPhase i .ended).promised = g.promised := rfl
        have hhead : (g.setPhase i .ended).headroom = g.headroom := rfl
        unfold credit
        omega

/-- An insert uses up one unit. -/
theorem insert_credit {g g' : QueueDepthGate} {i : Nat} (h : g.Coherent)
    (hinsert : g.insert i = some g') : g'.Coherent ∧ g.credit = g'.credit + 1 := by
  unfold insert at hinsert
  split at hinsert
  · rename_i hgranted
    cases hinsert
    have hout := outstanding_setPhase hgranted .ended
    rw [if_pos rfl, if_neg (show SubmitPhase.ended ≠ .granted by decide)] at hout
    have hpromised : (g.setPhase i .ended).promised = g.promised := rfl
    have hhead : (g.setPhase i .ended).headroom = g.headroom := rfl
    refine ⟨h, ?_⟩
    unfold credit
    omega
  · cases hinsert

end QueueDepthGate

/-! ## Producers -/

/-- The store and the gate of every producer. -/
structure Producers (N : Nat) (J : Type) where
  protocol : ProtocolState J
  gates : Fin N → QueueDepthGate

variable {N : Nat}

/-- No producer has submitted anything yet. -/
def Producers.fresh (protocol : ProtocolState J) : Producers N J where
  protocol := protocol
  gates := fun _ => .fresh

/-- One gate changes. -/
def Producers.setGate (s : Producers N J) (p : Fin N) (g : QueueDepthGate) : Producers N J :=
  { s with gates := Function.update s.gates p g }

/-- A label: a step of a gate, the insert of a submit, or a statement of anybody else. -/
inductive ProducerStep (N : Nat) (J : Type)
  | gate (p : Fin N) (step : GateStep)
  | insert (p : Fin N) (i : Nat) (task : NewTask J) (nowMs : Int)
  | execute (e : Execution J)

/-- Producers over one store, submitting to one queue; other statements put nothing into
that queue. -/
def producers (d : Dialect) (limits : QueueDepthLimit) (queue : String) :
    Machine (Producers N J) (ProducerStep N J) := fun s l =>
  match l with
  | .gate p step =>
      ((s.gates p).step (limits.limitFor queue)
        (fun limit => queueDepth queue limit s.protocol.db) step).map (s.setGate p)
  | .insert p i task nowMs =>
      if task.queue = queue then
        (CairnQ.protocol d s.protocol (.alone nowMs (.insertTask task))).bind fun protocol =>
          ((s.gates p).insert i).map ({ s with protocol := protocol }.setGate p)
      else none
  | .execute e =>
      if e.statement.fills queue then none
      else (CairnQ.protocol d s.protocol e).map fun protocol => { s with protocol := protocol }

/-- The producer whose probe is read in a step. -/
def ProducerStep.reader : ProducerStep N J → Option (Fin N)
  | .gate p .read => some p
  | _ => none

/-- No probe is read while units that its gate handed out have not been inserted. -/
def ReadsInserted (s : Producers N J) (l : ProducerStep N J) : Prop :=
  ∀ p, l.reader = some p → (s.gates p).outstanding = 0

instance (s : Producers N J) (l : ProducerStep N J) : Decidable (ReadsInserted s l) :=
  inferInstanceAs (Decidable (∀ _, _))

/-- The ledger of a queue: its depth, and the units of every gate. -/
def Producers.ledger (s : Producers N J) (queue : String) : Ledger (Fin N) where
  stock := s.protocol.db.depth queue
  credit p := (s.gates p).credit

theorem Producers.ledger_setGate (s : Producers N J) (p : Fin N) (g : QueueDepthGate)
    (queue : String) :
    (s.setGate p g).ledger queue = (s.ledger queue).setCredit p g.credit := by
  simp only [ledger, setGate, Ledger.setCredit, Ledger.mk.injEq, true_and]
  funext q
  by_cases hq : q = p
  · rw [hq, Function.update_self, Function.update_self]
  · rw [Function.update_of_ne hq, Function.update_of_ne hq]

/-- Every gate probes only once its headroom is used up. -/
def Producers.Coherent (s : Producers N J) : Prop :=
  ∀ p, (s.gates p).Coherent

theorem Producers.Coherent.setGate {s : Producers N J} (h : s.Coherent) {p : Fin N}
    {g : QueueDepthGate} (hg : g.Coherent) : (s.setGate p g).Coherent := by
  intro q
  by_cases hq : q = p
  · simpa [Producers.setGate, hq] using hg
  · simpa [Producers.setGate, hq] using h q

/-- A step is a move of the ledger, unless a probe is read while units are outstanding. -/
theorem producers_move {d : Dialect} {limits : QueueDepthLimit} {queue : String} {limit : Nat}
    (hlimit : limits.limitFor queue = some limit) {s s' : Producers N J} {l : ProducerStep N J}
    (h : s.Coherent) (hguard : ReadsInserted s l) (hstep : producers d limits queue s l = some s') :
    s'.Coherent ∧ Move limit maxGrant (s.ledger queue) (s'.ledger queue) := by
  cases l with
  | gate p step =>
      rcases Option.map_eq_some_iff.mp hstep with ⟨g', hg', rfl⟩
      rw [hlimit] at hg'
      rcases QueueDepthGate.step_credit (h p) hg' with ⟨hcoh, hle | ⟨rfl, hissued, hgrant⟩⟩
      · refine ⟨h.setGate hcoh, ?_⟩
        rw [Producers.ledger_setGate]
        exact Move.forfeit _ p _ hle
      · have hnone := QueueDepthGate.credit_of_issued (h p) hissued (hguard p rfl)
        refine ⟨h.setGate hcoh, ?_⟩
        rw [Producers.ledger_setGate]
        have hzero : (s.gates p).headroom + (s.gates p).outstanding = 0 := by
          unfold QueueDepthGate.credit at hnone
          omega
        rw [hzero, queueDepth_eq, Nat.zero_add] at hgrant
        refine Move.draw _ p _ hnone (hgrant ▸ Nat.min_le_right _ _) ?_
        rw [hgrant]
        show _ ∨ s.protocol.db.depth queue + _ ≤ limit
        omega
  | insert p i task nowMs =>
      simp only [producers] at hstep
      split at hstep
      · rename_i hqueue
        rcases Option.bind_eq_some_iff.mp hstep with ⟨protocol, hprotocol, hinsert⟩
        rcases Option.map_eq_some_iff.mp hinsert with ⟨g', hg', rfl⟩
        rcases QueueDepthGate.insert_credit (h p) hg' with ⟨hcoh, hcredit⟩
        refine ⟨Producers.Coherent.setGate (s := { s with protocol := protocol }) h hcoh, ?_⟩
        rw [Producers.ledger_setGate]
        have hdepth := depth_insert hprotocol rfl
        rw [hqueue] at hdepth
        rcases hdepth with hadded | hrefused
        · have hmove : Move limit maxGrant (s.ledger queue) _ :=
            Move.spend (s.ledger queue) p _ hcredit
          have hstock : { s with protocol := protocol }.ledger queue =
              { s.ledger queue with stock := s.protocol.db.depth queue + 1 } := by
            simp [Producers.ledger, hadded]
          rw [hstock]
          exact hmove
        · have hstock : { s with protocol := protocol }.ledger queue = s.ledger queue := by
            simp [Producers.ledger, hrefused]
          rw [hstock]
          have hle : g'.credit ≤ (s.gates p).credit := by omega
          exact Move.forfeit _ p _ hle
      · cases hstep
  | execute e =>
      simp only [producers] at hstep
      split at hstep
      · cases hstep
      · rename_i hfills
        rcases Option.map_eq_some_iff.mp hstep with ⟨protocol, hprotocol, rfl⟩
        have hle := depth_step_le hprotocol (Bool.eq_false_iff.mpr hfills)
        exact ⟨h, Move.depart (s.ledger queue) _ hle⟩

/-- In a run in which no probe is read while units of its gate are outstanding, the depth of
the queue stays within the limit and the grants of all producers but one. -/
theorem depth_le_softLimit {d : Dialect} {limits : QueueDepthLimit} {queue : String} {limit : Nat}
    (hlimit : limits.limitFor queue = some limit) {protocol : ProtocolState J}
    (hempty : protocol.db.depth queue = 0) {s : Producers N J}
    (hreach : (producers d limits queue).Reachable ReadsInserted (Producers.fresh protocol) s) :
    s.protocol.db.depth queue ≤ limit + (N - 1) * 64 := by
  have hinv : s.Coherent ∧ Bounded limit maxGrant (s.ledger queue) := by
    refine hreach.invariant
      (I := fun s => s.Coherent ∧ Bounded limit maxGrant (s.ledger queue)) ?_ ?_
    · rintro s l s' ⟨hcoh, hbound⟩ hguard hstep
      rcases producers_move hlimit hcoh hguard hstep with ⟨hcoh', hmove⟩
      exact ⟨hcoh', hmove.bounded hbound⟩
    · refine ⟨fun p => Or.inl rfl, ?_⟩
      have hfresh : (Producers.fresh protocol : Producers N J).ledger queue = Ledger.empty := by
        simp only [Producers.ledger, Producers.fresh, hempty]
        rfl
      rw [hfresh]
      exact Bounded.empty limit maxGrant
  have hle := hinv.2.stock_le
  rw [softLimit, Fintype.card_fin] at hle
  exact hle

/-- A submit of a producer, up to the moment its unit is handed out. -/
def acquireUnit (p : Fin N) (i : Nat) : List (ProducerStep N J) :=
  [.gate p .submit, .gate p (.acquire i), .gate p .read, .gate p .answer, .gate p .forget,
    .gate p (.resume i false)]

/-- Two producers read the empty queue before either inserts, then each inserts a task. -/
def overshootRun : List (ProducerStep 2 Unit) :=
  acquireUnit 0 0 ++ acquireUnit 1 0 ++
    [.insert 0 0 (.plain "a" "job" 1 ()) 0, .insert 1 0 (.plain "b" "job" 1 ()) 0]

theorem depth_le_softLimit_overshootRun :
    ((producers .sqlite (.every 1) "default").drive (.fresh (.fresh 0))
      overshootRun).protocol.db.depth "default" ≤ 1 + (2 - 1) * 64 :=
  depth_le_softLimit rfl rfl (Machine.reachable_of_admits (by decide))

/-- Two submits of one producer: the second probe is read before the first insert. -/
def doubleGrantRun : List (ProducerStep 1 Unit) :=
  acquireUnit 0 0 ++ acquireUnit 0 1 ++
    [.insert 0 0 (.plain "a" "job" 1 ()) 0, .insert 0 1 (.plain "b" "job" 1 ()) 0]

/-- One producer passes a limit of one. -/
theorem softLimit_fails :
    ∃ s : Producers 1 Unit, (producers .sqlite (.every 1) "default").Reachable anyStep
        (.fresh (.fresh 0)) s ∧ ¬s.protocol.db.depth "default" ≤ 1 + (1 - 1) * 64 :=
  ⟨_, Machine.reachable_drive _ _ doubleGrantRun fun _ _ _ => trivial, by decide⟩

end CairnQ
