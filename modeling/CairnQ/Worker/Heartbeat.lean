import CairnQ.Protocol.Composition
import CairnQ.Protocol.Leases
import CairnQ.Worker.Delivery

/-!
# The heartbeat

`Worker._heartbeat_loop` and its clock.  A call beats once an interval, with one statement for
the tasks it still has in hand; a beat that fails is reported, and the next one tries again.
An interval is a third of the lease, so some beats may fail.  A beat also brings news of a
cancellation to the handler.

Main results:

- Theorem `Timely.lt_lease`: while few beats in a row fail, the next one comes in time.
- Theorem `heartbeat_holds`: a worker that beats in time keeps its tasks, whatever others do,
  and learns within one lease that somebody asked for a cancellation.
-/

namespace CairnQ

open Relational Transition

variable {J : Type}

/-! ## State -/

/-- `self._hb_interval`. -/
def heartbeatInterval (leaseMs : Int) : Int :=
  max 50 (leaseMs / 3)

/-- A context of the call, with whether a settlement of its task was accepted and when somebody
first asked for its cancellation. -/
structure BeatContext where
  taskId : String
  settled : Bool
  lostLease : Bool
  cancelSeen : Bool
  finished : Bool
  askedMs : Option Int
deriving DecidableEq, Repr

namespace BeatContext

/-- `not c.settled and not c.lost_lease`. -/
def live (c : BeatContext) : Bool :=
  !c.settled && !c.lostLease

/-- What a beat tells a context: `_observe_cancel`, or `_mark_lease_lost` unless it is settled. -/
def observe (flags : List (String × Bool)) (c : BeatContext) : BeatContext :=
  match flagOf flags c.taskId with
  | some requested => { c with cancelSeen := c.cancelSeen || requested }
  | none => if c.settled then c else { c with lostLease := true }

/-- Note the time when the row of the task first shows a cancellation request. -/
def noting (db : Database J) (nowMs : Int) (c : BeatContext) : BeatContext :=
  { c with
    askedMs := c.askedMs <|>
      ((db.get c.taskId).bind Task.cancelRequestedAtMs).map fun _ => nowMs }

/-- What an answer to a settlement tells its context. -/
def answered (named : Bool) (c : BeatContext) : BeatContext :=
  if named then { c with finished := true } else { c with lostLease := true }

end BeatContext

/-- Where the loop stands, and since when. -/
inductive BeatPhase
  | sleeping (sinceMs : Int)
  /-- `heartbeat_batch` is on its way -/
  | calling (ids : List String) (sinceMs : Int)
  /-- it was executed, and its answer is on its way -/
  | answered (ids : List String) (flags : List (String × Bool)) (sinceMs : Int)
  | ended
deriving DecidableEq, Repr

/-- A call and its heartbeat: when the last beat was executed whose answer was read, and how many
have failed since. -/
structure BeatState (J : Type) where
  world : ProtocolState J
  nowMs : Int
  ctxs : List BeatContext
  phase : BeatPhase
  heardMs : Int
  missed : Nat

/-- A call whose tasks were claimed. -/
def BeatState.claimed (world : ProtocolState J) (ids : List String) (claimedMs sinceMs : Int) :
    BeatState J where
  world := world
  nowMs := sinceMs
  ctxs := ids.map fun id => BeatContext.noting world.db claimedMs
    { taskId := id, settled := false, lostLease := false, cancelSeen := false, finished := false,
      askedMs := none }
  phase := .sleeping sinceMs
  heardMs := claimedMs
  missed := 0

/-! ## The machine -/

/-- What happens while a call runs. -/
inductive BeatEvent (J : Type)
  /-- a statement of anybody's -/
  | elsewhere (e : Execution J)
  /-- a settlement through a context is executed -/
  | settle (id : String) (write : OwnedWrite J) (nowMs : Int) (held : String → Bool)
  /-- `_mark_settled` -/
  | mark (id : String)
  /-- `canceled` reads the row -/
  | check (id : String)
  | wake (nowMs : Int)
  | beat (nowMs : Int) (held : String → Bool)
  | read (nowMs : Int)
  /-- `heartbeat_batch` raises -/
  | error (nowMs : Int)

/-- Execute a statement at a later time. -/
def BeatState.execute (d : Dialect) (s : BeatState J) (e : Execution J) : Option (BeatState J) :=
  if s.nowMs ≤ e.nowMs then
    (protocol d s.world e).map fun world =>
      { s with
        world := world
        nowMs := e.nowMs
        ctxs := s.ctxs.map (·.noting world.db e.nowMs) }
  else none

/-- The contexts of a call, its heartbeat loop, and everybody else. -/
def heartbeatLoop (d : Dialect) (workerId : String) (leaseMs : Int) :
    Machine (BeatState J) (BeatEvent J)
  | s, .elsewhere e => s.execute d e
  | s, .settle id write nowMs held =>
      let e : Execution J := { nowMs := nowMs, held := held, statement := .owned id workerId write }
      if write.isSettlement then
        (s.execute d e).map fun s' =>
          { s' with
            ctxs := s'.ctxs.map fun c =>
              if c.taskId = id then c.answered ((e.reply d s.world.db).names id) else c }
      else none
  | s, .mark id =>
      some { s with
        ctxs := s.ctxs.map fun c =>
          if c.taskId = id ∧ c.finished = true then { c with settled := true } else c }
  | s, .check id =>
      some { s with
        ctxs := s.ctxs.map fun c =>
          if c.taskId = id ∧ ((s.world.db.get id).bind Task.cancelRequestedAtMs).isSome then
            { c with cancelSeen := true }
          else c }
  | s, .wake nowMs =>
      match s.phase with
      | .sleeping sinceMs =>
          if s.nowMs ≤ nowMs ∧ sinceMs + heartbeatInterval leaseMs ≤ nowMs then
            let live := s.ctxs.filter BeatContext.live
            some { s with
              nowMs := nowMs
              phase := if live.isEmpty then .ended
                else .calling (live.map BeatContext.taskId) nowMs }
          else none
      | _ => none
  | s, .beat nowMs held =>
      match s.phase with
      | .calling ids _ =>
          let e : Execution J :=
            { nowMs := nowMs, held := held, statement := .heartbeatBatch ids workerId leaseMs }
          (s.execute d e).map fun s' =>
            { s' with
              phase := .answered ids
                (heartbeatBatchFlags d held nowMs ids workerId leaseMs s.world.db).2 nowMs }
      | _ => none
  | s, .read nowMs =>
      match s.phase with
      | .answered ids flags sinceMs =>
          if s.nowMs ≤ nowMs then
            some { s with
              nowMs := nowMs
              ctxs := s.ctxs.map fun c => if c.taskId ∈ ids then c.observe flags else c
              phase := .sleeping nowMs
              heardMs := sinceMs
              missed := 0 }
          else none
      | _ => none
  | s, .error nowMs =>
      match s.phase with
      | .calling _ _ | .answered _ _ _ =>
          if s.nowMs ≤ nowMs then
            some { s with nowMs := nowMs, phase := .sleeping nowMs, missed := s.missed + 1 }
          else none
      | _ => none

/-! ## Time -/

/-- How long a round of the loop may take: it sleeps, wakes late, calls, and reads late. -/
def roundMs (leaseMs latencyMs : Int) : Int :=
  heartbeatInterval leaseMs + 3 * latencyMs

/-- One more round. -/
theorem succ_mul_roundMs (n : Nat) (leaseMs latencyMs : Int) :
    (n + 1 : Int) * roundMs leaseMs latencyMs =
      n * roundMs leaseMs latencyMs + heartbeatInterval leaseMs + 3 * latencyMs := by
  rw [Int.add_mul, Int.one_mul, roundMs, Int.add_assoc]

theorem roundMs_nonneg {leaseMs latencyMs : Int} (hlatency : 0 ≤ latencyMs) :
    0 ≤ roundMs leaseMs latencyMs := by
  unfold roundMs heartbeatInterval
  omega

/-- When the loop goes on at the latest, if it still runs. -/
def BeatPhase.deadline (leaseMs latencyMs : Int) : BeatPhase → Option Int
  | .sleeping sinceMs => some (sinceMs + heartbeatInterval leaseMs + latencyMs)
  | .calling _ sinceMs | .answered _ _ sinceMs => some (sinceMs + latencyMs)
  | .ended => none

/-- The time of an event that takes place at one. -/
def BeatEvent.time : BeatEvent J → Option Int
  | .elsewhere e => some e.nowMs
  | .settle _ _ nowMs _ | .wake nowMs | .beat nowMs _ | .read nowMs | .error nowMs => some nowMs
  | .mark _ | .check _ => none

/-- Nothing happens while the loop is overdue, few beats in a row fail, every worker uses one lease
duration, and a task is settled under the worker's id through its context only. -/
def BeatsInTime (leaseOf : String → Int) (workerId : String) (latencyMs : Int) (misses : Nat)
    (s : BeatState J) (ev : BeatEvent J) : Prop :=
  (∀ nowMs ∈ ev.time, ∀ deadline ∈ s.phase.deadline (leaseOf workerId) latencyMs,
    nowMs ≤ deadline) ∧
  match ev with
  | .elsewhere e => e.statement.UsesLease leaseOf ∧
      ∀ c ∈ s.ctxs, c.finished = false → ¬e.statement.Settles c.taskId workerId
  | .error _ => s.missed < misses
  | _ => True

/-- How late the loop can be, counted from the last beat that was heard. -/
def Timely (leaseMs latencyMs : Int) (s : BeatState J) : Prop :=
  s.heardMs ≤ s.nowMs ∧
  match s.phase with
  | .sleeping sinceMs => sinceMs ≤ s.nowMs ∧
      sinceMs ≤ s.heardMs + s.missed * roundMs leaseMs latencyMs + latencyMs
  | .calling _ sinceMs => sinceMs ≤ s.nowMs ∧
      sinceMs ≤ s.heardMs + s.missed * roundMs leaseMs latencyMs +
        heartbeatInterval leaseMs + 2 * latencyMs
  | .answered _ _ sinceMs => sinceMs ≤ s.nowMs ∧ s.heardMs ≤ sinceMs ∧
      sinceMs ≤ s.heardMs + (s.missed + 1) * roundMs leaseMs latencyMs
  | .ended => True

/-- Few failures in a row do not outlast the lease. -/
theorem Timely.lt_lease {leaseMs latencyMs : Int} {misses : Nat} {s : BeatState J}
    (h : Timely leaseMs latencyMs s) (hlatency : 0 ≤ latencyMs)
    (hslack : (misses + 1) * roundMs leaseMs latencyMs + latencyMs < leaseMs)
    (hmissed : s.missed ≤ misses) {deadline nowMs : Int}
    (hdeadline : s.phase.deadline leaseMs latencyMs = some deadline) (hnow : nowMs ≤ deadline) :
    nowMs < s.heardMs + leaseMs := by
  have hrounds : (s.missed + 1 : Int) * roundMs leaseMs latencyMs ≤
      (misses + 1) * roundMs leaseMs latencyMs :=
    Int.mul_le_mul_of_nonneg_right (by omega) (roundMs_nonneg hlatency)
  have hsplit := succ_mul_roundMs s.missed leaseMs latencyMs
  have htimely := h.2
  cases hphase : s.phase with
  | sleeping sinceMs | calling ids sinceMs =>
      rw [hphase] at hdeadline htimely
      cases hdeadline
      dsimp only at htimely
      omega
  | answered ids flags sinceMs =>
      rw [hphase] at hdeadline htimely
      cases hdeadline
      dsimp only at htimely
      omega
  | ended =>
      rw [hphase] at hdeadline
      cases hdeadline

/-! ## Rows in hand -/

/-- A running row keeps its cancellation request while it runs, and gets one from a cancel. -/
theorem Effect.cancelRequested_of_running {nowMs : Int} {st : Statement J} {t t' : Task J}
    (heff : Effect nowMs st t t') (hrunning : t.status = .running)
    (hrunning' : t'.status = .running) :
    t'.cancelRequestedAtMs = t.cancelRequestedAtMs ∨ t'.cancelRequestedAtMs = some nowMs := by
  cases heff with
  | claimed | recovered | renewed => exact Or.inl rfl
  | @written workerId write t howned => cases write <;> exact Or.inl rfl
  | canceled => exact Or.inr (by simp [setCancel, hrunning])
  | retried => cases hrunning'

/-- What a step before the end of the lease leaves of a row, unless its holder settles it. -/
theorem held_of_step {d : Dialect} {leaseOf : String → Int} {clockMs : Int}
    {s s' : ProtocolState J} {e : Execution J} {id w : String} {t : Task J} {u : Int}
    (hreach : (protocol d).Reachable (UsesLease leaseOf) (ProtocolState.fresh clockMs) s)
    (ht : s.db.get id = some t) (hrunning : RunningUnder w u t)
    (huses : e.statement.UsesLease leaseOf) (hnot : ¬e.statement.Settles id w)
    (hlive : e.nowMs < u) (hstep : protocol d s e = some s') :
    ∃ t' u', s'.db.get id = some t' ∧ RunningUnder w u' t' ∧ u ≤ u' ∧
      (t'.cancelRequestedAtMs = t.cancelRequestedAtMs ∨
        t'.cancelRequestedAtMs = some e.nowMs) := by
  have hbound := reachable_leaseBound hreach id t ht w u hrunning.2.1 hrunning.2.2
  rcases runningUnder_of_step ht hrunning hbound huses hlive hstep with
    hsettles | ⟨t', u', ht', hrunning', hle⟩
  · exact absurd hsettles hnot
  · refine ⟨t', u', ht', hrunning', hle, ?_⟩
    rcases get_of_step_of_get hstep ht ht' with ⟨rfl, -⟩ | ⟨heff, -⟩
    · exact Or.inl rfl
    · exact heff.cancelRequested_of_running hrunning.1 hrunning'.1

theorem BeatContext.noting_cases (db : Database J) (nowMs : Int) (c : BeatContext) :
    (c.noting db nowMs).askedMs = c.askedMs ∨
      (c.askedMs = none ∧ (c.noting db nowMs).askedMs = some nowMs) := by
  unfold noting
  cases c.askedMs with
  | some m => exact Or.inl rfl
  | none =>
      cases (db.get c.taskId).bind Task.cancelRequestedAtMs with
      | none => exact Or.inl rfl
      | some m => exact Or.inr ⟨rfl, rfl⟩

/-- What the phase of the loop says of a context whose task is not finished. -/
def BeatPhase.Covers (leaseMs : Int) (c : BeatContext) (untilMs : Int) : BeatPhase → Prop
  | .sleeping _ => True
  | .calling ids _ => c.taskId ∈ ids
  | .answered ids flags sinceMs => c.taskId ∈ ids ∧ sinceMs + leaseMs ≤ untilMs ∧
      ∃ requested, flagOf flags c.taskId = some requested ∧
        (requested = true → c.askedMs.isSome = true) ∧
        (requested = false → ∀ m ∈ c.askedMs, sinceMs ≤ m)
  | .ended => False

/-- The row of a task in hand: it runs under the worker, with a lease from the last beat that was
heard, and its context has seen what was asked before that beat. -/
structure Holds (leaseMs : Int) (workerId : String) (s : BeatState J) (c : BeatContext)
    (t : Task J) (untilMs : Int) : Prop where
  row : s.world.db.get c.taskId = some t
  running : RunningUnder workerId untilMs t
  heard : s.heardMs + leaseMs ≤ untilMs
  asked : t.cancelRequestedAtMs.isSome = c.askedMs.isSome
  seen : c.cancelSeen = true → c.askedMs.isSome = true
  unseen : ∀ m ∈ c.askedMs, c.cancelSeen = true ∨ s.heardMs ≤ m
  covered : s.phase.Covers leaseMs c untilMs

theorem execute_eq_some_iff {d : Dialect} {s s' : BeatState J} {e : Execution J} :
    s.execute d e = some s' ↔ s.nowMs ≤ e.nowMs ∧ ∃ world, protocol d s.world e = some world ∧
      s' =
        { s with
          world := world
          nowMs := e.nowMs
          ctxs := s.ctxs.map (·.noting world.db e.nowMs) } := by
  unfold BeatState.execute
  split
  · rename_i hle
    rw [Option.map_eq_some_iff]
    simp only [hle, true_and]
    exact exists_congr fun world => and_congr_right fun _ => eq_comm
  · rename_i hle
    simp [hle]

section Rows

variable {d : Dialect} {leaseOf : String → Int} {clockMs latencyMs : Int} {w : String}
  {s s' : BeatState J} {e : Execution J} {c : BeatContext} {t : Task J} {u : Int}

/-- The row after a statement of the world. -/
theorem Holds.execute (h : Holds (leaseOf w) w s c t u)
    (hreach : (protocol d).Reachable (UsesLease leaseOf) (ProtocolState.fresh clockMs) s.world)
    (htimely : Timely (leaseOf w) latencyMs s) (huses : e.statement.UsesLease leaseOf)
    (hnot : ¬e.statement.Settles c.taskId w) (hlive : e.nowMs < u)
    (hexecute : s.execute d e = some s') :
    ∃ t' u', Holds (leaseOf w) w s' (c.noting s'.world.db e.nowMs) t' u' := by
  rcases execute_eq_some_iff.mp hexecute with ⟨hnow, world, hstep, rfl⟩
  rcases held_of_step hreach h.row h.running huses hnot hlive hstep with
    ⟨t', u', ht', hrunning', hle, hcancel⟩
  have hasked := h.asked
  have hnoted : (c.noting world.db e.nowMs).askedMs =
      (c.askedMs <|> t'.cancelRequestedAtMs.map fun _ => e.nowMs) := by
    simp [BeatContext.noting, ht']
  have hcases := c.noting_cases world.db e.nowMs
  refine ⟨t', u', ht', hrunning', h.heard.trans hle, ?_, fun hseen => ?_, fun m hm => ?_, ?_⟩
  · rw [hnoted]
    cases hold : c.askedMs with
    | none => simp
    | some m =>
        rw [hold] at hasked
        rcases hcancel with hsame | hnew
        · simpa [hsame] using hasked
        · simp [hnew]
  · rw [hnoted]
    rcases Option.isSome_iff_exists.mp (h.seen hseen) with ⟨m, hm⟩
    simp [hm]
  · rcases hcases with hsame | ⟨-, hnew⟩
    · rw [hsame] at hm
      exact h.unseen m hm
    · rw [hnew] at hm
      cases hm
      exact Or.inr (htimely.1.trans hnow)
  · have hcovered := h.covered
    have hlate := htimely.2
    show s.phase.Covers (leaseOf w) _ u'
    cases hphase : s.phase with
    | sleeping sinceMs => exact trivial
    | calling ids sinceMs =>
        rw [hphase] at hcovered
        exact hcovered
    | answered ids flags sinceMs =>
        rw [hphase] at hcovered hlate
        rcases hcovered with ⟨hmem, hsince, requested, hflag, htrue, hfalse⟩
        refine ⟨hmem, hsince.trans hle, requested, hflag, fun hrequested => ?_,
          fun hrequested m hm => ?_⟩
        · rcases hcases with hsame | ⟨hnone, -⟩
          · rw [hsame]
            exact htrue hrequested
          · have hsome := htrue hrequested
            rw [hnone] at hsome
            cases hsome
        · rcases hcases with hsame | ⟨-, hnew⟩
          · rw [hsame] at hm
            exact hfalse hrequested m hm
          · rw [hnew] at hm
            cases hm
            exact hlate.1.trans hnow
    | ended =>
        rw [hphase] at hcovered
        exact hcovered

end Rows

/-! ## The invariant -/

/-- What every call keeps that beats in time. -/
structure BeatKept (d : Dialect) (leaseOf : String → Int) (clockMs : Int) (w : String)
    (latencyMs : Int) (misses : Nat) (s : BeatState J) : Prop where
  reach : (protocol d).Reachable (UsesLease leaseOf) (ProtocolState.fresh clockMs) s.world
  timely : Timely (leaseOf w) latencyMs s
  missed : s.missed ≤ misses
  flags : ∀ c ∈ s.ctxs, c.settled = true ∨ c.lostLease = true → c.finished = true
  held : ∀ c ∈ s.ctxs, c.finished = false → ∃ t u, Holds (leaseOf w) w s c t u
  now_lt : ∀ c ∈ s.ctxs, c.finished = false → s.nowMs < s.heardMs + leaseOf w

theorem Timely.later {leaseMs latencyMs : Int} {s s' : BeatState J}
    (h : Timely leaseMs latencyMs s) (hheard : s'.heardMs = s.heardMs) (hphase : s'.phase = s.phase)
    (hmissed : s'.missed = s.missed) (hnow : s.nowMs ≤ s'.nowMs) : Timely leaseMs latencyMs s' := by
  unfold Timely at h ⊢
  rw [hheard, hphase, hmissed]
  refine ⟨h.1.trans hnow, ?_⟩
  have hlate := h.2
  cases hs : s.phase with
  | sleeping sinceMs | calling ids sinceMs | answered ids flags sinceMs =>
      rw [hs] at hlate
      exact ⟨hlate.1.trans hnow, hlate.2⟩
  | ended => exact trivial

section Kept

variable {d : Dialect} {leaseOf : String → Int} {clockMs latencyMs : Int} {w : String}
  {misses : Nat} {s s' : BeatState J} {ev : BeatEvent J}

/-- Nothing happens to an unfinished task after its lease. -/
theorem BeatKept.live (h : BeatKept d leaseOf clockMs w latencyMs misses s)
    (hlatency : 0 ≤ latencyMs)
    (hslack : (misses + 1) * roundMs (leaseOf w) latencyMs + latencyMs < leaseOf w)
    (hin : BeatsInTime leaseOf w latencyMs misses s ev) {nowMs : Int} (hnow : nowMs ∈ ev.time)
    {c : BeatContext} (hc : c ∈ s.ctxs) (hopen : c.finished = false) :
    nowMs < s.heardMs + leaseOf w := by
  rcases h.held c hc hopen with ⟨t, u, hholds⟩
  cases hdeadline : s.phase.deadline (leaseOf w) latencyMs with
  | some deadline =>
      exact h.timely.lt_lease hlatency hslack h.missed hdeadline (hin.1 nowMs hnow _ hdeadline)
  | none =>
      have hcovered := hholds.covered
      cases hphase : s.phase with
      | ended =>
          rw [hphase] at hcovered
          exact hcovered.elim
      | _ =>
          rw [hphase] at hdeadline
          cases hdeadline

/-- A context of the call after a statement of the world, as it was before. -/
theorem mem_ctxs_of_execute {e : Execution J} (hexecute : s.execute d e = some s')
    {c' : BeatContext} (hc' : c' ∈ s'.ctxs) : ∃ c ∈ s.ctxs, c' = c.noting s'.world.db e.nowMs := by
  rcases execute_eq_some_iff.mp hexecute with ⟨-, world, -, rfl⟩
  rcases List.mem_map.mp hc' with ⟨c, hc, rfl⟩
  exact ⟨c, hc, rfl⟩

/-- A statement that settles no task in hand. -/
theorem BeatKept.execute (h : BeatKept d leaseOf clockMs w latencyMs misses s) {e : Execution J}
    (huses : e.statement.UsesLease leaseOf)
    (hnot : ∀ c ∈ s.ctxs, c.finished = false → ¬e.statement.Settles c.taskId w)
    (hlive : ∀ c ∈ s.ctxs, c.finished = false → e.nowMs < s.heardMs + leaseOf w)
    (hexecute : s.execute d e = some s') :
    BeatKept d leaseOf clockMs w latencyMs misses s' := by
  have hbefore := fun c' (hc' : c' ∈ _) => mem_ctxs_of_execute hexecute hc'
  have hholds : ∀ c ∈ s.ctxs, c.finished = false →
      ∃ t u, Holds (leaseOf w) w s' (c.noting s'.world.db e.nowMs) t u := by
    intro c hc hopen
    rcases h.held c hc hopen with ⟨t, u, hholds⟩
    exact hholds.execute h.reach h.timely huses (hnot c hc hopen)
      ((hlive c hc hopen).trans_le hholds.heard) hexecute
  rcases execute_eq_some_iff.mp hexecute with ⟨hnow, world, hstep, rfl⟩
  refine ⟨h.reach.tail huses hstep, h.timely.later rfl rfl rfl hnow, h.missed, fun c' hc' => ?_,
    fun c' hc' hopen => ?_, fun c' hc' hopen => ?_⟩
  · rcases hbefore c' hc' with ⟨c, hc, rfl⟩
    exact h.flags c hc
  · rcases hbefore c' hc' with ⟨c, hc, rfl⟩
    exact hholds c hc hopen
  · rcases hbefore c' hc' with ⟨c, hc, rfl⟩
    exact hlive c hc hopen

/-- An answer to a write that holds the lease names its task. -/
theorem Holds.named {c : BeatContext} {t : Task J} {u : Int} (h : Holds (leaseOf w) w s c t u)
    {held : String → Bool} {nowMs : Int} (hlive : nowMs < u) {st : Statement J}
    (hst : st.ChecksOwner c.taskId w) :
    (Execution.reply d s.world.db { nowMs := nowMs, held := held, statement := st }).names
      c.taskId = true :=
  (exec_checksOwner_names hst).mpr
    ⟨t, h.row, h.running.1, h.running.2.1, u, h.running.2.2, hlive⟩

/-- A change of contexts that leaves those in hand as they are, or tells them what they know. -/
theorem BeatKept.retell (h : BeatKept d leaseOf clockMs w latencyMs misses s)
    {f : BeatContext → BeatContext}
    (hflags : ∀ c ∈ s.ctxs, (f c).settled = true ∨ (f c).lostLease = true → (f c).finished = true)
    (hopen : ∀ c ∈ s.ctxs, (f c).finished = false → c.finished = false ∧
      ∀ t u, Holds (leaseOf w) w s c t u → Holds (leaseOf w) w s (f c) t u) :
    BeatKept d leaseOf clockMs w latencyMs misses { s with ctxs := s.ctxs.map f } := by
  refine ⟨h.reach, h.timely, h.missed, fun c' hc' => ?_, fun c' hc' hfree => ?_,
    fun c' hc' hfree => ?_⟩
  all_goals rcases List.mem_map.mp hc' with ⟨c, hc, rfl⟩
  · exact hflags c hc
  · rcases hopen c hc hfree with ⟨hfree', hkeep⟩
    rcases h.held c hc hfree' with ⟨t, u, hholds⟩
    have hkept := hkeep t u hholds
    exact ⟨t, u, hkept.row, hkept.running, hkept.heard, hkept.asked, hkept.seen, hkept.unseen,
      hkept.covered⟩
  · exact h.now_lt c hc (hopen c hc hfree).1

/-- A settlement through a context: whether the task is in hand, its context learns. -/
theorem BeatKept.settle (h : BeatKept d leaseOf clockMs w latencyMs misses s) {id : String}
    {write : OwnedWrite J} {e : Execution J} (hst : e.statement = .owned id w write)
    (hsettlement : write.isSettlement = true)
    (hlive : ∀ c ∈ s.ctxs, c.finished = false → e.nowMs < s.heardMs + leaseOf w)
    (hexecute : s.execute d e = some s') :
    BeatKept d leaseOf clockMs w latencyMs misses
      { s' with
        ctxs := s'.ctxs.map fun c =>
          if c.taskId = id then c.answered ((e.reply d s.world.db).names id) else c } := by
  have hnamed : ∀ c ∈ s.ctxs, c.taskId = id → c.finished = false →
      (e.reply d s.world.db).names id = true := by
    intro c hc hid hopen
    rcases h.held c hc hopen with ⟨t, u, hholds⟩
    have hchecks : e.statement.ChecksOwner c.taskId w := by
      rw [hst]
      exact ⟨hid.symm, rfl⟩
    rw [← hid]
    exact hholds.named ((hlive c hc hopen).trans_le hholds.heard) hchecks
  generalize (e.reply d s.world.db).names id = named at hnamed ⊢
  -- the contexts of the task are answered before the statement instead of after it
  have hopen_of : ∀ c : BeatContext, (c.answered named).finished = false →
      named = false ∧ c.finished = false := by
    intro c hopen
    cases named with
    | true => cases hopen
    | false => exact ⟨rfl, hopen⟩
  have htold : BeatKept d leaseOf clockMs w latencyMs misses
      { s with ctxs := s.ctxs.map fun c => if c.taskId = id then c.answered named else c } := by
    refine h.retell (fun c hc hflags => ?_) fun c hc hopen => ?_
    · by_cases hid : c.taskId = id
      · rw [if_pos hid]
        by_contra hopen
        rcases hopen_of c (Bool.eq_false_iff.mpr hopen) with ⟨hnot, hfree⟩
        exact absurd (hnot.symm.trans (hnamed c hc hid hfree)) (by decide)
      · rw [if_neg hid] at hflags ⊢
        exact h.flags c hc hflags
    · by_cases hid : c.taskId = id
      · rw [if_pos hid] at hopen
        rcases hopen_of c hopen with ⟨hnot, hfree⟩
        exact absurd (hnot.symm.trans (hnamed c hc hid hfree)) (by decide)
      · rw [if_neg hid] at hopen ⊢
        exact ⟨hopen, fun _ _ hholds => hholds⟩
  rcases execute_eq_some_iff.mp hexecute with ⟨hnow, world, hworld, rfl⟩
  refine htold.execute (e := e) ?_ (fun c' hc' hopen => ?_) (fun c' hc' hopen => ?_) ?_
  · rw [hst]
    cases write <;> first | exact trivial | cases hsettlement
  · rcases List.mem_map.mp hc' with ⟨c, hc, rfl⟩
    by_cases hid : c.taskId = id
    · rw [if_pos hid] at hopen
      rcases hopen_of c hopen with ⟨hnot, hfree⟩
      exact absurd (hnot.symm.trans (hnamed c hc hid hfree)) (by decide)
    · rw [if_neg hid, hst]
      cases write <;> first | exact fun hsettles => hid hsettles.1.symm | cases hsettlement
  · rcases List.mem_map.mp hc' with ⟨c, hc, rfl⟩
    by_cases hid : c.taskId = id
    · rw [if_pos hid] at hopen
      exact hlive c hc (hopen_of c hopen).2
    · rw [if_neg hid] at hopen
      exact hlive c hc hopen
  · refine execute_eq_some_iff.mpr ⟨hnow, world, hworld, ?_⟩
    have hcomm : ∀ c : BeatContext,
        (if (c.noting world.db e.nowMs).taskId = id then
            (c.noting world.db e.nowMs).answered named
          else c.noting world.db e.nowMs) =
          (if c.taskId = id then c.answered named else c).noting world.db e.nowMs := by
      intro c
      show (if c.taskId = id then _ else _) = _
      by_cases hid : c.taskId = id
      · rw [if_pos hid, if_pos hid]
        cases named <;> rfl
      · rw [if_neg hid, if_neg hid]
    simp only [List.map_map]
    congr 1
    exact List.map_congr_left fun c _ => hcomm c

/-- `_mark_settled`. -/
theorem BeatKept.mark (h : BeatKept d leaseOf clockMs w latencyMs misses s) {id : String}
    (hstep : heartbeatLoop d w (leaseOf w) s (.mark id) = some s') :
    BeatKept d leaseOf clockMs w latencyMs misses s' := by
  simp only [heartbeatLoop, Option.some.injEq] at hstep
  subst hstep
  refine h.retell (fun c hc hflags => ?_) fun c hc hopen => ?_
  · split at hflags
    · rename_i hdone
      rw [if_pos hdone]
      exact hdone.2
    · rename_i hdone
      rw [if_neg hdone]
      exact h.flags c hc hflags
  · split at hopen
    · rename_i hdone
      exact absurd (hdone.2.symm.trans hopen) (by decide)
    · rename_i hdone
      refine ⟨hopen, fun t u hholds => ?_⟩
      rw [if_neg hdone]
      exact hholds

/-- `canceled` reads the row. -/
theorem BeatKept.check (h : BeatKept d leaseOf clockMs w latencyMs misses s) {id : String}
    (hstep : heartbeatLoop d w (leaseOf w) s (.check id) = some s') :
    BeatKept d leaseOf clockMs w latencyMs misses s' := by
  simp only [heartbeatLoop, Option.some.injEq] at hstep
  subst hstep
  refine h.retell (fun c hc hflags => ?_) fun c hc hopen => ?_
  · split at hflags
    · rename_i hasked
      rw [if_pos hasked]
      exact h.flags c hc hflags
    · rename_i hasked
      rw [if_neg hasked]
      exact h.flags c hc hflags
  · split at hopen
    · rename_i hasked
      refine ⟨hopen, fun t u hholds => ?_⟩
      rw [if_pos hasked]
      have hsome : c.askedMs.isSome = true := by
        rw [← hholds.asked]
        simpa [← hasked.1, hholds.row] using hasked.2
      exact ⟨hholds.row, hholds.running, hholds.heard, hholds.asked, fun _ => hsome,
        fun _ _ => Or.inl rfl, hholds.covered⟩
    · rename_i hasked
      refine ⟨hopen, fun t u hholds => ?_⟩
      rw [if_neg hasked]
      exact hholds

/-- The loop wakes up. -/
theorem BeatKept.wake (h : BeatKept d leaseOf clockMs w latencyMs misses s)
    (hlatency : 0 ≤ latencyMs)
    (hslack : (misses + 1) * roundMs (leaseOf w) latencyMs + latencyMs < leaseOf w) {nowMs : Int}
    (hin : BeatsInTime leaseOf w latencyMs misses s (.wake nowMs))
    (hstep : heartbeatLoop d w (leaseOf w) s (.wake nowMs) = some s') :
    BeatKept d leaseOf clockMs w latencyMs misses s' := by
  have hlive : ∀ c ∈ s.ctxs, c.finished = false → nowMs < s.heardMs + leaseOf w :=
    fun c hc hopen => h.live hlatency hslack hin rfl hc hopen
  simp only [heartbeatLoop] at hstep
  split at hstep
  · rename_i sinceMs hphase
    have hlate := h.timely.2
    have hdeadline := hin.1 nowMs rfl _ (congrArg (BeatPhase.deadline (leaseOf w) latencyMs) hphase)
    rw [hphase] at hlate
    split at hstep
    · rename_i hnow
      cases hstep
      have hin_hand : ∀ c ∈ s.ctxs, c.finished = false → c ∈ s.ctxs.filter BeatContext.live := by
        intro c hc hopen
        have hflags := h.flags c hc
        rw [hopen] at hflags
        refine List.mem_filter.mpr ⟨hc, ?_⟩
        simpa [BeatContext.live] using hflags
      refine ⟨h.reach, ⟨h.timely.1.trans hnow.1, ?_⟩, h.missed, h.flags, fun c hc hopen => ?_,
        hlive⟩
      · dsimp only at hlate ⊢
        by_cases hempty : (s.ctxs.filter BeatContext.live).isEmpty = true
        · rw [if_pos hempty]
          exact trivial
        · rw [if_neg hempty]
          exact ⟨le_refl nowMs, by omega⟩
      · rcases h.held c hc hopen with ⟨t, u, hholds⟩
        refine ⟨t, u, hholds.row, hholds.running, hholds.heard, hholds.asked, hholds.seen,
          hholds.unseen, ?_⟩
        have hmem := hin_hand c hc hopen
        show BeatPhase.Covers (leaseOf w) c u (if _ then _ else _)
        rw [if_neg]
        · exact List.mem_map_of_mem hmem
        · rw [List.isEmpty_iff]
          exact List.ne_nil_of_mem hmem
    · cases hstep
  · cases hstep

/-- A beat is executed: it renews every task in hand. -/
theorem BeatKept.beat (h : BeatKept d leaseOf clockMs w latencyMs misses s)
    (hlatency : 0 ≤ latencyMs)
    (hslack : (misses + 1) * roundMs (leaseOf w) latencyMs + latencyMs < leaseOf w) {nowMs : Int}
    {held : String → Bool} (hin : BeatsInTime leaseOf w latencyMs misses s (.beat nowMs held))
    (hstep : heartbeatLoop d w (leaseOf w) s (.beat nowMs held) = some s') :
    BeatKept d leaseOf clockMs w latencyMs misses s' := by
  have hlive : ∀ c ∈ s.ctxs, c.finished = false → nowMs < s.heardMs + leaseOf w :=
    fun c hc hopen => h.live hlatency hslack hin rfl hc hopen
  simp only [heartbeatLoop] at hstep
  split at hstep
  · rename_i ids sinceMs hphase
    have hlate := h.timely.2
    have hdeadline := hin.1 nowMs rfl _ (congrArg (BeatPhase.deadline (leaseOf w) latencyMs) hphase)
    rw [hphase] at hlate
    dsimp only at hlate
    rcases Option.map_eq_some_iff.mp hstep with ⟨s₁, hexecute, rfl⟩
    have hbefore := fun c' (hc' : c' ∈ _) => mem_ctxs_of_execute hexecute hc'
    have huses : (Statement.heartbeatBatch (J := J) ids w (leaseOf w)).UsesLease leaseOf := rfl
    have hkept := h.execute
      (e := { nowMs := nowMs, held := held, statement := .heartbeatBatch ids w (leaseOf w) })
      huses (fun _ _ _ hsettles => hsettles) hlive hexecute
    rcases execute_eq_some_iff.mp hexecute with ⟨hnow, world, hworld, rfl⟩
    have hround := succ_mul_roundMs s.missed (leaseOf w) latencyMs
    refine ⟨hkept.reach, ⟨h.timely.1.trans hnow, le_refl nowMs, h.timely.1.trans hnow, ?_⟩,
      h.missed, hkept.flags, fun c' hc' hopen => ?_, hkept.now_lt⟩
    · show nowMs ≤ s.heardMs + (s.missed + 1) * roundMs (leaseOf w) latencyMs
      omega
    · rcases hbefore c' hc' with ⟨c, hc, rfl⟩
      rcases h.held c hc hopen with ⟨t, u, hold⟩
      rcases hkept.held _ hc' hopen with ⟨t', u', hnew⟩
      have hmem : c.taskId ∈ ids := by
        have hcovered := hold.covered
        rw [hphase] at hcovered
        exact hcovered
      have howned : Owned w nowMs t :=
        ⟨hold.running.1, hold.running.2.1, u, hold.running.2.2,
          (hlive c hc hopen).trans_le hold.heard⟩
      -- the answer names the task, whose lease is new
      have hflag : flagOf (heartbeatBatchFlags d held nowMs ids w (leaseOf w) s.world.db).2
          c.taskId = some t.cancelRequestedAtMs.isSome := by
        rw [(heartbeatBatchFlags_eq d held nowMs ids w (leaseOf w) s.world.db).2 _ hmem, heldFlag,
          hold.row, Option.bind_some, if_pos (owned_iff.mpr howned)]
      have hsets : (Statement.heartbeatBatch (J := J) ids w (leaseOf w)).SetsLease c.taskId w := rfl
      rcases runningUnder_of_setsLease
        (e := { nowMs := nowMs, held := held, statement := .heartbeatBatch ids w (leaseOf w) })
        huses hsets hworld (hold.named ((hlive c hc hopen).trans_le hold.heard) ⟨hmem, rfl⟩) with
        ⟨r, hr, hrenewed⟩
      have hrow : world.db.get c.taskId = some t' := hnew.row
      rw [hr] at hrow
      cases hrow
      have huntil : u' = nowMs + leaseOf w :=
        Option.some.inj (hnew.running.2.2.symm.trans hrenewed.2.2)
      refine ⟨t', u', hnew.row, hnew.running, hnew.heard, hnew.asked, hnew.seen, hnew.unseen, hmem,
        huntil.ge, _, hflag, fun hrequested => ?_, fun hrequested m hm => ?_⟩
      · rw [hold.asked] at hrequested
        rcases c.noting_cases world.db nowMs with hsame | ⟨-, hnoted⟩
        · rw [hsame]
          exact hrequested
        · rw [hnoted]
          rfl
      · rw [hold.asked] at hrequested
        rcases c.noting_cases world.db nowMs with hsame | ⟨-, hnoted⟩
        · rw [hsame, Option.mem_def] at hm
          rw [hm] at hrequested
          cases hrequested
        · rw [hnoted, Option.mem_def, Option.some.injEq] at hm
          exact hm.le
  · cases hstep

/-- The answer to a beat is read. -/
theorem BeatKept.read (h : BeatKept d leaseOf clockMs w latencyMs misses s)
    (hlatency : 0 ≤ latencyMs)
    (hslack : (misses + 1) * roundMs (leaseOf w) latencyMs + latencyMs < leaseOf w) {nowMs : Int}
    (hin : BeatsInTime leaseOf w latencyMs misses s (.read nowMs))
    (hstep : heartbeatLoop d w (leaseOf w) s (.read nowMs) = some s') :
    BeatKept d leaseOf clockMs w latencyMs misses s' := by
  simp only [heartbeatLoop] at hstep
  split at hstep
  · rename_i ids flags sinceMs hphase
    have hlate := h.timely.2
    have hdeadline := hin.1 nowMs rfl _ (congrArg (BeatPhase.deadline (leaseOf w) latencyMs) hphase)
    rw [hphase] at hlate
    dsimp only at hlate
    have hround : 0 ≤ (misses + 1 : Int) * roundMs (leaseOf w) latencyMs :=
      Int.mul_nonneg (by omega) (roundMs_nonneg hlatency)
    have hheard : ∀ c ∈ s.ctxs, c.finished = false → ∃ t u requested,
        Holds (leaseOf w) w s c t u ∧ c.taskId ∈ ids ∧ sinceMs + leaseOf w ≤ u ∧
          flagOf flags c.taskId = some requested ∧
          (requested = true → c.askedMs.isSome = true) ∧
          (requested = false → ∀ m ∈ c.askedMs, sinceMs ≤ m) := by
      intro c hc hopen
      rcases h.held c hc hopen with ⟨t, u, hholds⟩
      have hcovered := hholds.covered
      rw [hphase] at hcovered
      rcases hcovered with ⟨hmem, huntil, requested, hflag, htrue, hfalse⟩
      exact ⟨t, u, requested, hholds, hmem, huntil, hflag, htrue, hfalse⟩
    have hopen_of : ∀ c : BeatContext,
        (if c.taskId ∈ ids then c.observe flags else c).finished = c.finished := by
      intro c
      split
      · unfold BeatContext.observe
        split
        · rfl
        · split <;> rfl
      · rfl
    split at hstep
    · rename_i hnow
      cases hstep
      refine ⟨h.reach, ⟨hlate.1.trans hnow, le_refl nowMs, by simpa using hdeadline⟩,
        Nat.zero_le misses, fun c' hc' hflags => ?_, fun c' hc' hopen => ?_, fun c' hc' hopen => ?_⟩
      · rcases List.mem_map.mp hc' with ⟨c, hc, rfl⟩
        rw [hopen_of]
        by_contra hopen
        rw [Bool.not_eq_true] at hopen
        rcases hheard c hc hopen with ⟨t, u, requested, -, hmem, -, hflag, -, -⟩
        have hnone := h.flags c hc
        rw [if_pos hmem, BeatContext.observe, hflag] at hflags
        exact absurd ((hnone hflags).symm.trans hopen) (by decide)
      · rcases List.mem_map.mp hc' with ⟨c, hc, rfl⟩
        rw [hopen_of] at hopen
        rcases hheard c hc hopen with ⟨t, u, requested, hholds, hmem, huntil, hflag, htrue, hfalse⟩
        refine ⟨t, u, ?_⟩
        rw [if_pos hmem, BeatContext.observe, hflag]
        refine ⟨hholds.row, hholds.running, huntil, hholds.asked, fun hseen => ?_,
          fun m hm => ?_, trivial⟩
        · rcases Bool.or_eq_true_iff.mp hseen with hseen | hrequested
          · exact hholds.seen hseen
          · exact htrue hrequested
        · cases requested with
          | true => exact Or.inl (Bool.or_true _)
          | false => exact Or.inr (hfalse rfl m hm)
      · show nowMs < sinceMs + leaseOf w
        omega
    · cases hstep
  · cases hstep

/-- A beat fails. -/
theorem BeatKept.error (h : BeatKept d leaseOf clockMs w latencyMs misses s)
    (hlatency : 0 ≤ latencyMs)
    (hslack : (misses + 1) * roundMs (leaseOf w) latencyMs + latencyMs < leaseOf w) {nowMs : Int}
    (hin : BeatsInTime leaseOf w latencyMs misses s (.error nowMs))
    (hstep : heartbeatLoop d w (leaseOf w) s (.error nowMs) = some s') :
    BeatKept d leaseOf clockMs w latencyMs misses s' := by
  have hlive : ∀ c ∈ s.ctxs, c.finished = false → nowMs < s.heardMs + leaseOf w :=
    fun c hc hopen => h.live hlatency hslack hin rfl hc hopen
  have hround := succ_mul_roundMs s.missed (leaseOf w) latencyMs
  have hheld : ∀ c ∈ s.ctxs, c.finished = false → ∃ t u, Holds (leaseOf w) w
      { s with nowMs := nowMs, phase := .sleeping nowMs, missed := s.missed + 1 } c t u := by
    intro c hc hopen
    rcases h.held c hc hopen with ⟨t, u, hholds⟩
    exact ⟨t, u, hholds.row, hholds.running, hholds.heard, hholds.asked, hholds.seen,
      hholds.unseen, trivial⟩
  have hlate := h.timely.2
  simp only [heartbeatLoop] at hstep
  split at hstep
  · rename_i ids sinceMs hphase
    have hdeadline := hin.1 nowMs rfl _ (congrArg (BeatPhase.deadline (leaseOf w) latencyMs) hphase)
    rw [hphase] at hlate
    dsimp only at hlate
    split at hstep
    · rename_i hnow
      cases hstep
      refine ⟨h.reach, ⟨h.timely.1.trans hnow, le_refl nowMs, ?_⟩, hin.2, h.flags, hheld, hlive⟩
      show nowMs ≤ s.heardMs + ((s.missed + 1 : Nat) : Int) * roundMs (leaseOf w) latencyMs +
        latencyMs
      rw [Int.natCast_add, Int.natCast_one]
      omega
    · cases hstep
  · rename_i ids flags sinceMs hphase
    have hdeadline := hin.1 nowMs rfl _ (congrArg (BeatPhase.deadline (leaseOf w) latencyMs) hphase)
    rw [hphase] at hlate
    dsimp only at hlate
    split at hstep
    · rename_i hnow
      cases hstep
      refine ⟨h.reach, ⟨h.timely.1.trans hnow, le_refl nowMs, ?_⟩, hin.2, h.flags, hheld, hlive⟩
      show nowMs ≤ s.heardMs + ((s.missed + 1 : Nat) : Int) * roundMs (leaseOf w) latencyMs +
        latencyMs
      rw [Int.natCast_add, Int.natCast_one]
      omega
    · cases hstep
  · cases hstep

theorem BeatKept.of_step (h : BeatKept d leaseOf clockMs w latencyMs misses s)
    (hlatency : 0 ≤ latencyMs)
    (hslack : (misses + 1) * roundMs (leaseOf w) latencyMs + latencyMs < leaseOf w)
    (hin : BeatsInTime leaseOf w latencyMs misses s ev)
    (hstep : heartbeatLoop d w (leaseOf w) s ev = some s') :
    BeatKept d leaseOf clockMs w latencyMs misses s' := by
  cases ev with
  | elsewhere e =>
      exact h.execute hin.2.1 hin.2.2
        (fun c hc hopen => h.live hlatency hslack hin rfl hc hopen) hstep
  | settle id write nowMs held =>
      simp only [heartbeatLoop, Option.ite_none_right_eq_some] at hstep
      rcases hstep with ⟨hsettlement, hstep⟩
      rcases Option.map_eq_some_iff.mp hstep with ⟨s₁, hexecute, rfl⟩
      exact h.settle rfl hsettlement (fun c hc hopen => h.live hlatency hslack hin rfl hc hopen)
        hexecute
  | mark id => exact h.mark hstep
  | check id => exact h.check hstep
  | wake nowMs => exact h.wake hlatency hslack hin hstep
  | beat nowMs held => exact h.beat hlatency hslack hin hstep
  | read nowMs => exact h.read hlatency hslack hin hstep
  | error nowMs => exact h.error hlatency hslack hin hstep

/-- The start of a call whose tasks were claimed. -/
theorem beatKept_claimed {p p' : ProtocolState J} {e : Execution J}
    (hreach : (protocol d).Reachable (UsesLease leaseOf) (ProtocolState.fresh clockMs) p)
    (hstep : protocol d p e = some p') {filter : ClaimFilter} {limit : Int}
    (hclaim : e.statement = .claim filter w (leaseOf w) limit) {ids : List String}
    (hids : ∀ id ∈ ids, (e.reply d p.db).names id = true) (hlatency : 0 ≤ latencyMs)
    (hslack : (misses + 1) * roundMs (leaseOf w) latencyMs + latencyMs < leaseOf w)
    {sinceMs : Int} (hsince : e.nowMs ≤ sinceMs ∧ sinceMs ≤ e.nowMs + latencyMs) :
    BeatKept d leaseOf clockMs w latencyMs misses (.claimed p' ids e.nowMs sinceMs) := by
  have huses : e.statement.UsesLease leaseOf := by
    rw [hclaim]
    rfl
  have hround : 0 ≤ (misses + 1 : Int) * roundMs (leaseOf w) latencyMs :=
    Int.mul_nonneg (by omega) (roundMs_nonneg hlatency)
  have hstart : sinceMs ≤ e.nowMs + (0 : Nat) * roundMs (leaseOf w) latencyMs + latencyMs := by
    simpa using hsince.2
  refine ⟨hreach.tail huses hstep, ⟨hsince.1, le_refl sinceMs, hstart⟩, Nat.zero_le misses,
    fun c hc hflags => ?_, fun c hc _ => ?_, fun c hc _ => ?_⟩
  · rcases List.mem_map.mp hc with ⟨id, -, rfl⟩
    rcases hflags with h | h <;> cases h
  · rcases List.mem_map.mp hc with ⟨id, hid, rfl⟩
    have hsets : e.statement.SetsLease id w := by
      rw [hclaim]
      rfl
    rcases runningUnder_of_setsLease huses hsets hstep (hids id hid) with ⟨t, ht, hrunning⟩
    have hget : p'.db.get id = some t := ht
    refine ⟨t, _, ht, hrunning, le_refl _, ?_, (fun hseen => nomatch hseen), fun m hm => ?_,
      trivial⟩
    · simp [BeatContext.noting, hget]
    · rcases BeatContext.noting_cases p'.db e.nowMs _ with hsame | ⟨-, hnew⟩
      · rw [hsame] at hm
        cases hm
      · rw [hnew, Option.mem_def, Option.some.injEq] at hm
        exact Or.inr hm.le
  · show sinceMs < e.nowMs + leaseOf w
    omega

/-- A worker that beats in time, with few failures in a row, keeps every task of a call until the
task is settled through its context, whatever anybody else does: its row is owned and its
context not flagged.  The context knows of no cancellation that nobody asked for, and of one
that somebody did at most one lease later. -/
theorem heartbeat_holds {p p' : ProtocolState J} {e : Execution J}
    (hreach : (protocol d).Reachable (UsesLease leaseOf) (ProtocolState.fresh clockMs) p)
    (hstep : protocol d p e = some p') {filter : ClaimFilter} {limit : Int}
    (hclaim : e.statement = .claim filter w (leaseOf w) limit) {ids : List String}
    (hids : ∀ id ∈ ids, (e.reply d p.db).names id = true) (hlatency : 0 ≤ latencyMs)
    (hslack : (misses + 1) * roundMs (leaseOf w) latencyMs + latencyMs < leaseOf w)
    {sinceMs : Int} (hsince : e.nowMs ≤ sinceMs ∧ sinceMs ≤ e.nowMs + latencyMs)
    {evs : List (BeatEvent J)}
    (hsteps : (heartbeatLoop d w (leaseOf w)).Steps (BeatsInTime leaseOf w latencyMs misses)
      (.claimed p' ids e.nowMs sinceMs) evs s) :
    ∀ c ∈ s.ctxs, c.finished = false → c.lostLease = false ∧
      ∃ t, s.world.db.get c.taskId = some t ∧ Owned w s.nowMs t ∧
        t.cancelRequestedAtMs.isSome = c.askedMs.isSome ∧
        (c.cancelSeen = true → c.askedMs.isSome = true) ∧
        ∀ m ∈ c.askedMs, c.cancelSeen = true ∨ s.nowMs < m + leaseOf w := by
  have hkept : BeatKept d leaseOf clockMs w latencyMs misses s :=
    hsteps.invariant (fun _ _ _ h hin hstep => h.of_step hlatency hslack hin hstep)
      (beatKept_claimed hreach hstep hclaim hids hlatency hslack hsince)
  intro c hc hopen
  rcases hkept.held c hc hopen with ⟨t, u, hholds⟩
  have hlive := hkept.now_lt c hc hopen
  refine ⟨?_, t, hholds.row, ⟨hholds.running.1, hholds.running.2.1, u, hholds.running.2.2,
    hlive.trans_le hholds.heard⟩, hholds.asked, hholds.seen, fun m hm => ?_⟩
  · by_contra hlost
    have hfinished := hkept.flags c hc (Or.inr (by simpa using hlost))
    exact absurd (hfinished.symm.trans hopen) (by decide)
  · rcases hholds.unseen m hm with hseen | hheard
    · exact Or.inl hseen
    · exact Or.inr (by omega)

/-- The default lease leaves room for one failed beat and for delays of more than a second. -/
example : (1 + 1) * roundMs 30000 1400 + 1400 < 30000 := by decide

/-- A claim of one task. -/
def beatenClaim : Execution Nat :=
  .alone 1 (.claim (.claimOneQueue "default" none) "w" 300 1)

/-- One beat fails, somebody asks for a cancellation, and the next beat learns of it. -/
def beatenCall : List (BeatEvent Nat) :=
  [.wake 102, .error 106, .elsewhere (.alone 150 (.cancel "t")), .wake 208, .beat 210 unlocked,
    .read 212, .elsewhere (.alone 310 (.recoverLeases 8))]

/-- The recovery leaves the task to its worker, who knows of the cancellation. -/
theorem heartbeat_holds_beatenCall :
    let world := finalState .sqlite
      [.alone 0 (.insertTask (.plain "t" "work" 3 0)), beatenClaim]
    let s := (heartbeatLoop .sqlite "w" 300).drive (.claimed world ["t"] 1 2) beatenCall
    s.ctxs.map BeatContext.cancelSeen = [true] ∧
      ∀ c ∈ s.ctxs, c.finished = false → c.lostLease = false := by
  intro world s
  have hreach : (protocol .sqlite).Reachable (UsesLease fun _ => 300) (ProtocolState.fresh 0)
      (finalState .sqlite [.alone 0 (.insertTask (.plain "t" "work" 3 0))]) :=
    Machine.reachable_drive _ _ _ fun e he _ => by
      rw [List.mem_singleton.mp he]
      exact trivial
  have hsteps : (heartbeatLoop .sqlite "w" 300).Steps (BeatsInTime (fun _ => 300) "w" 5 1)
      (.claimed world ["t"] 1 2) beatenCall s := by
    refine .cons ⟨?_, trivial⟩ rfl (.cons ⟨?_, Nat.one_pos⟩ rfl
      (.cons ⟨?_, trivial, fun _ _ _ h => h⟩ rfl (.cons ⟨?_, trivial⟩ rfl
        (.cons ⟨?_, trivial⟩ rfl (.cons ⟨?_, trivial⟩ rfl
          (.cons ⟨?_, trivial, fun _ _ _ h => h⟩ rfl (.nil s)))))))
    all_goals
      intro nowMs hnow deadline hdeadline
      cases hnow
      cases hdeadline
      decide
  refine ⟨by decide +kernel, fun c hc hopen =>
    (heartbeat_holds hreach (show protocol .sqlite _ beatenClaim = some world from rfl) rfl (fun id hid => ?_) (by decide)
      (by decide) (by decide) hsteps c hc hopen).1⟩
  rw [List.mem_singleton.mp hid]
  rfl

end Kept

end CairnQ
