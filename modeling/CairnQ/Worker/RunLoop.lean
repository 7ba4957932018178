import CairnQ.Protocol.ClaimSession
import CairnQ.Worker.Fairness
import Mathlib.Data.List.Perm.Basic

/-!
# The run loop

`Worker.run` around its polls: what the loop waits for, what wakes it, and how it ends.  A
poll that drew nothing is followed by the idle sleep, which the poll interval, the store,
`stop` and a released unit cut short; the flag of the last is lowered before the claim
session, since a unit may come back while the session runs.  Whatever ends the loop, `run`
returns when the calls it started have ended.

Main results:

- Theorem `runLoop_refines`: the polls and the calls of the loop are those of `worker`.
- Theorem `idle_starved`: a loop that sleeps on, sleeps because its last session found
  nothing for any source that has room.
- Theorem `stop_drains`: once stopped, the loop returns, after a bounded number of steps
  and with every call of every session ended.
-/

namespace CairnQ

open Relational Transition

variable {J : Type}

/-! ## Sessions of a store -/

/-- A worker and what it claims with. -/
structure RunConfig extends WorkerConfig where
  dialect : Dialect
  queues : List String
  workerId : String
  leaseMs : Int

/-- `self._planner.names`. -/
def Handlers.names (handlers : Handlers) : List String :=
  handlers.entries.map Prod.fst

/-- What `run` opens its claim sessions with. -/
def RunConfig.input (cfg : RunConfig) : SessionInput where
  queues := cfg.queues
  names := some cfg.handlers.names
  workerId := cfg.workerId
  leaseMs := cfg.leaseMs

/-- What a statement of a session meets: the rows that others lock, the clock and the tables. -/
structure StoreView (J : Type) where
  held : String → Bool
  nowMs : Int
  db : Database J

/-- A row that a draw of the source would find. -/
def StoreView.drawable (cfg : RunConfig) (v : StoreView J) (src : ClaimSource) : Task J → Bool :=
  CairnQ.drawable (cfg.dialect.locked v.held) v.nowMs cfg.queues (some src.names)

/-- A draw of a session returns tasks of the names it asks for. -/
theorem nameIn_of_claimDraw {cfg : RunConfig} {v : StoreView J} {names : List String} {limit : Int}
    {t : Task J}
    (ht : t ∈ (claimDraw cfg.dialect v.held v.nowMs cfg.input (some names) limit v.db).2) :
    t.name ∈ names := by
  have hdraws := claimDraw_eq_reference cfg.dialect v.held v.nowMs cfg.input (some names) limit v.db
  rcases List.mem_map.mp (hdraws.returned.mem_iff.mp ht) with ⟨u, hu, rfl⟩
  have hdrawable := (hdraws.first.eligible u hu).2
  simp only [CairnQ.drawable, claimable, nameIn, Option.all_some, Bool.and_eq_true,
    decide_eq_true_eq] at hdrawable
  exact hdrawable.1.1.2

/-- A draw of a session returns no more than it asks for. -/
theorem length_claimDraw_le (cfg : RunConfig) (v : StoreView J) (names : List String)
    (limit : Nat) :
    (claimDraw cfg.dialect v.held v.nowMs cfg.input (some names) limit v.db).2.length ≤
      limit := by
  have hdraws := claimDraw_eq_reference cfg.dialect v.held v.nowMs cfg.input (some names) limit v.db
  have hlength := hdraws.first.length
  rw [hdraws.returned.length_eq, List.length_map]
  omega

/-- What the draws of a session return after its recovery. -/
def StoreView.session (cfg : RunConfig) (v : StoreView J) : ClaimSession J where
  claim names limit :=
    (claimDraw cfg.dialect v.held v.nowMs cfg.input (some names) limit v.db).2
  named _ _ _ := nameIn_of_claimDraw
  within := length_claimDraw_le cfg v

/-! ## State -/

/-- Where `run` stands: at the head of its loop, at one of its awaits, or at its end. -/
inductive RunPhase
  | turn
  /-- `asyncio.wait(running)` -/
  | full
  /-- in the claim session, before its plan -/
  | asked
  /-- in the claim session, after its plan -/
  | planned
  /-- `_idle`, with the flag of the released units or without it -/
  | idle (heeds : Bool)
  /-- `_sleep_or_stop` after a failed claim -/
  | backoff
  /-- `gather(*running)` -/
  | draining
  | returned
deriving DecidableEq, Repr

/-- The state of `run`: what its last session met, the draws that its sessions returned, and the
calls that have ended. -/
structure RunState (J : Type) where
  core : WorkerState J
  phase : RunPhase
  stopped : Bool
  freed : Bool
  seen : Option (StoreView J)
  drawn : List (Draw J)
  ended : List (RunningCall J)

/-- A worker at the start of its loop. -/
def RunState.fresh : RunState J where
  core := .fresh
  phase := .turn
  stopped := false
  freed := false
  seen := none
  drawn := []
  ended := []

/-! ## The machine -/

/-- What happens in and around a run. -/
inductive RunEvent (J : Type)
  /-- the loop goes on to its next await -/
  | turn
  | slot
  /-- the probe of the session finds no work -/
  | nothing (v : StoreView J)
  | plan (v : StoreView J)
  /-- the session returns -/
  | session
  | fail (turned : Bool)
  | wake
  | complete (i : Nat)
  | stop
  /-- an exception comes out of an await -/
  | interrupt (turned : Bool)
  | gathered

/-- A worker's run over a store that anybody may write to. -/
def runLoop (cfg : RunConfig) : Machine (RunState J) (RunEvent J)
  | s, .turn =>
      if s.phase = .turn then
        if s.stopped then some { s with phase := .draining }
        else if cfg.concurrency ≤ s.core.running.length then some { s with phase := .full }
        else if cfg.handlers.sources = [] then some { s with phase := .idle false }
        else (worker cfg.toWorkerConfig s.core .poll).map fun core =>
          { s with core := core, phase := .asked, freed := false }
      else none
  | s, .slot =>
      if s.phase = .full ∧ s.core.running.length < cfg.concurrency then
        some { s with phase := .turn }
      else none
  | s, .nothing v =>
      if s.phase = .asked ∧
          claimableProbe cfg.dialect v.nowMs cfg.queues (some cfg.handlers.names) v.db = false then
        (worker cfg.toWorkerConfig s.core (.fail false)).map fun core =>
          { s with core := core, phase := .idle true, seen := some v }
      else none
  | s, .plan v =>
      if s.phase = .asked then
        (worker cfg.toWorkerConfig s.core (.plan (v.session cfg))).map fun core =>
          { s with core := core, phase := .planned, seen := some v }
      else none
  | s, .session =>
      match s.phase, s.core.polling with
      | .planned, some (.planned draws) =>
          (worker cfg.toWorkerConfig s.core .dispatch).map fun core =>
            { s with
              core := core
              phase := if draws.isEmpty then .idle true else .turn
              drawn := s.drawn ++ draws }
      | _, _ => none
  | s, .fail turned =>
      if s.phase = .asked ∨ s.phase = .planned then
        (worker cfg.toWorkerConfig s.core (.fail turned)).map fun core =>
          { s with core := core, phase := .backoff }
      else none
  | s, .wake =>
      match s.phase with
      | .idle _ | .backoff => some { s with phase := .turn }
      | _ => none
  | s, .complete i =>
      match s.core.running[i]? with
      | some c =>
          (worker cfg.toWorkerConfig s.core (.complete i)).map fun core =>
            { s with
              core := core
              freed := s.freed || c.resource.isSome
              ended := s.ended ++ [c] }
      | none => none
  | s, .stop => if s.stopped then none else some { s with stopped := true }
  | s, .interrupt turned =>
      match s.phase with
      | .asked | .planned =>
          (worker cfg.toWorkerConfig s.core (.fail turned)).map fun core =>
            { s with core := core, phase := .draining }
      | .full | .idle _ | .backoff => some { s with phase := .draining }
      | _ => none
  | s, .gathered =>
      if s.phase = .draining ∧ s.core.running = [] then some { s with phase := .returned }
      else none

/-! ## One step -/

/-- What one step does, event by event. -/
inductive RunStep (cfg : RunConfig) (s : RunState J) : RunEvent J → RunState J → Prop
  | leave (hphase : s.phase = .turn) (hstopped : s.stopped = true) :
      RunStep cfg s .turn { s with phase := .draining }
  | fill (hphase : s.phase = .turn) (hstopped : s.stopped = false)
      (hfull : cfg.concurrency ≤ s.core.running.length) :
      RunStep cfg s .turn { s with phase := .full }
  | unregistered (hphase : s.phase = .turn) (hstopped : s.stopped = false)
      (hnone : cfg.handlers.sources = []) : RunStep cfg s .turn { s with phase := .idle false }
  | poll {core : WorkerState J} (hphase : s.phase = .turn) (hstopped : s.stopped = false)
      (hcore : worker cfg.toWorkerConfig s.core .poll = some core) :
      RunStep cfg s .turn { s with core := core, phase := .asked, freed := false }
  | slot (hphase : s.phase = .full) (hroom : s.core.running.length < cfg.concurrency) :
      RunStep cfg s .slot { s with phase := .turn }
  | nothing {v : StoreView J} {core : WorkerState J} (hphase : s.phase = .asked)
      (hprobe : claimableProbe cfg.dialect v.nowMs cfg.queues (some cfg.handlers.names) v.db =
        false)
      (hcore : worker cfg.toWorkerConfig s.core (.fail false) = some core) :
      RunStep cfg s (.nothing v) { s with core := core, phase := .idle true, seen := some v }
  | plan {v : StoreView J} {core : WorkerState J} (hphase : s.phase = .asked)
      (hcore : worker cfg.toWorkerConfig s.core (.plan (v.session cfg)) = some core) :
      RunStep cfg s (.plan v) { s with core := core, phase := .planned, seen := some v }
  | session {draws : List (Draw J)} {core : WorkerState J} (hphase : s.phase = .planned)
      (hplanned : s.core.polling = some (.planned draws))
      (hcore : worker cfg.toWorkerConfig s.core .dispatch = some core) :
      RunStep cfg s .session
        { s with
          core := core
          phase := if draws.isEmpty then .idle true else .turn
          drawn := s.drawn ++ draws }
  | fail {turned : Bool} {core : WorkerState J} (hphase : s.phase = .asked ∨ s.phase = .planned)
      (hcore : worker cfg.toWorkerConfig s.core (.fail turned) = some core) :
      RunStep cfg s (.fail turned) { s with core := core, phase := .backoff }
  | wake (hphase : s.phase = .backoff ∨ ∃ heeds, s.phase = .idle heeds) :
      RunStep cfg s .wake { s with phase := .turn }
  | complete {i : Nat} {c : RunningCall J} {core : WorkerState J}
      (hc : s.core.running[i]? = some c)
      (hcore : worker cfg.toWorkerConfig s.core (.complete i) = some core) :
      RunStep cfg s (.complete i)
        { s with core := core, freed := s.freed || c.resource.isSome, ended := s.ended ++ [c] }
  | stop (hstopped : s.stopped = false) : RunStep cfg s .stop { s with stopped := true }
  | interruptSession {turned : Bool} {core : WorkerState J}
      (hphase : s.phase = .asked ∨ s.phase = .planned)
      (hcore : worker cfg.toWorkerConfig s.core (.fail turned) = some core) :
      RunStep cfg s (.interrupt turned) { s with core := core, phase := .draining }
  | interruptWait {turned : Bool}
      (hphase : s.phase = .full ∨ s.phase = .backoff ∨ ∃ heeds, s.phase = .idle heeds) :
      RunStep cfg s (.interrupt turned) { s with phase := .draining }
  | gathered (hphase : s.phase = .draining) (hnone : s.core.running = []) :
      RunStep cfg s .gathered { s with phase := .returned }

section Step

variable {cfg : RunConfig} {s s' : RunState J} {e : RunEvent J}

theorem runStep_of_step (hstep : runLoop cfg s e = some s') : RunStep cfg s e s' := by
  cases e with
  | turn =>
      simp only [runLoop, Option.ite_none_right_eq_some] at hstep
      rcases hstep with ⟨hphase, hstep⟩
      split at hstep
      · cases hstep
        exact .leave hphase ‹_›
      · rename_i hstopped
        rw [Bool.not_eq_true] at hstopped
        split at hstep
        · cases hstep
          exact .fill hphase hstopped ‹_›
        · split at hstep
          · cases hstep
            exact .unregistered hphase hstopped ‹_›
          · rcases Option.map_eq_some_iff.mp hstep with ⟨core, hcore, rfl⟩
            exact .poll hphase hstopped hcore
  | slot =>
      simp only [runLoop, Option.ite_none_right_eq_some, Option.some.injEq] at hstep
      rcases hstep with ⟨⟨hphase, hroom⟩, rfl⟩
      exact .slot hphase hroom
  | nothing v =>
      simp only [runLoop, Option.ite_none_right_eq_some] at hstep
      rcases hstep with ⟨⟨hphase, hprobe⟩, hstep⟩
      rcases Option.map_eq_some_iff.mp hstep with ⟨core, hcore, rfl⟩
      exact .nothing hphase hprobe hcore
  | plan v =>
      simp only [runLoop, Option.ite_none_right_eq_some] at hstep
      rcases hstep with ⟨hphase, hstep⟩
      rcases Option.map_eq_some_iff.mp hstep with ⟨core, hcore, rfl⟩
      exact .plan hphase hcore
  | session =>
      simp only [runLoop] at hstep
      split at hstep
      · rename_i draws hphase hplanned
        rcases Option.map_eq_some_iff.mp hstep with ⟨core, hcore, rfl⟩
        exact .session hphase hplanned hcore
      · cases hstep
  | fail turned =>
      simp only [runLoop, Option.ite_none_right_eq_some] at hstep
      rcases hstep with ⟨hphase, hstep⟩
      rcases Option.map_eq_some_iff.mp hstep with ⟨core, hcore, rfl⟩
      exact .fail hphase hcore
  | wake =>
      simp only [runLoop] at hstep
      split at hstep
      · rename_i heeds hphase
        cases hstep
        exact .wake (Or.inr ⟨heeds, hphase⟩)
      · cases hstep
        exact .wake (Or.inl ‹_›)
      · cases hstep
  | complete i =>
      simp only [runLoop] at hstep
      split at hstep
      · rename_i c hc
        rcases Option.map_eq_some_iff.mp hstep with ⟨core, hcore, rfl⟩
        exact .complete hc hcore
      · cases hstep
  | stop =>
      simp only [runLoop] at hstep
      split at hstep
      · cases hstep
      · rename_i hstopped
        cases hstep
        exact .stop (Bool.not_eq_true _ ▸ hstopped)
  | interrupt turned =>
      simp only [runLoop] at hstep
      split at hstep
      · rcases Option.map_eq_some_iff.mp hstep with ⟨core, hcore, rfl⟩
        exact .interruptSession (Or.inl ‹_›) hcore
      · rcases Option.map_eq_some_iff.mp hstep with ⟨core, hcore, rfl⟩
        exact .interruptSession (Or.inr ‹_›) hcore
      · cases hstep
        exact .interruptWait (Or.inl ‹_›)
      · rename_i heeds hphase
        cases hstep
        exact .interruptWait (Or.inr (Or.inr ⟨heeds, hphase⟩))
      · cases hstep
        exact .interruptWait (Or.inr (Or.inl ‹_›))
      · cases hstep
  | gathered =>
      simp only [runLoop, Option.ite_none_right_eq_some, Option.some.injEq] at hstep
      rcases hstep with ⟨⟨hphase, hnone⟩, rfl⟩
      exact .gathered hphase hnone

end Step

/-! ## The polls and the calls -/

section Core

variable {cfg : WorkerConfig} {w w' : WorkerState J}

theorem worker_poll (hstep : worker cfg w .poll = some w') :
    w' = { w with polling := some (.asked (cfg.concurrency - w.running.length)) } := by
  simp only [worker] at hstep
  split at hstep
  · split at hstep
    · cases hstep
      rfl
    · cases hstep
  · cases hstep

theorem worker_plan {session : ClaimSession J} (hstep : worker cfg w (.plan session) = some w') :
    ∃ free, w.polling = some (.asked free) ∧ w' =
      { w with
        cursor := w.turned cfg
        polling := some (.planned (w.record cfg free session).draws)
        plans := w.plans ++ [w.record cfg free session] } := by
  simp only [worker] at hstep
  split at hstep
  · rename_i free hasked
    cases hstep
    exact ⟨free, hasked, rfl⟩
  · cases hstep

theorem worker_fail {turned : Bool} (hstep : worker cfg w (.fail turned) = some w') :
    ∃ cursor, w' = { w with polling := none, cursor := cursor } := by
  simp only [worker] at hstep
  split at hstep
  · cases hstep
    exact ⟨_, rfl⟩
  · cases hstep
    exact ⟨w.cursor, rfl⟩
  · cases hstep

theorem worker_dispatch {draws : List (Draw J)} (hplanned : w.polling = some (.planned draws))
    (hstep : worker cfg w .dispatch = some w') :
    w' = (WorkerState.toStart draws).foldl WorkerState.start { w with polling := none } := by
  simp only [worker, hplanned] at hstep
  exact (Option.some.inj hstep).symm

theorem worker_complete {i : Nat} {c : RunningCall J} (hc : w.running[i]? = some c)
    (hstep : worker cfg w (.complete i) = some w') : w' =
      { w with
        inFlight := WorkerState.release w.inFlight c.resource
        running := w.running.eraseIdx i } := by
  simp only [worker, hc] at hstep
  exact (Option.some.inj hstep).symm

end Core

section Invariants

variable {cfg : RunConfig} {s s' : RunState J} {e : RunEvent J}

/-- A step of the loop is a step of its worker, or none. -/
theorem RunStep.core (hstep : RunStep cfg s e s') :
    s'.core = s.core ∨ ∃ l, worker cfg.toWorkerConfig s.core l = some s'.core := by
  cases hstep with
  | leave | fill | unregistered | slot | wake | stop | interruptWait | gathered =>
      exact Or.inl rfl
  | poll _ _ hcore => exact Or.inr ⟨_, hcore⟩
  | nothing _ _ hcore => exact Or.inr ⟨_, hcore⟩
  | plan _ hcore => exact Or.inr ⟨_, hcore⟩
  | session _ _ hcore => exact Or.inr ⟨_, hcore⟩
  | fail _ hcore => exact Or.inr ⟨_, hcore⟩
  | complete _ hcore => exact Or.inr ⟨_, hcore⟩
  | interruptSession _ hcore => exact Or.inr ⟨_, hcore⟩

/-- The polls and the calls of a loop are those of its worker. -/
theorem runLoop_refines (hreach : (runLoop cfg).Reachable anyStep RunState.fresh s) :
    (worker cfg.toWorkerConfig).Reachable anyStep .fresh s.core := by
  refine hreach.invariant
    (I := fun u => (worker cfg.toWorkerConfig).Reachable anyStep .fresh u.core)
    (fun u e u' h _ hstep => ?_) (Machine.Reachable.start _ _ _)
  rcases (runStep_of_step hstep).core with heq | ⟨l, hcore⟩
  · rw [heq]
    exact h
  · exact h.tail trivial hcore

/-- The phase of the loop and that of its poll agree. -/
def RunState.Agrees (s : RunState J) : Prop :=
  match s.phase with
  | .asked => ∃ free, s.core.polling = some (.asked free)
  | .planned => ∃ draws, s.core.polling = some (.planned draws)
  | _ => s.core.polling = none

theorem RunState.Agrees.of_step (h : s.Agrees) (hstep : RunStep cfg s e s') : s'.Agrees := by
  cases hstep with
  | leave hphase | fill hphase | unregistered hphase | slot hphase | gathered hphase =>
      rw [Agrees, hphase] at h
      exact h
  | wake hphase =>
      rcases hphase with hphase | ⟨heeds, hphase⟩ <;> rw [Agrees, hphase] at h <;> exact h
  | interruptWait hphase =>
      rcases hphase with hphase | hphase | ⟨heeds, hphase⟩ <;> rw [Agrees, hphase] at h <;> exact h
  | stop => exact h
  | poll _ _ hcore =>
      rw [worker_poll hcore]
      exact ⟨_, rfl⟩
  | plan _ hcore =>
      rcases worker_plan hcore with ⟨free, -, rfl⟩
      exact ⟨_, rfl⟩
  | nothing _ _ hcore | fail _ hcore | interruptSession _ hcore =>
      rcases worker_fail hcore with ⟨cursor, rfl⟩
      exact rfl
  | @session draws core _ hplanned hcore =>
      have hnone : core.polling = none := by
        rw [worker_dispatch hplanned hcore]
        exact (WorkerState.foldl_start _ _).2.1
      cases draws <;> exact hnone
  | complete hc hcore =>
      rw [worker_complete hc hcore]
      exact h

end Invariants

/-! ## The idle sleep -/

/-- The sources draw no other names than those the session is opened with. -/
theorem mem_names_of_source {handlers : Handlers} {src : ClaimSource}
    (hsrc : src ∈ handlers.sources) {name : String} (hname : name ∈ src.names) :
    name ∈ handlers.names := by
  unfold Handlers.sources at hsrc
  rcases List.mem_append.mp hsrc with hown | hshared
  · rcases List.mem_map.mp hown with ⟨entry, hentry, rfl⟩
    rw [List.mem_singleton.mp hname]
    exact List.mem_map_of_mem (List.mem_filter.mp hentry).1
  · split at hshared
    · cases hshared
    · rw [List.mem_singleton.mp hshared] at hname
      rcases List.mem_map.mp hname with ⟨entry, hentry, rfl⟩
      exact List.mem_map_of_mem (List.mem_filter.mp hentry).1

/-- A draw that asks for a row and returns none has met none. -/
theorem StoreView.undrawable_of_session {cfg : RunConfig} {v : StoreView J} {src : ClaimSource}
    {limit : Nat} (hlimit : 0 < limit)
    (hempty : (v.session cfg).claim src.names limit = []) :
    ∀ t ∈ v.db.tasks.rows, v.drawable cfg src t = false := by
  intro t ht
  rw [Bool.eq_false_iff]
  intro hdrawable
  have hdraws := claimDraw_eq_reference cfg.dialect v.held v.nowMs cfg.input (some src.names) limit
    v.db
  have hcount := List.countP_pos_iff.mpr ⟨t, ht, hdrawable⟩
  have hlength := hdraws.first.length
  have hreturned := hdraws.returned.length_eq
  rw [show (claimDraw cfg.dialect v.held v.nowMs cfg.input (some src.names) limit v.db).2 = [] from
    hempty, List.length_map, List.length_nil, hlength] at hreturned
  have hcount' : 0 < v.db.tasks.rows.countP (CairnQ.drawable (cfg.dialect.locked v.held) v.nowMs
    cfg.input.queues (some src.names)) := hcount
  omega

/-- An open source has a share of the free calls, before anything is drawn. -/
theorem quota_ne_zero {capacity inFlight : String → Nat} {src : ClaimSource} {left : Nat}
    (hleft : 0 < left) (hopen : src.Open capacity inFlight) :
    quota (headroom capacity inFlight (fun _ => 0) src) left ≠ 0 := by
  unfold headroom quota
  cases hres : src.resource with
  | none => exact Nat.ne_of_gt hleft
  | some r =>
      have hunit := hopen r hres
      show min (capacity r - inFlight r - 0) left ≠ 0
      omega

/-- A plan that drew nothing asked for every source that was open, and none had a row. -/
theorem claim_nil_of_plan_nil {cfg : WorkerConfig} {inFlight : String → Nat}
    {session : ClaimSession J} {sources : List ClaimSource} {left : Nat} (hleft : 0 < left)
    (hnil : planFrom cfg.handlers cfg.capacity inFlight session sources left (fun _ => 0) = [])
    {src : ClaimSource} (hsrc : src ∈ sources) (hmem : src ∈ cfg.handlers.sources)
    (hopen : src.Open cfg.capacity inFlight) :
    ∃ limit, 0 < limit ∧ session.claim src.names limit = [] := by
  induction sources with
  | nil => cases hsrc
  | cons first rest ih =>
      rw [planFrom, if_neg (Nat.ne_of_gt hleft)] at hnil
      dsimp only at hnil
      split at hnil
      · rename_i hshare
        rcases List.mem_cons.mp hsrc with rfl | hrest
        · exact absurd hshare (quota_ne_zero hleft hopen)
        · exact ih hnil hrest
      · rename_i hshare
        split at hnil
        · rename_i hrows
          rcases List.mem_cons.mp hsrc with rfl | hrest
          · exact ⟨_, Nat.mul_pos (Handlers.batch_pos hmem) (Nat.pos_of_ne_zero hshare),
              List.isEmpty_iff.mp hrows⟩
          · exact ih hnil hrest
        · cases hnil

section Idle

variable {cfg : RunConfig} {s s' : RunState J} {e : RunEvent J}

/-- The last session met no row of a source that is open now. -/
def RunState.Starved (cfg : RunConfig) (s : RunState J) : Prop :=
  ∃ v, s.seen = some v ∧ ∀ src ∈ cfg.handlers.sources, src.Open cfg.capacity s.core.inFlight →
    ∀ t ∈ v.db.tasks.rows, v.drawable cfg src t = false

theorem RunState.Starved.congr (h : s.Starved cfg) (hseen : s'.seen = s.seen)
    (hunits : s'.core.inFlight = s.core.inFlight) : s'.Starved cfg := by
  rw [Starved, hseen, hunits]
  exact h

/-- While the flag is down, an empty plan has left no open source out, and neither has the loop that
sleeps over it. -/
structure RunState.Heeds (cfg : RunConfig) (s : RunState J) : Prop where
  planned : s.core.polling = some (.planned []) → s.freed = false → s.Starved cfg
  idle : s.phase = .idle true → s.freed = false → s.Starved cfg

/-- A session without work. -/
theorem starved_of_nothing {v : StoreView J}
    (hprobe : claimableProbe cfg.dialect v.nowMs cfg.queues (some cfg.handlers.names) v.db = false)
    (hseen : s.seen = some v) : s.Starved cfg := by
  refine ⟨v, hseen, fun src hsrc _ t ht => Bool.eq_false_iff.mpr fun hdrawable => ?_⟩
  refine Bool.eq_false_iff.mp hprobe (claimableProbe_iff.mpr ⟨t, ht, Or.inl ?_⟩)
  simp only [StoreView.drawable, drawable, claimable, nameIn, Option.all_some, Bool.and_eq_true,
    decide_eq_true_eq] at hdrawable ⊢
  rcases hdrawable.1 with ⟨⟨hqueued, hname⟩, hdue⟩
  exact ⟨⟨hqueued, mem_names_of_source hsrc hname⟩, hdue⟩

/-- An empty plan. -/
theorem starved_of_plan {v : StoreView J} {free : Nat} (hfree : 0 < free)
    (hnil : (s.core.record cfg.toWorkerConfig free (v.session cfg)).draws = [])
    (hseen : s'.seen = some v) (hunits : s'.core.inFlight = s.core.inFlight) :
    s'.Starved cfg := by
  refine ⟨v, hseen, fun src hsrc hopen => ?_⟩
  rw [hunits] at hopen
  rcases claim_nil_of_plan_nil hfree hnil (mem_order.mpr hsrc) hsrc hopen with
    ⟨limit, hlimit, hempty⟩
  exact StoreView.undrawable_of_session hlimit hempty

theorem RunState.Heeds.of_step (h : s.Heeds cfg) (hfree : s.core.AsksFree)
    (hstep : RunStep cfg s e s') : s'.Heeds cfg := by
  cases hstep with
  | leave | fill | slot | wake | gathered | interruptWait | unregistered =>
      exact ⟨h.planned, fun hidle => nomatch hidle⟩
  | stop => exact ⟨h.planned, h.idle⟩
  | poll _ _ hcore =>
      rw [worker_poll hcore]
      exact ⟨(fun hplanned => nomatch hplanned), fun hidle => nomatch hidle⟩
  | nothing _ hprobe hcore =>
      rcases worker_fail hcore with ⟨cursor, rfl⟩
      exact ⟨(fun hplanned => nomatch hplanned), fun _ _ => starved_of_nothing hprobe rfl⟩
  | @plan v core _ hcore =>
      rcases worker_plan hcore with ⟨free, hasked, rfl⟩
      refine ⟨fun hplanned _ => ?_, fun hidle => nomatch hidle⟩
      have hnil : (s.core.record cfg.toWorkerConfig free (v.session cfg)).draws = [] := by
        simpa using hplanned
      exact starved_of_plan (hfree free hasked) hnil rfl rfl
  | @session draws core _ hplanned hcore =>
      rw [worker_dispatch hplanned hcore]
      refine ⟨fun hpolling => ?_, fun hidle hlowered => ?_⟩
      · rw [(WorkerState.foldl_start _ _).2.1] at hpolling
        cases hpolling
      · cases draws with
        | nil => exact (h.planned hplanned hlowered).congr rfl rfl
        | cons => cases hidle
  | fail _ hcore | interruptSession _ hcore =>
      rcases worker_fail hcore with ⟨cursor, rfl⟩
      exact ⟨(fun hplanned => nomatch hplanned), fun hidle => nomatch hidle⟩
  | @complete i c core hc hcore =>
      rw [worker_complete hc hcore]
      -- a released unit raises the flag; a call without one opens no source
      cases hres : c.resource with
      | some r =>
          exact ⟨fun _ hlowered => by simp at hlowered, fun _ hlowered => by simp at hlowered⟩
      | none =>
          simp only [Option.isSome_none, Bool.or_false, WorkerState.release]
          exact ⟨fun hplanned hlowered => (h.planned hplanned hlowered).congr rfl rfl,
            fun hidle hlowered => (h.idle hidle hlowered).congr rfl rfl⟩

end Idle

/-! ## The end -/

section End

variable {cfg : RunConfig} {s s' : RunState J} {e : RunEvent J}

/-- Every call that a session returned runs or has ended, once. -/
def RunState.Accounted (s : RunState J) : Prop :=
  (WorkerState.toStart s.drawn).Perm (s.core.running ++ s.ended)

theorem RunState.Accounted.congr (h : s.Accounted) (hdrawn : s'.drawn = s.drawn)
    (hrunning : s'.core.running = s.core.running) (hended : s'.ended = s.ended) :
    s'.Accounted := by
  rw [Accounted, hdrawn, hrunning, hended]
  exact h

theorem RunState.Accounted.of_step (h : s.Accounted) (hstep : RunStep cfg s e s') :
    s'.Accounted := by
  cases hstep with
  | leave | fill | slot | wake | gathered | interruptWait | unregistered | stop => exact h
  | poll _ _ hcore =>
      rw [worker_poll hcore]
      exact h
  | plan _ hcore =>
      rcases worker_plan hcore with ⟨free, -, rfl⟩
      exact h
  | nothing _ _ hcore | fail _ hcore | interruptSession _ hcore =>
      rcases worker_fail hcore with ⟨cursor, rfl⟩
      exact h
  | @session draws core _ hplanned hcore =>
      rw [worker_dispatch hplanned hcore, Accounted, (WorkerState.foldl_start _ _).1,
        WorkerState.toStart, List.flatMap_append]
      refine (h.append_right _).trans ?_
      simp only [List.append_assoc]
      exact List.perm_append_comm.append_left _
  | @complete i c core hc hcore =>
      rw [worker_complete hc hcore]
      rcases List.getElem?_eq_some_iff.mp hc with ⟨hi, rfl⟩
      refine h.trans ?_
      show (s.core.running ++ s.ended).Perm
        (s.core.running.eraseIdx i ++ (s.ended ++ [s.core.running[i]]))
      rw [← List.append_assoc]
      refine List.Perm.trans ?_ List.perm_append_comm
      exact ((List.getElem_cons_eraseIdx_perm hi).symm.append_right _)

/-- The calls of a draw are its rows, delivered; of the draws returned, and of a plan's. -/
structure RunState.Delivers (cfg : RunConfig) (s : RunState J) : Prop where
  drawn : ∀ d ∈ s.drawn, d.calls = deliveries cfg.handlers d.rows
  planned : ∀ draws, s.core.polling = some (.planned draws) →
    ∀ d ∈ draws, d.calls = deliveries cfg.handlers d.rows

theorem RunState.Delivers.of_step (h : s.Delivers cfg) (hstep : RunStep cfg s e s') :
    s'.Delivers cfg := by
  cases hstep with
  | leave | fill | slot | wake | gathered | interruptWait | unregistered | stop =>
      exact ⟨h.drawn, h.planned⟩
  | poll _ _ hcore =>
      rw [worker_poll hcore]
      exact ⟨h.drawn, fun draws hplanned => nomatch hplanned⟩
  | plan _ hcore =>
      rcases worker_plan hcore with ⟨free, -, rfl⟩
      refine ⟨h.drawn, fun draws hplanned d hd => ?_⟩
      cases hplanned
      exact (sound_of_mem_plan hd).calls
  | nothing _ _ hcore | fail _ hcore | interruptSession _ hcore =>
      rcases worker_fail hcore with ⟨cursor, rfl⟩
      exact ⟨h.drawn, fun draws hplanned => nomatch hplanned⟩
  | @session draws core _ hplanned hcore =>
      rw [worker_dispatch hplanned hcore]
      refine ⟨fun d hd => ?_, fun draws' hplanned' => ?_⟩
      · rcases List.mem_append.mp hd with hold | hnew
        · exact h.drawn d hold
        · exact h.planned draws hplanned d hnew
      · rw [(WorkerState.foldl_start _ _).2.1] at hplanned'
        cases hplanned'
  | complete hc hcore =>
      rw [worker_complete hc hcore]
      exact ⟨h.drawn, h.planned⟩

/-- What every loop keeps: its worker stays within its budgets, its phases agree with its polls, it
heeds what is released, and no call is lost. -/
structure RunInvariant (cfg : RunConfig) (s : RunState J) : Prop where
  capped : WorkerState.Capped cfg.toWorkerConfig s.core
  asksFree : s.core.AsksFree
  agrees : s.Agrees
  heeds : s.Heeds cfg
  accounted : s.Accounted
  delivers : s.Delivers cfg
  returned : s.phase = .returned → s.core.running = []

theorem runInvariant_fresh (cfg : RunConfig) : RunInvariant cfg (RunState.fresh : RunState J) where
  capped := .fresh _
  asksFree := fun _ h => nomatch h
  agrees := rfl
  heeds := ⟨(fun h => nomatch h), fun h => nomatch h⟩
  accounted := List.Perm.refl _
  delivers := ⟨(fun _ hd => nomatch hd), fun _ h => nomatch h⟩
  returned := fun _ => rfl

theorem runInvariant_step (h : RunInvariant cfg s) (hstep : RunStep cfg s e s') :
    RunInvariant cfg s' := by
  have hcore : WorkerState.Capped cfg.toWorkerConfig s'.core ∧ s'.core.AsksFree := by
    rcases hstep.core with heq | ⟨l, hcore⟩
    · rw [heq]
      exact ⟨h.capped, h.asksFree⟩
    · exact ⟨h.capped.of_step hcore, h.asksFree.of_step hcore⟩
  refine ⟨hcore.1, hcore.2, h.agrees.of_step hstep, h.heeds.of_step h.asksFree hstep,
    h.accounted.of_step hstep, h.delivers.of_step hstep, ?_⟩
  cases hstep with
  | gathered _ hnone => exact fun _ => hnone
  | stop => exact h.returned
  | complete hc hcore =>
      intro hreturned
      rw [h.returned hreturned] at hc
      cases hc
  | @session draws core _ hplanned hcore => cases draws <;> exact fun hphase => nomatch hphase
  | _ => exact fun hphase => nomatch hphase

theorem runInvariant_of_reachable
    (hreach : (runLoop cfg).Reachable anyStep RunState.fresh s) : RunInvariant cfg s :=
  hreach.invariant (fun _ _ _ h _ hstep => runInvariant_step h (runStep_of_step hstep))
    (runInvariant_fresh cfg)

/-- A loop that sleeps after a poll either finds the flag up and is awake again, or has nothing to
do: at its last session no row was there for any source that has room now. -/
theorem idle_starved (hreach : (runLoop cfg).Reachable anyStep RunState.fresh s)
    (hidle : s.phase = .idle true) : s.freed = true ∨ s.Starved cfg := by
  rcases Bool.eq_false_or_eq_true s.freed with hfreed | hfreed
  · exact Or.inl hfreed
  · exact Or.inr ((runInvariant_of_reachable hreach).heeds.idle hidle hfreed)

/-- The worker of {lit}`sharedUnit`, over the default queue. -/
def sharedUnitLoop : RunConfig where
  toWorkerConfig := sharedUnit
  dialect := .sqlite
  queues := ["default"]
  workerId := "w"
  leaseMs := 10

/-- A store with one queued task of a name. -/
def oneQueued (name : String) : StoreView Nat where
  held := unlocked
  nowMs := 5
  db := (finalState .sqlite [.alone 0 (.insertTask (.plain "t" name 3 0))]).db

/-- A call takes the unit, and ends while the next session finds {lit}`render` without one. -/
def releasedRun : List (RunEvent Nat) :=
  [.turn, .plan (oneQueued "embed"), .session, .turn, .plan (oneQueued "render"), .complete 0,
    .session]

/-- The loop goes to sleep with the flag up. -/
theorem idle_starved_releasedRun :
    let s := (runLoop sharedUnitLoop).drive RunState.fresh releasedRun
    s.phase = .idle true ∧ (s.freed = true ∨ s.Starved sharedUnitLoop) := by
  have hreach : (runLoop sharedUnitLoop).Reachable anyStep RunState.fresh
      ((runLoop sharedUnitLoop).drive RunState.fresh releasedRun) :=
    Machine.reachable_drive _ _ _ fun _ _ _ => trivial
  exact ⟨rfl, idle_starved hreach rfl⟩

/-- What a poll may still start. -/
def WorkerState.pending (w : WorkerState J) : Nat :=
  match w.polling with
  | some (.asked free) => free + 1
  | some (.planned draws) => (drawnCalls draws).length
  | none => 0

/-- How far a phase is from the end of a stopped loop, its calls apart. -/
def RunPhase.ahead : RunPhase → Nat
  | .returned => 0
  | .draining => 1
  | .turn => 2
  | .full | .idle _ | .backoff => 3
  | .asked | .planned => 4

/-- The steps that a stopped loop has ahead of it at most. -/
def RunState.ahead (s : RunState J) : Nat :=
  s.core.running.length + s.core.pending + s.phase.ahead

/-- A stopped loop comes closer to its end with every step. -/
theorem ahead_lt (hstopped : s.stopped = true) (hstep : RunStep cfg s e s') :
    s'.stopped = true ∧ s'.ahead < s.ahead := by
  unfold RunState.ahead
  cases hstep with
  | fill _ hnot | unregistered _ hnot | poll _ hnot | stop hnot =>
      exact nomatch hstopped.symm.trans hnot
  | leave hphase | slot hphase | gathered hphase =>
      refine ⟨hstopped, ?_⟩
      simp only [hphase, RunPhase.ahead]
      omega
  | wake hphase =>
      refine ⟨hstopped, Nat.add_lt_add_left ?_ _⟩
      rcases hphase with hphase | ⟨heeds, hphase⟩ <;> rw [hphase] <;> exact Nat.lt_succ_self 2
  | interruptWait hphase =>
      refine ⟨hstopped, Nat.add_lt_add_left ?_ _⟩
      rcases hphase with hphase | hphase | ⟨heeds, hphase⟩ <;> rw [hphase] <;>
        exact Nat.lt_of_succ_lt (Nat.lt_succ_self 2)
  | nothing hphase _ hcore =>
      rcases worker_fail hcore with ⟨cursor, rfl⟩
      refine ⟨hstopped, ?_⟩
      simp only [hphase, WorkerState.pending, RunPhase.ahead]
      omega
  | fail hphase hcore | interruptSession hphase hcore =>
      rcases worker_fail hcore with ⟨cursor, rfl⟩
      refine ⟨hstopped, ?_⟩
      have hfour : s.phase.ahead = 4 := by
        rcases hphase with hphase | hphase <;> rw [hphase] <;> rfl
      rw [hfour]
      simp only [WorkerState.pending, RunPhase.ahead]
      omega
  | @plan v core hphase hcore =>
      rcases worker_plan hcore with ⟨free, hasked, rfl⟩
      refine ⟨hstopped, ?_⟩
      have hlength : (drawnCalls
          (s.core.record cfg.toWorkerConfig free (v.session cfg)).draws).length ≤ free :=
        length_calls_plan_le
      simp only [hphase, WorkerState.pending, hasked, RunPhase.ahead]
      omega
  | @session draws core hphase hplanned hcore =>
      refine ⟨hstopped, ?_⟩
      rw [worker_dispatch hplanned hcore]
      rcases WorkerState.foldl_start (WorkerState.toStart draws)
        { s.core with polling := none } with ⟨hrunning, hpolling, -, -⟩
      have hlength := WorkerState.length_toStart draws
      have hphase' : (if draws.isEmpty then RunPhase.idle true else RunPhase.turn).ahead ≤ 3 := by
        split <;> decide
      have hfour : s.phase.ahead = 4 := by
        rw [hphase]
        rfl
      rw [hfour]
      simp only [WorkerState.pending, hplanned, hrunning, hpolling, List.length_append, hlength]
      omega
  | @complete i c core hc hcore =>
      rw [worker_complete hc hcore]
      refine ⟨hstopped, ?_⟩
      have hlength : (s.core.running.eraseIdx i).length + 1 = s.core.running.length :=
        List.length_eraseIdx_add_one (List.getElem?_eq_some_iff.mp hc).1
      simp only [WorkerState.pending]
      omega

theorem ahead_le (h : RunInvariant cfg s) : s.ahead ≤ cfg.concurrency + 5 := by
  have hagrees := h.agrees
  have hrunning := h.capped.running
  unfold RunState.Agrees at hagrees
  unfold RunState.ahead WorkerState.pending
  split at hagrees
  · rename_i hphase
    rcases hagrees with ⟨free, hasked⟩
    have hbudget := h.capped.asked free hasked
    simp only [hphase, hasked, RunPhase.ahead]
    omega
  · rename_i hphase
    rcases hagrees with ⟨draws, hplanned⟩
    have hbudget := (h.capped.planned draws hplanned).1
    simp only [hphase, hplanned, RunPhase.ahead]
    omega
  · have hfour : s.phase.ahead ≤ 4 := by
      cases s.phase <;> simp [RunPhase.ahead]
    simp only [hagrees]
    omega

/-- Not stopped, interrupted or failed from outside. -/
def RunEvent.ordinary : RunEvent J → Bool
  | .fail _ | .stop | .interrupt _ => false
  | _ => true

/-- A loop that has not returned can go on. -/
theorem exists_step (h : RunInvariant cfg s) (hreturned : s.phase ≠ .returned) :
    ∃ e, e.ordinary = true ∧ (runLoop cfg s e).isSome = true := by
  have hagrees := h.agrees
  unfold RunState.Agrees at hagrees
  have hcomplete : s.core.running ≠ [] →
      ∃ e, RunEvent.ordinary (J := J) e = true ∧ (runLoop cfg s e).isSome = true := by
    intro hne
    rcases List.exists_cons_of_ne_nil hne with ⟨c, rest, hrunning⟩
    exact ⟨.complete 0, rfl, by simp [runLoop, worker, hrunning]⟩
  cases hphase : s.phase with
  | turn =>
      rw [hphase] at hagrees
      refine ⟨.turn, rfl, ?_⟩
      simp only [runLoop, hphase, if_true]
      split
      · rfl
      · split
        · rfl
        · split
          · rfl
          · rename_i hroom hsources
            simp [worker, hagrees, Nat.lt_of_not_le hroom, hsources]
  | full =>
      by_cases hroom : s.core.running.length < cfg.concurrency
      · exact ⟨.slot, rfl, by simp [runLoop, hphase, hroom]⟩
      · refine hcomplete fun hnone => hroom ?_
        rw [hnone]
        exact cfg.concurrency_pos
  | asked =>
      rw [hphase] at hagrees
      rcases hagrees with ⟨free, hasked⟩
      exact ⟨.plan ⟨unlocked, 0, Database.empty⟩, rfl, by simp [runLoop, worker, hphase, hasked]⟩
  | planned =>
      rw [hphase] at hagrees
      rcases hagrees with ⟨draws, hplanned⟩
      exact ⟨.session, rfl, by simp [runLoop, worker, hphase, hplanned]⟩
  | idle heeds => exact ⟨.wake, rfl, by simp [runLoop, hphase]⟩
  | backoff => exact ⟨.wake, rfl, by simp [runLoop, hphase]⟩
  | draining =>
      by_cases hnone : s.core.running = []
      · exact ⟨.gathered, rfl, by simp [runLoop, hphase, hnone]⟩
      · exact hcomplete hnone
  | returned => exact absurd hphase hreturned

/-- The tasks of the calls to start are those of the draws. -/
theorem callTasks_toStart (draws : List (Draw J)) :
    callTasks ((WorkerState.toStart draws).map RunningCall.call) =
      draws.flatMap fun d => callTasks d.calls := by
  simp [callTasks, WorkerState.toStart, List.map_flatMap, List.flatMap_assoc, Function.comp_def]

/-- Once nothing runs, no unit is held, and the calls that have ended carried every task that the
sessions returned, each once. -/
theorem RunInvariant.drained (h : RunInvariant cfg s) (hnone : s.core.running = []) :
    (∀ r, s.core.inFlight r = 0) ∧
      (callTasks (s.ended.map RunningCall.call)).Perm (s.drawn.flatMap Draw.rows) := by
  refine ⟨fun r => ?_, ?_⟩
  · rw [← h.capped.units r, WorkerState.holders, hnone]
    rfl
  · have haccounted := h.accounted
    rw [RunState.Accounted, hnone, List.nil_append] at haccounted
    refine (List.Perm.flatMap_right _ (haccounted.symm.map RunningCall.call)).trans ?_
    have htasks := callTasks_toStart s.drawn
    rw [callTasks] at htasks
    rw [htasks]
    exact List.Perm.flatMap_left _ fun d hd => by
      rw [h.delivers.drawn d hd]
      exact perm_deliveries cfg.handlers d.rows

/-- The plans made, and the one that a session under way may still make. -/
def RunState.planning (s : RunState J) : Nat :=
  s.core.plans.length + if s.phase = .asked then 1 else 0

/-- A stopped loop opens no session. -/
theorem planning_le (hstopped : s.stopped = true) (hstep : RunStep cfg s e s') :
    s'.planning ≤ s.planning := by
  unfold RunState.planning
  cases hstep with
  | fill _ hnot | unregistered _ hnot | poll _ hnot | stop hnot =>
      exact nomatch hstopped.symm.trans hnot
  | leave | slot | gathered | wake | interruptWait => exact Nat.le_add_right _ _
  | nothing _ _ hcore | fail _ hcore | interruptSession _ hcore =>
      rcases worker_fail hcore with ⟨cursor, rfl⟩
      exact Nat.le_add_right _ _
  | plan hphase hcore =>
      rcases worker_plan hcore with ⟨free, -, rfl⟩
      simp [hphase]
  | @session draws core hphase hplanned hcore =>
      rw [worker_dispatch hplanned hcore, (WorkerState.foldl_start _ _).2.2.1]
      cases draws <;> exact Nat.le_add_right _ _
  | complete hc hcore => rw [worker_complete hc hcore]

/-- A stopped worker opens no further session.  Its loop ends within a bounded number of steps,
whatever they are: until it has returned it can go on, and when it has, no unit is held, and
the calls that have ended carried every task that the sessions returned, each once. -/
theorem stop_drains (hreach : (runLoop cfg).Reachable anyStep RunState.fresh s)
    (hstopped : s.stopped = true) {es : List (RunEvent J)}
    (hsteps : (runLoop cfg).Steps anyStep s es s') :
    es.length ≤ cfg.concurrency + 5 ∧ s'.planning ≤ s.planning ∧
      (s'.phase ≠ .returned → ∃ e, e.ordinary = true ∧ (runLoop cfg s' e).isSome = true) ∧
      (s'.phase = .returned → (∀ r, s'.core.inFlight r = 0) ∧
        (callTasks (s'.ended.map RunningCall.call)).Perm (s'.drawn.flatMap Draw.rows)) := by
  have hinv := runInvariant_of_reachable hreach
  have hinv' := runInvariant_of_reachable (hreach.trans ⟨es, hsteps⟩)
  have hlength := hsteps.length_add_le (I := fun u => u.stopped = true) (μ := RunState.ahead)
    (fun _ _ _ hu _ hstep => ahead_lt hu (runStep_of_step hstep)) hstopped
  have hbound := ahead_le hinv
  have hplanning := hsteps.invariant (I := fun u => u.stopped = true ∧ u.planning ≤ s.planning)
    (fun _ _ _ hu _ hstep => ⟨(ahead_lt hu.1 (runStep_of_step hstep)).1,
      (planning_le hu.1 (runStep_of_step hstep)).trans hu.2⟩) ⟨hstopped, Nat.le_refl _⟩
  exact ⟨by omega, hplanning.2, fun hgoing => exists_step hinv' hgoing,
    fun hreturned => hinv'.drained (hinv'.returned hreturned)⟩

/-- A worker is stopped while a call runs. -/
def stoppedRun : List (RunEvent Nat) :=
  [.turn, .plan (oneQueued "embed"), .session, .stop]

/-- The call ends, and then the run. -/
theorem stop_drains_stoppedRun :
    let s := (runLoop sharedUnitLoop).drive RunState.fresh stoppedRun
    let s' := (runLoop sharedUnitLoop).drive s [.turn, .complete 0, .gathered]
    s'.phase = .returned ∧ s'.ended.length = 1 ∧
      (callTasks (s'.ended.map RunningCall.call)).Perm (s'.drawn.flatMap Draw.rows) := by
  intro s s'
  have hreach : (runLoop sharedUnitLoop).Reachable anyStep RunState.fresh s :=
    Machine.reachable_drive _ _ _ fun _ _ _ => trivial
  have hsteps : (runLoop sharedUnitLoop).Steps anyStep s [.turn, .complete 0, .gathered] s' :=
    Machine.steps_of_run rfl
  exact ⟨rfl, rfl, ((stop_drains hreach rfl hsteps).2.2.2 rfl).2⟩

end End

end CairnQ
