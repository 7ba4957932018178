import CairnQ.Worker.RunLoop

/-!
# Hosting a worker

`Worker.serve` and `Worker.background` around `Worker.run`: who stops the run, when the store of
the worker is closed, and which of several errors the caller hears.  `serve` takes SIGINT and
SIGTERM, and gives both back with the first one; `background` stops the run when its body has
ended.

Main results:

- Theorem `hosted_shutdown`: the store is closed at most once, after the last call of the run and
  the end of the body, and no failure is lost but to an error that goes before it.
- Theorem `host_winds_down`: once a signal was taken or the body has ended, the host ends within a
  bounded number of steps, and a further signal reaches the default action of the process.
-/

namespace CairnQ

open Relational Transition

variable {J : Type}

/-! ## Hosts -/

/-- The entry points that end the run they start. -/
inductive HostEntry
  | serve
  | background
deriving DecidableEq, Repr

/-- The signals that `serve` takes. -/
inductive HostSignal
  | sigint
  | sigterm
deriving DecidableEq, Repr

/-- What comes out of a `run` that does not return. -/
inductive RunFailure
  | error
  /-- `asyncio.CancelledError` -/
  | cancelled
deriving DecidableEq, Repr

/-- How the body of `background` ends; an error may be open to a cause, if it has none. -/
inductive BodyEnd
  | returned
  | raised (isOpen : Bool)
deriving DecidableEq, Repr

/-- What the caller of `serve` or `background` gets. -/
inductive HostOutcome
  | returned
  | runFailed (failure : RunFailure)
  /-- the error of the body, with the failure of the run as its cause or without -/
  | bodyRaised (caused : Bool)
  | closeFailed
deriving DecidableEq, Repr

/-- A worker with its host; `add_signal_handler` may not be there for a signal. -/
structure HostConfig extends RunConfig where
  sdk : Sdk
  entry : HostEntry
  ownsStore : Bool
  installable : HostSignal → Bool

/-- The handlers that are installed at the start: those of `_install_signal_handlers`. -/
def HostConfig.installed (cfg : HostConfig) : List HostSignal :=
  match cfg.entry with
  | .serve => [HostSignal.sigint, .sigterm].filter cfg.installable
  | .background => []

/-- Only asyncio cancels. -/
def HostConfig.raises (cfg : HostConfig) : RunFailure → Bool
  | .error => true
  | .cancelled => cfg.sdk = .python

/-- Where the host stands. -/
inductive HostPhase
  /-- the body of `background` runs -/
  | body
  /-- `await self.run()`, `await runner` -/
  | awaits
  /-- `await self.close()` -/
  | closing
  | left (outcome : HostOutcome)
  /-- a signal has found no handler -/
  | defaulted
deriving DecidableEq, Repr

/-- The host is over, or the process is. -/
def HostPhase.final : HostPhase → Bool
  | .left _ | .defaulted => true
  | _ => false

/-- The state of a host: its run, what has come out of it, and how the body has ended. -/
structure HostState (J : Type) where
  run : RunState J
  connected : Bool
  failure : Option RunFailure
  body : Option BodyEnd
  handlers : List HostSignal
  phase : HostPhase
  closes : Nat

namespace HostState

/-- A host has just started its run. -/
def start (cfg : HostConfig) : HostState J where
  run := .fresh
  connected := false
  failure := none
  body := none
  handlers := cfg.installed
  phase := match cfg.entry with
    | .serve => .awaits
    | .background => .body
  closes := 0

/-- `run` is over; a `connect()` that raises ends it at once. -/
def runOver (s : HostState J) : Bool :=
  if s.connected then s.run.phase = .returned else s.failure.isSome

/-- The run goes on, and so does the process. -/
def underWay (s : HostState J) : Bool :=
  (s.phase = .body || s.phase = .awaits) && !s.runOver

/-- `Worker.stop`. -/
def stop (s : HostState J) : HostState J :=
  { s with run := { s.run with stopped := true } }

/-- What `serve` has of the run, and `shutdown`, which passes over a cancellation. -/
def heard (cfg : HostConfig) (s : HostState J) : Option RunFailure :=
  match cfg.entry, s.failure with
  | .background, some .cancelled => none
  | _, failure => failure

/-- The end of `serve` and `background`: Python suppresses what `close()` raises, in Node it takes
the place of everything else; the error of the body goes before the failure of the run. -/
def outcome (cfg : HostConfig) (s : HostState J) (closeRaised : Bool) : HostOutcome :=
  if closeRaised && cfg.sdk = .node then .closeFailed
  else
    match s.body, s.heard cfg with
    | some (.raised isOpen), failure => .bodyRaised (isOpen && failure.isSome)
    | _, some failure => .runFailed failure
    | _, none => .returned

/-- The host goes on after `run`: the handlers are removed, and `_close_if_owned`. -/
def leave (cfg : HostConfig) (s : HostState J) : HostState J :=
  if cfg.ownsStore then { s with handlers := [], phase := .closing, closes := s.closes + 1 }
  else { s with handlers := [], phase := .left (s.outcome cfg false) }

/-- Whoever awaits a `run` that is over goes on. -/
def settle (cfg : HostConfig) (s : HostState J) : HostState J :=
  if s.phase = .awaits ∧ s.runOver = true then s.leave cfg else s

end HostState

/-! ## The machine -/

/-- What happens to a host. -/
inductive HostStep (J : Type)
  /-- `store.connect()` of the run returns, or raises -/
  | connect (failure : Option RunFailure)
  /-- a step of the loop of the run -/
  | loop (e : RunEvent J)
  /-- an exception comes out of an await of the loop -/
  | interrupt (turned : Bool) (failure : RunFailure)
  /-- somebody calls `stop()` -/
  | stop
  | signal (sig : HostSignal)
  | body (ended : BodyEnd)
  /-- `close()` returns, or raises -/
  | closed (raised : Bool)

/-- The loop's own steps. -/
def RunEvent.own : RunEvent J → Bool
  | .stop | .interrupt _ => false
  | _ => true

/-- A host of a worker. -/
def hosting (cfg : HostConfig) : Machine (HostState J) (HostStep J)
  | s, .connect failure =>
      if s.underWay = true ∧ s.connected = false ∧ failure.all cfg.raises = true then
        some (HostState.settle cfg { s with connected := failure.isNone, failure := failure })
      else none
  | s, .loop e =>
      if s.underWay = true ∧ s.connected = true ∧ e.own = true then
        (runLoop cfg.toRunConfig s.run e).map fun run => HostState.settle cfg { s with run := run }
      else none
  | s, .interrupt turned failure =>
      if s.underWay = true ∧ s.connected = true ∧ cfg.raises failure = true then
        (runLoop cfg.toRunConfig s.run (.interrupt turned)).map fun run =>
          { s with run := run, failure := some failure }
      else none
  | s, .stop => if s.run.stopped = true ∨ s.phase.final = true then none else some s.stop
  | s, .signal sig =>
      if cfg.entry = .serve ∧ s.phase.final = false then
        if sig ∈ s.handlers then some { s.stop with handlers := [] }
        else some { s with phase := .defaulted }
      else none
  | s, .body ended =>
      if s.phase = .body then
        some (HostState.settle cfg { s.stop with body := some ended, phase := .awaits })
      else none
  | s, .closed raised =>
      if s.phase = .closing then some { s with phase := .left (s.outcome cfg raised) } else none

/-! ## One step -/

/-- What one step does, event by event. -/
inductive HostEffect (cfg : HostConfig) (s : HostState J) : HostStep J → HostState J → Prop
  | connect {failure : Option RunFailure} (hway : s.underWay = true) (hoff : s.connected = false)
      (hraises : failure.all cfg.raises = true) :
      HostEffect cfg s (.connect failure)
        (HostState.settle cfg { s with connected := failure.isNone, failure := failure })
  | loop {e : RunEvent J} {run : RunState J} (hway : s.underWay = true) (hon : s.connected = true)
      (hrun : runLoop cfg.toRunConfig s.run e = some run) :
      HostEffect cfg s (.loop e) (HostState.settle cfg { s with run := run })
  | interrupt {turned : Bool} {failure : RunFailure} {run : RunState J} (hway : s.underWay = true)
      (hon : s.connected = true) (hraises : cfg.raises failure = true)
      (hrun : runLoop cfg.toRunConfig s.run (.interrupt turned) = some run) :
      HostEffect cfg s (.interrupt turned failure) { s with run := run, failure := some failure }
  | stop (hgoing : s.run.stopped = false) : HostEffect cfg s .stop s.stop
  | take {sig : HostSignal} (hserve : cfg.entry = .serve) (hmem : sig ∈ s.handlers) :
      HostEffect cfg s (.signal sig) { s.stop with handlers := [] }
  | default {sig : HostSignal} (hserve : cfg.entry = .serve) (hfinal : s.phase.final = false)
      (hmem : sig ∉ s.handlers) : HostEffect cfg s (.signal sig) { s with phase := .defaulted }
  | body {ended : BodyEnd} (hphase : s.phase = .body) :
      HostEffect cfg s (.body ended)
        (HostState.settle cfg { s.stop with body := some ended, phase := .awaits })
  | closed {raised : Bool} (hphase : s.phase = .closing) :
      HostEffect cfg s (.closed raised) { s with phase := .left (s.outcome cfg raised) }

section Step

variable {cfg : HostConfig} {s s' : HostState J} {l : HostStep J}

theorem hostEffect_of_step (hstep : hosting cfg s l = some s') : HostEffect cfg s l s' := by
  cases l with
  | connect failure =>
      simp only [hosting, Option.ite_none_right_eq_some, Option.some.injEq] at hstep
      rcases hstep with ⟨⟨hway, hoff, hraises⟩, rfl⟩
      exact .connect hway hoff hraises
  | loop e =>
      simp only [hosting, Option.ite_none_right_eq_some] at hstep
      rcases hstep with ⟨⟨hway, hon, -⟩, hstep⟩
      rcases Option.map_eq_some_iff.mp hstep with ⟨run, hrun, rfl⟩
      exact .loop hway hon hrun
  | interrupt turned failure =>
      simp only [hosting, Option.ite_none_right_eq_some] at hstep
      rcases hstep with ⟨⟨hway, hon, hraises⟩, hstep⟩
      rcases Option.map_eq_some_iff.mp hstep with ⟨run, hrun, rfl⟩
      exact .interrupt hway hon hraises hrun
  | stop =>
      simp only [hosting, Option.ite_none_left_eq_some, Option.some.injEq, not_or,
        Bool.not_eq_true] at hstep
      rcases hstep with ⟨⟨hgoing, -⟩, rfl⟩
      exact .stop hgoing
  | signal sig =>
      simp only [hosting, Option.ite_none_right_eq_some] at hstep
      rcases hstep with ⟨⟨hserve, hfinal⟩, hstep⟩
      split at hstep
      · cases hstep
        exact .take hserve ‹_›
      · cases hstep
        exact .default hserve hfinal ‹_›
  | body ended =>
      simp only [hosting, Option.ite_none_right_eq_some, Option.some.injEq] at hstep
      rcases hstep with ⟨hphase, rfl⟩
      exact .body hphase
  | closed raised =>
      simp only [hosting, Option.ite_none_right_eq_some, Option.some.injEq] at hstep
      rcases hstep with ⟨hphase, rfl⟩
      exact .closed hphase

/-- The run goes on only while the body does, or while it is awaited. -/
theorem HostState.underWay_iff :
    s.underWay = true ↔ (s.phase = .body ∨ s.phase = .awaits) ∧ s.runOver = false := by
  simp [HostState.underWay]

end Step

/-! ## What every host keeps -/

section Kept

variable {cfg : HostConfig} {s s' : HostState J} {l : HostStep J}

/-- The run is a run of the loop, which has yet to start while the store is not connected; the body
belongs to `background`, and its end stops the run; handlers are there while `serve` awaits the
run. -/
structure HostCore (cfg : HostConfig) (s : HostState J) : Prop where
  loop : (runLoop cfg.toRunConfig).Reachable anyStep RunState.fresh s.run
  idle : s.connected = false → s.run.core.running = []
  body : s.phase = .body ↔ cfg.entry = .background ∧ s.body = none
  bodyStops : s.body ≠ none → s.run.stopped = true
  handlers : s.handlers ≠ [] → cfg.entry = .serve ∧ (s.phase = .awaits ∨ s.phase = .defaulted)

/-- Nobody awaits a run that is over.  The store is closed once, after the run, if the worker owns
it, and the outcome is what the run, the body and the `close()` have come to. -/
structure HostKept (cfg : HostConfig) (s : HostState J) : Prop extends HostCore cfg s where
  awaits : s.phase = .awaits → s.runOver = false
  before : s.phase = .body ∨ s.phase = .awaits → s.closes = 0
  closing : s.phase = .closing → s.closes = 1
  closes : 0 < s.closes → s.closes = 1 ∧ cfg.ownsStore = true ∧ s.runOver = true
  ended : ∀ o, s.phase = .left o → s.runOver = true ∧ s.closes = cfg.ownsStore.toNat ∧
    ∃ raised, (raised = true → cfg.ownsStore = true) ∧ o = s.outcome cfg raised

theorem HostCore.stop (h : HostCore cfg s) : HostCore cfg s.stop where
  loop := by
    by_cases hstopped : s.run.stopped = true
    · have hsame : s.stop.run = s.run := by
        show { s.run with stopped := true } = s.run
        rw [← hstopped]
      rw [hsame]
      exact h.loop
    · exact h.loop.tail (l := .stop) trivial (if_neg hstopped)
  idle := h.idle
  body := h.body
  bodyStops := fun _ => rfl
  handlers := h.handlers

/-- Whoever awaits the run goes on as soon as it is over. -/
theorem HostCore.settle (h : HostCore cfg s) (hphase : s.phase = .body ∨ s.phase = .awaits)
    (hcloses : s.closes = 0) : HostKept cfg (s.settle cfg) := by
  unfold HostState.settle
  split
  · rename_i hover
    rcases hover with ⟨hawaits, hover⟩
    have hbody : ¬(cfg.entry = .background ∧ s.body = none) := fun hbody => by
      rw [h.body.mpr hbody] at hawaits
      cases hawaits
    unfold HostState.leave
    split
    · rename_i howns
      exact {
        loop := h.loop
        idle := h.idle
        body := iff_of_false nofun hbody
        bodyStops := h.bodyStops
        handlers := fun hne => absurd rfl hne
        awaits := nofun
        before := nofun
        closing := fun _ => by rw [hcloses]
        closes := fun _ => ⟨by rw [hcloses], howns, hover⟩
        ended := nofun }
    · rename_i howns
      rw [Bool.not_eq_true] at howns
      exact {
        loop := h.loop
        idle := h.idle
        body := iff_of_false nofun hbody
        bodyStops := h.bodyStops
        handlers := fun hne => absurd rfl hne
        awaits := nofun
        before := nofun
        closing := nofun
        closes := fun hpos => absurd hcloses (Nat.ne_of_gt hpos)
        ended := fun o ho => by
          cases ho
          exact ⟨hover, by rw [howns]; exact hcloses, false, nofun, rfl⟩ }
  · rename_i hover
    exact {
      toHostCore := h
      awaits := fun hawaits => Bool.eq_false_iff.mpr fun hdone => hover ⟨hawaits, hdone⟩
      before := fun _ => hcloses
      closing := fun hclosing => by rw [hclosing] at hphase; rcases hphase with h | h <;> cases h
      closes := fun hpos => absurd hcloses (Nat.ne_of_gt hpos)
      ended := fun o ho => by rw [ho] at hphase; rcases hphase with h | h <;> cases h }

theorem hostKept_start (cfg : HostConfig) : HostKept cfg (HostState.start cfg : HostState J) where
  loop := .start _ _ _
  idle := fun _ => rfl
  body := by cases hentry : cfg.entry <;> simp [HostState.start, hentry]
  bodyStops := fun hne => absurd rfl hne
  handlers := by
    cases hentry : cfg.entry <;> simp [HostState.start, HostConfig.installed, hentry]
  awaits := fun _ => rfl
  before := fun _ => rfl
  closing := by cases hentry : cfg.entry <;> simp [HostState.start, hentry]
  closes := nofun
  ended := by cases hentry : cfg.entry <;> simp [HostState.start, hentry]

/-- An interrupted loop drains. -/
theorem phase_of_interrupt {run run' : RunState J} {turned : Bool}
    (hrun : runLoop cfg.toRunConfig run (.interrupt turned) = some run') :
    run'.phase = .draining := by
  cases runStep_of_step hrun <;> rfl

theorem HostKept.stop (h : HostKept cfg s) : HostKept cfg s.stop where
  toHostCore := h.toHostCore.stop
  awaits := h.awaits
  before := h.before
  closing := h.closing
  closes := h.closes
  ended := h.ended

/-- Nothing but a `close()` ends a host that is closing, and it ends once. -/
theorem HostKept.closed (h : HostKept cfg s) (hphase : s.phase = .closing) (raised : Bool) :
    HostKept cfg { s with phase := .left (s.outcome cfg raised) } := by
  have hone := h.closing hphase
  rcases h.closes (by rw [hone]; exact Nat.one_pos) with ⟨-, howns, hover⟩
  exact {
    loop := h.loop
    idle := h.idle
    body := iff_of_false nofun fun hbody => by
      rw [h.body.mpr hbody] at hphase
      cases hphase
    bodyStops := h.bodyStops
    handlers := fun hne => by
      rcases (h.handlers hne).2 with hother | hother <;> exact nomatch hphase.symm.trans hother
    awaits := nofun
    before := nofun
    closing := nofun
    closes := h.closes
    ended := fun o ho => by
      cases ho
      exact ⟨hover, by rw [howns]; exact hone, raised, fun _ => howns, rfl⟩ }

/-- Every step of a host keeps the invariant. -/
theorem hostKept_step (h : HostKept cfg s) (hstep : HostEffect cfg s l s') : HostKept cfg s' := by
  cases hstep with
  | connect hway hoff hraises =>
      rcases HostState.underWay_iff.mp hway with ⟨hphase, -⟩
      exact HostCore.settle ⟨h.loop, fun _ => h.idle hoff, h.body, h.bodyStops, h.handlers⟩ hphase
        (h.before hphase)
  | loop hway hon hrun =>
      rcases HostState.underWay_iff.mp hway with ⟨hphase, -⟩
      refine HostCore.settle ⟨h.loop.tail trivial hrun, fun hoff => ?_, h.body, fun hbody => ?_,
        h.handlers⟩ hphase (h.before hphase)
      · exact nomatch hon.symm.trans hoff
      · exact (ahead_lt (h.bodyStops hbody) (runStep_of_step hrun)).1
  | @interrupt turned failure run hway hon hraises hrun =>
      rcases HostState.underWay_iff.mp hway with ⟨hphase, hgoing⟩
      exact {
        loop := h.loop.tail trivial hrun
        idle := fun hoff => nomatch hon.symm.trans hoff
        body := h.body
        bodyStops := fun hbody => (ahead_lt (h.bodyStops hbody) (runStep_of_step hrun)).1
        handlers := h.handlers
        awaits := fun _ => by
          simp [HostState.runOver, hon, phase_of_interrupt hrun]
        before := h.before
        closing := h.closing
        closes := fun hpos => absurd (h.before hphase) (Nat.ne_of_gt hpos)
        ended := fun o ho => by
          rw [show s.phase = .left o from ho] at hphase
          rcases hphase with hphase | hphase <;> cases hphase }
  | stop hgoing => exact h.stop
  | take hserve hmem =>
      exact { h.stop with handlers := fun hne => absurd rfl hne }
  | default hserve hfinal hmem =>
      exact {
        loop := h.loop
        idle := h.idle
        body := iff_of_false nofun fun hbody => by
          rw [hserve] at hbody
          exact nomatch hbody.1
        bodyStops := h.bodyStops
        handlers := fun _ => ⟨hserve, Or.inr rfl⟩
        awaits := nofun
        before := nofun
        closing := nofun
        closes := h.closes
        ended := nofun }
  | body hphase =>
      refine HostCore.settle ⟨h.stop.loop, h.idle, iff_of_false nofun nofun, fun _ => rfl,
        fun hne => ?_⟩ (Or.inr rfl) (h.before (Or.inl hphase))
      rcases (h.handlers hne).2 with hother | hother <;> exact nomatch hphase.symm.trans hother
  | closed hphase => exact h.closed hphase _

theorem hostKept_of_reachable (hreach : (hosting cfg).Reachable anyStep (HostState.start cfg) s) :
    HostKept cfg s :=
  hreach.invariant (fun _ _ _ h _ hstep => hostKept_step h (hostEffect_of_step hstep))
    (hostKept_start cfg)

/-- When the run of a host is over, nothing runs. -/
theorem HostCore.idle_of_over (h : HostCore cfg s) (hover : s.runOver = true) :
    s.run.core.running = [] := by
  unfold HostState.runOver at hover
  split at hover
  · exact (runInvariant_of_reachable h.loop).returned (of_decide_eq_true hover)
  · exact h.idle (Bool.not_eq_true _ ▸ ‹_›)

/-- What the caller gets when nothing is left to tell. -/
theorem HostState.outcome_returned {raised : Bool} (hout : s.outcome cfg raised = .returned) :
    s.heard cfg = none ∧ ∀ isOpen, s.body ≠ some (.raised isOpen) := by
  unfold HostState.outcome at hout
  split at hout
  · cases hout
  · split at hout
    · cases hout
    · cases hout
    · rename_i hheard hbody
      exact ⟨hheard, hbody⟩

/-- Only Node tells of a `close()` that raised. -/
theorem HostState.outcome_closeFailed {raised : Bool}
    (hout : s.outcome cfg raised = .closeFailed) : raised = true ∧ cfg.sdk = .node := by
  unfold HostState.outcome at hout
  split at hout
  · rename_i hnode
    simpa using hnode
  · split at hout <;> cases hout

/-- A host closes the store at most once, and only a store the worker owns.  It does so, and ends,
only when its body has ended and the run is over: no call runs, no unit is held, and every task
that a session returned was in one call that ended.  A host that returns has neither a failure of
the run to tell of nor an error of its body, unless Node has an error of the `close()` instead. -/
theorem hosted_shutdown (hreach : (hosting cfg).Reachable anyStep (HostState.start cfg) s)
    (hpast : 0 < s.closes ∨ ∃ o, s.phase = .left o) :
    (s.closes ≤ cfg.ownsStore.toNat ∧ (cfg.entry = .background → s.body ≠ none)) ∧
      ((∀ r, s.run.core.inFlight r = 0) ∧
        (callTasks (s.run.ended.map RunningCall.call)).Perm (s.run.drawn.flatMap Draw.rows)) ∧
      ∀ o, s.phase = .left o → s.closes = cfg.ownsStore.toNat ∧
        (o = .returned → s.heard cfg = none ∧ ∀ isOpen, s.body ≠ some (.raised isOpen)) ∧
        (o = .closeFailed → cfg.sdk = .node ∧ cfg.ownsStore = true) := by
  have h := hostKept_of_reachable hreach
  have hover : s.runOver = true := by
    rcases hpast with hpos | ⟨o, ho⟩
    · exact (h.closes hpos).2.2
    · exact (h.ended o ho).1
  refine ⟨⟨?_, fun hentry hbody => ?_⟩,
    (runInvariant_of_reachable h.loop).drained (h.idle_of_over hover), fun o ho => ?_⟩
  · rcases Nat.eq_zero_or_pos s.closes with hzero | hpos
    · rw [hzero]
      exact Nat.zero_le _
    · rcases h.closes hpos with ⟨hone, howns, -⟩
      rw [hone, howns]
      exact Nat.le_refl _
  · have hphase := h.body.mpr ⟨hentry, hbody⟩
    rcases hpast with hpos | ⟨o, ho⟩
    · exact Nat.ne_of_gt hpos (h.before (Or.inl hphase))
    · rw [hphase] at ho
      cases ho
  · rcases h.ended o ho with ⟨-, hcloses, raised, howns, rfl⟩
    exact ⟨hcloses, HostState.outcome_returned, fun hout =>
      ⟨(HostState.outcome_closeFailed hout).2, howns (HostState.outcome_closeFailed hout).1⟩⟩

/-- The worker of {lit}`sharedUnit` in a Python process of its own. -/
def servedWorker : HostConfig where
  toRunConfig := sharedUnitLoop
  sdk := .python
  entry := .serve
  ownsStore := true
  installable := fun _ => true

/-- A session starts a call. -/
def servedRun : List (HostStep Nat) :=
  [.connect none, .loop .turn, .loop (.plan (oneQueued "embed")), .loop .session]

/-- A signal arrives while the call runs, and the call ends after that. -/
def interruptedRun : List (HostStep Nat) :=
  servedRun ++ [.signal .sigint, .loop .turn, .loop (.complete 0), .loop .gathered, .closed false]

/-- The host returns, and has closed the store once. -/
theorem hosted_shutdown_interruptedRun :
    let s := (hosting servedWorker).drive (HostState.start servedWorker) interruptedRun
    s.phase = .left .returned ∧ s.closes = 1 ∧ s.run.ended.length = 1 ∧
      (callTasks (s.run.ended.map RunningCall.call)).Perm (s.run.drawn.flatMap Draw.rows) := by
  intro s
  have hreach : (hosting servedWorker).Reachable anyStep (HostState.start servedWorker) s :=
    Machine.reachable_drive _ _ _ fun _ _ _ => trivial
  exact ⟨rfl, rfl, rfl, (hosted_shutdown hreach (Or.inl Nat.one_pos)).2.1.2⟩

end Kept

/-! ## Winding down -/

section End

variable {cfg : HostConfig} {s s' : HostState J} {l : HostStep J}

/-- The steps that a host has ahead of it at most, once it was told to stop. -/
def HostState.ahead (s : HostState J) : Nat :=
  match s.phase with
  | .body | .awaits => s.run.ahead + (!s.connected).toNat + 2
  | .closing => 1
  | .left _ | .defaulted => 0

/-- The host was told to stop: the run is, the body has ended, and no handler is left. -/
structure HostState.Told (s : HostState J) : Prop where
  stopped : s.run.stopped = true
  body : s.phase ≠ .body
  handlers : s.handlers = []

theorem HostState.ahead_leave : (s.leave cfg).ahead ≤ 1 := by
  unfold HostState.leave
  split
  · exact Nat.le_refl 1
  · exact Nat.zero_le 1

theorem HostState.ahead_settle (hphase : s.phase = .awaits) :
    (s.settle cfg).ahead ≤ s.ahead := by
  unfold HostState.settle
  split
  · have hleave : (s.leave cfg).ahead ≤ 1 := ahead_leave
    have hawaits : s.ahead = s.run.ahead + (!s.connected).toNat + 2 := by
      rw [HostState.ahead, hphase]
    omega
  · exact Nat.le_refl _

theorem HostState.Told.settle (h : s.Told) : (s.settle cfg).Told := by
  unfold HostState.settle HostState.leave
  split
  · split <;> exact ⟨h.stopped, nofun, rfl⟩
  · exact h

/-- A host that was told to stop comes closer to its end with every step, whatever happens. -/
theorem host_ahead_lt (htold : s.Told) (hstep : HostEffect cfg s l s') :
    s'.Told ∧ s'.ahead < s.ahead := by
  cases hstep with
  | @connect failure hway hoff hraises =>
      have hphase := (HostState.underWay_iff.mp hway).1.resolve_left htold.body
      have hahead : s.ahead = s.run.ahead + 1 + 2 := by
        simp [HostState.ahead, hphase, hoff]
      refine ⟨HostState.Told.settle ⟨htold.stopped, htold.body, htold.handlers⟩, ?_⟩
      rw [hahead]
      cases failure with
      | none =>
          refine Nat.lt_of_le_of_lt (HostState.ahead_settle hphase) ?_
          simp [HostState.ahead, hphase]
      | some failure =>
          rw [HostState.settle, if_pos ⟨hphase, rfl⟩]
          exact Nat.lt_of_le_of_lt HostState.ahead_leave (by omega)
  | @loop e run hway hon hrun =>
      have hphase := (HostState.underWay_iff.mp hway).1.resolve_left htold.body
      rcases ahead_lt htold.stopped (runStep_of_step hrun) with ⟨hstopped, hlt⟩
      refine ⟨HostState.Told.settle ⟨hstopped, htold.body, htold.handlers⟩,
        Nat.lt_of_le_of_lt (HostState.ahead_settle hphase) ?_⟩
      simpa [HostState.ahead, hphase] using hlt
  | @interrupt turned failure run hway hon hraises hrun =>
      have hphase := (HostState.underWay_iff.mp hway).1.resolve_left htold.body
      rcases ahead_lt htold.stopped (runStep_of_step hrun) with ⟨hstopped, hlt⟩
      refine ⟨⟨hstopped, htold.body, htold.handlers⟩, ?_⟩
      simpa [HostState.ahead, hphase] using hlt
  | stop hgoing => exact nomatch hgoing.symm.trans htold.stopped
  | take hserve hmem =>
      rw [htold.handlers] at hmem
      cases hmem
  | default hserve hfinal hmem =>
      refine ⟨⟨htold.stopped, nofun, htold.handlers⟩, ?_⟩
      show 0 < s.ahead
      unfold HostState.ahead
      cases hphase : s.phase with
      | body | awaits => exact Nat.succ_pos _
      | closing => exact Nat.one_pos
      | left o => rw [hphase] at hfinal; cases hfinal
      | defaulted => rw [hphase] at hfinal; cases hfinal
  | body hphase => exact absurd hphase htold.body
  | closed hphase =>
      refine ⟨⟨htold.stopped, nofun, htold.handlers⟩, ?_⟩
      show 0 < s.ahead
      rw [HostState.ahead, hphase]
      exact Nat.one_pos

theorem host_ahead_le (h : HostKept cfg s) : s.ahead ≤ cfg.concurrency + 8 := by
  have hrun := ahead_le (runInvariant_of_reachable h.loop)
  have hbool := Bool.toNat_le (!s.connected)
  unfold HostState.ahead
  split <;> omega

/-- Neither a call of `stop` nor a signal, and no failure. -/
def HostStep.ordinary : HostStep J → Bool
  | .connect failure => failure.isNone
  | .loop e => e.ordinary
  | .closed raised => !raised
  | _ => false

theorem RunEvent.own_of_ordinary {e : RunEvent J} (he : e.ordinary = true) : e.own = true := by
  cases e <;> first | rfl | cases he

/-- A host whose body has ended can go on until it is over. -/
theorem exists_host_step (h : HostKept cfg s) (hbody : s.phase ≠ .body)
    (hfinal : s.phase.final = false) :
    ∃ l : HostStep J, l.ordinary = true ∧ (hosting cfg s l).isSome = true := by
  cases hphase : s.phase with
  | body => exact absurd hphase hbody
  | awaits =>
      have hgoing := h.awaits hphase
      have hway := HostState.underWay_iff.mpr ⟨Or.inr hphase, hgoing⟩
      cases hon : s.connected with
      | false => exact ⟨.connect none, rfl, by simp [hosting, hway, hon]⟩
      | true =>
          have hreturned : s.run.phase ≠ .returned := by
            simpa [HostState.runOver, hon] using hgoing
          rcases exists_step (runInvariant_of_reachable h.loop) hreturned with ⟨e, he, hrun⟩
          refine ⟨.loop e, he, ?_⟩
          simp [hosting, hway, hon, RunEvent.own_of_ordinary he, hrun]
  | closing => exact ⟨.closed false, rfl, by simp [hosting, hphase]⟩
  | left o => rw [hphase] at hfinal; cases hfinal
  | defaulted => rw [hphase] at hfinal; cases hfinal

/-- A signal that `serve` takes, and the end of the body of `background`, tell the host to stop. -/
theorem HostState.Told.of_step (h : HostKept cfg s) (hstep : HostEffect cfg s l s')
    (htells : (∃ sig, l = .signal sig ∧ sig ∈ s.handlers) ∨ ∃ ended, l = .body ended) :
    s'.Told := by
  rcases htells with ⟨sig, rfl, hsig⟩ | ⟨ended, rfl⟩
  · cases hstep with
    | take hserve hmem =>
        refine ⟨rfl, fun hbody => ?_, rfl⟩
        rcases (h.handlers (List.ne_nil_of_mem hmem)).2 with hphase | hphase <;>
          exact nomatch hphase.symm.trans hbody
    | default hserve hfinal hmem => exact absurd hsig hmem
  · cases hstep with
    | body hphase =>
        refine HostState.Told.settle ⟨rfl, nofun, ?_⟩
        by_contra hne
        rcases (h.handlers hne).2 with hother | hother <;> exact nomatch hphase.symm.trans hother

/-- Once `serve` has taken a signal, or the body of `background` has ended, the host ends within a
bounded number of steps, whatever they are, and until then it can go on.  A further signal finds no
handler and reaches the default action of the process. -/
theorem host_winds_down (hreach : (hosting cfg).Reachable anyStep (HostState.start cfg) s)
    (htells : (∃ sig, l = .signal sig ∧ sig ∈ s.handlers) ∨ ∃ ended, l = .body ended)
    {s₁ : HostState J} (hstep : hosting cfg s l = some s₁) {ls : List (HostStep J)}
    (hsteps : (hosting cfg).Steps anyStep s₁ ls s') :
    ls.length ≤ cfg.concurrency + 8 ∧
      (s'.phase.final = false →
        ∃ l : HostStep J, l.ordinary = true ∧ (hosting cfg s' l).isSome = true) ∧
      ∀ sig s'', hosting cfg s' (.signal sig) = some s'' → s''.phase = .defaulted := by
  have h := hostKept_of_reachable hreach
  have heffect := hostEffect_of_step hstep
  have hkept := hostKept_step h heffect
  have htold := HostState.Told.of_step h heffect htells
  have hlength := hsteps.length_add_le (I := fun t => HostKept cfg t ∧ t.Told)
    (fun t l t' ht _ hstep => by
      have heffect := hostEffect_of_step hstep
      have hlt := host_ahead_lt ht.2 heffect
      exact ⟨⟨hostKept_step ht.1 heffect, hlt.1⟩, hlt.2⟩) ⟨hkept, htold⟩
  have hend := hsteps.invariant (I := fun t => HostKept cfg t ∧ t.Told)
    (fun t l t' ht _ hstep => by
      have heffect := hostEffect_of_step hstep
      exact ⟨hostKept_step ht.1 heffect, (host_ahead_lt ht.2 heffect).1⟩) ⟨hkept, htold⟩
  refine ⟨Nat.le_trans (Nat.le_of_add_right_le hlength) (host_ahead_le hkept),
    fun hfinal => exists_host_step hend.1 hend.2.body hfinal, fun sig s'' hsig => ?_⟩
  cases hostEffect_of_step hsig with
  | take hserve hmem =>
      rw [hend.2.handlers] at hmem
      cases hmem
  | default => rfl

/-- The signal stops the worker, and a second one, while the call still runs, ends the process. -/
theorem host_winds_down_servedRun :
    let s := (hosting servedWorker).drive (HostState.start servedWorker) servedRun
    let s₁ := (hosting servedWorker).drive s [.signal .sigint]
    ∀ sig s'', hosting servedWorker s₁ (.signal sig) = some s'' → s''.phase = .defaulted := by
  intro s s₁
  have hreach : (hosting servedWorker).Reachable anyStep (HostState.start servedWorker) s :=
    Machine.reachable_drive _ _ _ fun _ _ _ => trivial
  have hstep : hosting servedWorker s (.signal .sigint) = some s₁ := rfl
  exact (host_winds_down hreach (Or.inl ⟨.sigint, rfl, by decide⟩) hstep (.nil s₁)).2.2

end End

end CairnQ
