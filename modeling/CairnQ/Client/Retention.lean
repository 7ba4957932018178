import CairnQ.Protocol.Execution
import CairnQ.SqliteStore.Reopening
import CairnQ.Transition.Slots

/-!
# Scheduled retention

The sweep loop of a Python handle across opens and closes of its store.  A connect that has
opened the store ends with `RetentionSweeper.start`, which creates the task of the loop unless
`_task` refers to one already; `CairnQ.close()` stops the sweeper, which sets `_stop`, awaits
the task it took from the field and clears `_stop` again, and then closes the store.  The loop
sleeps, sweeps and looks at `_stop` in between; the purges of a sweep connect like any other
operation.

Main results:

- Theorem `Governed.of_step`: the only loop that is not over is the one `_task` refers to or
  the one a `CairnQ.close()` awaits, in runs whose connects and closes keep apart.
- Theorem `retention_follows`: so no loop outlives a `CairnQ.close()`, and an open store has one.
- Theorem `retention_follows_fails`: a connect that ends during a close leaves a loop nobody
  stops, or a finished task that blocks every later start.
-/

namespace CairnQ

open Transition

/-! ## The Postgres store -/

/-- Where a `close()` of the Python `PostgresStore` stands: it awaits the listener attempt it
cancelled, or the `close()` of its executor, or is over. -/
inductive PoolCloser
  | cancelling
  | shutting
  | over (failed : Bool)
deriving DecidableEq, Repr

/-- A Python `PostgresStore` as far as connecting and closing go. -/
structure PoolLife where
  /-- it was given its executor, which it never closes -/
  provided : Bool
  generation : Nat
  executor : Bool
  /-- the connect that holds the init lock, with the generation it read -/
  connecting : Option Nat
  /-- connects that wait for the init lock -/
  waiting : Nat
  closers : List PoolCloser
deriving DecidableEq, Repr

/-- A turn of the store, or a call on it. -/
inductive PoolStep
  /-- `connect()`, of an operation or by itself -/
  | connect
  /-- a connect gets the init lock -/
  | grant
  /-- its executor is ready to be published -/
  | prepared
  | prepareFails
  /-- a `close()` call, with a listener attempt to await or none -/
  | close (attempt : Bool)
  | cancelled (n : Nat)
  | shut (n : Nat) (failed : Bool)
deriving DecidableEq, Repr

namespace PoolLife

/-- A store nobody has used. -/
def fresh (provided : Bool) : PoolLife where
  provided := provided
  generation := 0
  executor := false
  connecting := none
  waiting := 0
  closers := []

/-- What a `close()` awaits once it has given the executor up. -/
def giveUp (s : PoolLife) : PoolCloser :=
  if s.executor && !s.provided then .shutting else .over false

/-- `close()` up to its first suspension. -/
def close (s : PoolLife) (attempt : Bool) : PoolLife :=
  let begun := { s with generation := s.generation + 1 }
  if attempt then { begun with closers := s.closers ++ [.cancelling] }
  else { begun with executor := false, closers := s.closers ++ [s.giveUp] }

end PoolLife

/-- The life cycle of the store. -/
def poolLife : Machine PoolLife PoolStep
  | s, .connect => some (if s.executor then s else { s with waiting := s.waiting + 1 })
  | s, .grant =>
      if s.connecting = none ∧ 0 < s.waiting then
        some { s with
          waiting := s.waiting - 1
          connecting := if s.executor then none else some s.generation }
      else none
  | s, .prepared => match s.connecting with
    | some generation => some { s with
        connecting := none
        -- closed meanwhile: the executor has no owner, and the connect raises
        executor := s.executor || decide (generation = s.generation) }
    | none => none
  | s, .prepareFails => match s.connecting with
    | some _ => some { s with connecting := none }
    | none => none
  | s, .close attempt => some (s.close attempt)
  | s, .cancelled n => match s.closers[n]? with
    | some .cancelling => some { s with executor := false, closers := s.closers.set n s.giveUp }
    | _ => none
  | s, .shut n failed => match s.closers[n]? with
    | some .shutting => some { s with closers := s.closers.set n (.over failed) }
    | _ => none

/-! ## The store that is swept -/

/-- The store of a handle. -/
inductive SweptStore
  | sqlite (life : StoreLife)
  | postgres (life : PoolLife)
deriving DecidableEq, Repr

/-- A turn of the store. -/
inductive SweptStep
  /-- {lit}`passes`: whether a version check that ends here passes -/
  | sqlite (l : LifeStep) (passes : Bool)
  | postgres (l : PoolStep)
deriving DecidableEq, Repr

namespace SweptStore

/-- A store nobody has used. -/
def fresh (d : Dialect) (provided : Bool) : SweptStore :=
  match d with
  | .sqlite => .sqlite .fresh
  | .postgres => .postgres (.fresh provided)

/-- `_ensure` of an operation, or `connect()`. -/
def connect : SweptStore → SweptStore
  | .sqlite life => .sqlite ((storeLife life .connect).getD life)
  | .postgres life => .postgres ((poolLife life .connect).getD life)

/-- `close()`; only Postgres has a listener attempt to await. -/
def close (attempt : Bool) : SweptStore → SweptStore
  | .sqlite life => .sqlite life.close
  | .postgres life => .postgres (life.close attempt)

/-- How many `close()` calls there have been. -/
def closers : SweptStore → Nat
  | .sqlite life => life.closers.length
  | .postgres life => life.closers.length

/-- Whether a `close()` call that has ended raised. -/
def closeEnd (n : Nat) : SweptStore → Option Bool
  | .sqlite life => match life.closers[n]? with
    | some c => match c.phase with
      | .returned => some false
      | .raised => some true
      | .waiting | .released _ => none
    | none => none
  | .postgres life => match life.closers[n]? with
    | some (.over failed) => some failed
    | _ => none

/-- A turn that is not a call. -/
def step : SweptStore → SweptStep → Option SweptStore
  | .sqlite life, .sqlite l _ => match l with
    | .close | .connect => none
    | l => (storeLife life l).map .sqlite
  | .postgres life, .postgres l => match l with
    | .close _ | .connect => none
    | l => (poolLife life l).map .postgres
  | _, _ => none

/-- The turn ends a connect that has opened the store, which goes on to `_start_retention`. -/
def completes : SweptStore → SweptStep → Bool
  | .sqlite _, .sqlite .checked passes => passes
  | .postgres life, .postgres .prepared => decide (life.connecting = some life.generation)
  | _, _ => false

/-- A `connect()` returns at once, because the store is open. -/
def finds : SweptStore → Bool
  | .sqlite life => !life.closing && life.conn.isSome
  | .postgres life => life.executor

/-- A connect that waited for the init lock returns, because the store is open by then. -/
def findsLater : SweptStore → SweptStep → Bool
  | .sqlite life, .sqlite .grant _ => life.conn.isSome
  | .postgres life, .postgres .grant => life.executor
  | _, _ => false

end SweptStore

/-! ## The sweeper -/

/-- Where a `_run` stands: its task has yet to start, it sleeps, awaits a purge with so many
rules to come after this one, yields between two batches, or is over. -/
inductive LoopPhase
  | scheduled
  | sleeping
  | purging (rules : Nat)
  | yielding (rules : Nat)
  | over
deriving DecidableEq, Repr

/-- How a `_run` goes on. -/
inductive LoopTurn
  | starts
  | wakes
  /-- a purge returns, as many rows as its limit or fewer -/
  | purged (full : Bool)
  | purgeFails
  | yielded
deriving DecidableEq, Repr

namespace LoopPhase

/-- The head of the loop. -/
def atHead (stopSet : Bool) : LoopPhase :=
  if stopSet then .over else .sleeping

/-- `_run` and the `sweep` in it, with so many rules after the first. -/
def next (further : Nat) (stopSet : Bool) : LoopPhase → LoopTurn → Option LoopPhase
  | .scheduled, .starts => some (atHead stopSet)
  | .sleeping, .wakes => some (if stopSet then .over else .purging further)
  | .purging rules, .purged full =>
      some (if stopSet then .over
        else if full then .yielding rules
        else match rules with
          | 0 => .sleeping
          | rules + 1 => .purging rules)
  -- reported, never fatal
  | .purging _, .purgeFails => some (atHead stopSet)
  | .yielding rules, .yielded => some (.purging rules)
  | _, _ => none

end LoopPhase

/-- Where a `CairnQ.close()` stands: it awaits the loop it stops, or a `close()` of the store,
or is over. -/
inductive HandleClose
  | stopping (loop : Nat)
  | closing (closer : Nat)
  | returned
  | raised
deriving DecidableEq, Repr

/-- The call is not over. -/
def HandleClose.underWay : HandleClose → Bool
  | .stopping _ | .closing _ => true
  | .returned | .raised => false

/-- A handle with a retention.  {lit}`quiet` and {lit}`served` only record what happened: a
`CairnQ.close()` has returned and no operation was issued since; a connect has completed and
no `CairnQ.close()` was called since. -/
structure RetentionState where
  store : SweptStore
  /-- the loop `_task` refers to -/
  task : Option Nat
  stopSet : Bool
  loops : List LoopPhase
  closes : List HandleClose
  quiet : Bool
  served : Bool
deriving DecidableEq, Repr

/-- What can happen. -/
inductive RetentionStep
  /-- an operation is issued, or a batch of an on-demand sweep -/
  | operation
  /-- `CairnQ.connect()` -/
  | connect
  /-- a turn of the store -/
  | store (l : SweptStep)
  /-- `close()` of the store itself -/
  | closeStore (attempt : Bool)
  /-- `CairnQ.close()` -/
  | close (attempt : Bool)
  /-- a `CairnQ.close()` runs on after the loop it awaited -/
  | stopped (k : Nat) (attempt : Bool)
  /-- a `CairnQ.close()` runs on after the `close()` of the store -/
  | closed (k : Nat)
  /-- a purge of a loop comes to the store -/
  | purge (i : Nat)
  | loop (i : Nat) (turn : LoopTurn)
deriving DecidableEq, Repr

namespace RetentionState

/-- A handle nobody has used. -/
def fresh (store : SweptStore) : RetentionState where
  store := store
  task := none
  stopSet := false
  loops := []
  closes := []
  quiet := false
  served := false

/-- `RetentionSweeper.start`, by a connect that has completed. -/
def start (s : RetentionState) : RetentionState :=
  match s.task with
  | some _ => { s with served := true }
  | none =>
      { s with
        task := some s.loops.length
        loops := s.loops ++ [.scheduled]
        served := true }

/-- `CairnQ.close()` up to its first suspension. -/
def close (s : RetentionState) (attempt : Bool) : RetentionState :=
  match s.task with
  | none =>
      { s with
        store := s.store.close attempt
        closes := s.closes ++ [.closing s.store.closers]
        served := false }
  | some i =>
      { s with
        task := none
        stopSet := true
        closes := s.closes ++ [.stopping i]
        served := false }

/-- A `CairnQ.close()` is under way. -/
def closing (s : RetentionState) : Bool :=
  s.closes.any HandleClose.underWay

/-- A `CairnQ.close()` awaits a loop that is not over. -/
def stopping (s : RetentionState) : Bool :=
  s.closes.any fun c => match c with
    | .stopping i => decide (s.loops[i]? ≠ some .over)
    | .closing _ | .returned | .raised => false

/-- How the `close()` of the store has ended that a `CairnQ.close()` awaits. -/
def closeEnd (s : RetentionState) (k : Nat) : Option Bool :=
  match s.closes[k]? with
  | some (.closing n) => s.store.closeEnd n
  | _ => none

end RetentionState

/-- A handle whose retention has so many rules after the first. -/
def retention (further : Nat) : Machine RetentionState RetentionStep
  | s, .operation => some { s with store := s.store.connect, quiet := false }
  | s, .connect => some
      { s with
        store := s.store.connect
        quiet := false
        served := s.served || s.store.finds }
  | s, .store l => (s.store.step l).map fun store =>
      let after := { s with store := store, served := s.served || s.store.findsLater l }
      if s.store.completes l then after.start else after
  | s, .closeStore attempt => some { s with store := s.store.close attempt }
  | s, .close attempt => some (s.close attempt)
  | s, .stopped k attempt => match s.closes[k]? with
    | some (.stopping i) =>
        if s.loops[i]? = some .over then
          some { s with
            stopSet := false
            store := s.store.close attempt
            closes := s.closes.set k (.closing s.store.closers) }
        else none
    | _ => none
  | s, .closed k => (s.closeEnd k).map fun failed =>
      if failed then { s with closes := s.closes.set k .raised }
      else { s with closes := s.closes.set k .returned, quiet := true }
  | s, .purge i => match s.loops[i]? with
    | some (.purging _) => some { s with store := s.store.connect }
    | _ => none
  | s, .loop i turn => match s.loops[i]? with
    | some phase => (phase.next further s.stopSet turn).map fun phase' =>
        { s with loops := s.loops.set i phase' }
    | none => none

/-- Connects and closes keep apart.  No connect completes while a `CairnQ.close()` is under
way, nor between its return and the next operation; no `connect()` returns on an open store
before a connect has completed since the last `CairnQ.close()` began; and no `CairnQ.close()`
returns while another one awaits a loop that is not over. -/
def KeepApart (s : RetentionState) (l : RetentionStep) : Prop :=
  match l with
  | .store l =>
      (s.store.completes l = true → s.closing = false ∧ s.quiet = false) ∧
      (s.store.findsLater l = true → s.served = true)
  | .connect => s.store.finds = true → s.served = true
  | .closed k => s.closeEnd k = some false → s.stopping = false
  | _ => True

instance (s : RetentionState) (l : RetentionStep) : Decidable (KeepApart s l) :=
  match l with
  | .store _ => inferInstanceAs (Decidable ((_ → _ ∧ _) ∧ (_ → _)))
  | .connect => inferInstanceAs (Decidable (_ → _))
  | .closed _ => inferInstanceAs (Decidable (_ → _))
  | .operation | .closeStore _ | .close _ | .stopped _ _ | .purge _ | .loop _ _ =>
      inferInstanceAs (Decidable True)

/-! ## The loop -/

namespace LoopPhase

variable {further : Nat} {stopSet : Bool} {phase phase' : LoopPhase} {turn : LoopTurn}

/-- A loop that is over stays so. -/
theorem ne_over_of_next (h : phase.next further stopSet turn = some phase') : phase ≠ .over := by
  rintro rfl
  cases h

/-- While nobody stops it, a loop goes on. -/
theorem next_ne_over (h : phase.next further false turn = some phase') : phase' ≠ .over := by
  unfold next at h
  split at h
  · cases h
    exact nofun
  · cases h
    exact nofun
  · rename_i rules full
    rw [if_neg Bool.false_ne_true] at h
    cases h
    split
    · exact nofun
    · split <;> exact nofun
  · cases h
    exact nofun
  · cases h
    exact nofun
  · cases h

end LoopPhase

/-! ## The invariant -/

namespace RetentionState

variable {further : Nat} {s s' : RetentionState} {l : RetentionStep} {i k n : Nat}
  {phase : LoopPhase} {c : HandleClose}

/-- The loops, those who stop them, and what both leave in the fields. -/
structure Governed (s : RetentionState) : Prop where
  task : ∀ i, s.task = some i → ∃ phase, s.loops[i]? = some phase ∧ phase ≠ .over
  /-- a loop that is not over is the sweeper's, or is awaited -/
  loops : ∀ (i : Nat) (phase : LoopPhase), s.loops[i]? = some phase → phase ≠ .over →
    s.task = some i ∨ ∃ k : Nat, s.closes[k]? = some (.stopping i)
  underWay : ∀ (k : Nat) (c : HandleClose), s.closes[k]? = some c → c.underWay = true →
    s.task = none
  stopSet : s.stopSet = true ↔ ∃ k i : Nat, s.closes[k]? = some (.stopping i)
  /-- one call awaits a loop at a time -/
  alone : ∀ (k k' i i' : Nat), s.closes[k]? = some (.stopping i) →
    s.closes[k']? = some (.stopping i') → k = k'
  served : s.served = true → s.task ≠ none
  quiet : s.quiet = true → ∀ (i : Nat) (phase : LoopPhase), s.loops[i]? = some phase →
    phase = .over

theorem Governed.fresh (store : SweptStore) : (fresh store).Governed where
  task := by
    intro i h
    cases h
  loops := by
    intro i phase h
    cases h
  underWay := by
    intro k c h
    cases h
  stopSet := by
    constructor
    · intro h
      cases h
    · rintro ⟨k, i, h⟩
      cases h
  alone := by
    intro k k' i i' h
    cases h
  served := by
    intro h
    cases h
  quiet := by
    intro h
    cases h

theorem closing_eq_false (h : s.closing = false) (hc : s.closes[k]? = some c) :
    c.underWay = false := by
  have hall := List.any_eq_false.mp h c (List.mem_of_getElem? hc)
  exact Bool.eq_false_iff.mpr hall

theorem stopping_eq_false (h : s.stopping = false) (hc : s.closes[k]? = some (.stopping i)) :
    s.loops[i]? = some .over := by
  have hall := List.any_eq_false.mp h _ (List.mem_of_getElem? hc)
  rw [decide_eq_true_eq, not_not] at hall
  exact hall

/-- What happens in the store alone. -/
theorem Governed.inStore (h : s.Governed) (store : SweptStore) :
    { s with store := store }.Governed :=
  { task := h.task, loops := h.loops, underWay := h.underWay, stopSet := h.stopSet
    alone := h.alone, served := h.served, quiet := h.quiet }

/-- An operation is issued, or a connect finds the store open. -/
theorem Governed.record (h : s.Governed) (store : SweptStore) {quiet served : Bool}
    (hquiet : quiet = true → s.quiet = true) (hserved : served = true → s.served = true) :
    { s with store := store, quiet := quiet, served := served }.Governed :=
  { task := h.task, loops := h.loops, underWay := h.underWay, stopSet := h.stopSet
    alone := h.alone, served := fun h' => h.served (hserved h')
    quiet := fun h' => h.quiet (hquiet h') }

theorem start_of_none (h : s.task = none) : s.start =
    { s with
      task := some s.loops.length
      loops := s.loops ++ [.scheduled]
      served := true } := by
  rw [start, h]

theorem start_of_some (h : s.task = some i) : s.start = { s with served := true } := by
  rw [start, h]

theorem close_of_none {attempt : Bool} (h : s.task = none) : s.close attempt =
    { s with
      store := s.store.close attempt
      closes := s.closes ++ [.closing s.store.closers]
      served := false } := by
  rw [close, h]

theorem close_of_some {attempt : Bool} (h : s.task = some i) : s.close attempt =
    { s with
      task := none
      stopSet := true
      closes := s.closes ++ [.stopping i]
      served := false } := by
  rw [close, h]

/-- A connect completes while no close is under way. -/
theorem Governed.start (h : s.Governed) (hclosing : s.closing = false) (hquiet : s.quiet = false) :
    s.start.Governed := by
  cases htask : s.task with
  | some i =>
      rw [start_of_some htask]
      exact { task := h.task, loops := h.loops, underWay := h.underWay, stopSet := h.stopSet
              alone := h.alone
              served := fun _ hnone => nomatch htask.symm.trans hnone
              quiet := h.quiet }
  | none =>
      rw [start_of_none htask]
      exact {
        task := by
          intro i hi
          cases hi
          exact ⟨.scheduled, List.getElem?_concat_length, nofun⟩
        loops := by
          intro i phase hphase hover
          rcases cases_getElem?_concat hphase with ⟨rfl, _⟩ | hold
          · exact Or.inl rfl
          · rcases h.loops i phase hold hover with hown | hawaited
            · rw [htask] at hown
              cases hown
            · exact Or.inr hawaited
        underWay := by
          intro k c hc hunder
          rw [closing_eq_false hclosing hc] at hunder
          cases hunder
        stopSet := h.stopSet
        alone := h.alone
        served := fun _ => Option.some_ne_none _
        quiet := by
          intro h'
          rw [hquiet] at h'
          cases h' }

/-- Nobody awaits a loop while the sweeper has one. -/
theorem Governed.not_stopping (h : s.Governed) (htask : s.task = some i) :
    s.closes[k]? ≠ some (.stopping n) := by
  intro hk
  have hnone := h.underWay k _ hk rfl
  rw [htask] at hnone
  cases hnone

/-- `CairnQ.close()` takes the loop from the field, if there is one, and nobody awaits another. -/
theorem Governed.close (h : s.Governed) {attempt : Bool} : (s.close attempt).Governed := by
  cases htask : s.task with
  | none =>
      rw [close_of_none htask]
      have hold {k i : Nat}
          (hk : (s.closes ++ [.closing s.store.closers])[k]? = some (.stopping i)) :
          s.closes[k]? = some (.stopping i) := by
        rcases cases_getElem?_concat hk with ⟨_, hnew⟩ | hk
        · cases hnew
        · exact hk
      have hkept {k i : Nat} (hk : s.closes[k]? = some (.stopping i)) :
          (s.closes ++ [.closing s.store.closers])[k]? = some (.stopping i) :=
        (List.getElem?_append_left (List.getElem?_eq_some_iff.mp hk).1).trans hk
      exact {
        task := h.task
        loops := fun i phase hphase hover =>
          (h.loops i phase hphase hover).imp id fun ⟨k, hk⟩ => ⟨k, hkept hk⟩
        underWay := fun _ _ _ _ => htask
        stopSet := h.stopSet.trans
          ⟨fun ⟨k, i, hk⟩ => ⟨k, i, hkept hk⟩, fun ⟨k, i, hk⟩ => ⟨k, i, hold hk⟩⟩
        alone := fun k k' i i' hk hk' => h.alone k k' i i' (hold hk) (hold hk')
        served := nofun
        quiet := h.quiet }
  | some i =>
      rw [close_of_some htask]
      have hlast : (s.closes ++ [.stopping i])[s.closes.length]? = some (.stopping i) :=
        List.getElem?_concat_length
      have honly {k j : Nat} (hk : (s.closes ++ [.stopping i])[k]? = some (.stopping j)) :
          k = s.closes.length := by
        rcases cases_getElem?_concat hk with ⟨hk, _⟩ | hk
        · exact hk
        · exact absurd hk (h.not_stopping htask)
      exact {
        task := nofun
        loops := by
          intro j phase hphase hover
          rcases h.loops j phase hphase hover with hown | ⟨k, hk⟩
          · rw [htask] at hown
            cases hown
            exact Or.inr ⟨_, hlast⟩
          · exact absurd hk (h.not_stopping htask)
        underWay := fun _ _ _ _ => rfl
        stopSet := ⟨fun _ => ⟨_, i, hlast⟩, fun _ => rfl⟩
        alone := fun k k' j j' hk hk' => (honly hk).trans (honly hk').symm
        served := nofun
        quiet := h.quiet }

/-- A `CairnQ.close()` whose loop is over clears the event: no other one awaits a loop. -/
theorem Governed.stopped (h : s.Governed) (hk : s.closes[k]? = some (.stopping i))
    (hover : s.loops[i]? = some .over) (store : SweptStore) :
    { s with
      stopSet := false
      store := store
      closes := s.closes.set k (.closing n) }.Governed := by
  have hnone := h.underWay k _ hk rfl
  have hgone {k' j : Nat} : (s.closes.set k (.closing n))[k']? ≠ some (.stopping j) := by
    intro hk'
    rcases cases_getElem?_set hk' with ⟨_, hnew⟩ | ⟨hne, hold⟩
    · cases hnew
    · exact hne (h.alone k' k j i hold hk)
  exact {
    task := h.task
    loops := by
      intro j phase hphase halive
      rcases h.loops j phase hphase halive with hown | ⟨k', hk'⟩
      · exact Or.inl hown
      · have hsame := h.alone k' k j i hk' hk
        rw [hsame, hk] at hk'
        cases hk'
        rw [hover] at hphase
        exact absurd (Option.some.inj hphase).symm halive
    underWay := fun _ _ _ _ => hnone
    stopSet := ⟨nofun, fun ⟨_, _, hk'⟩ => absurd hk' hgone⟩
    alone := fun _ _ _ _ hk' => absurd hk' hgone
    served := h.served
    quiet := h.quiet }

/-- A `CairnQ.close()` ends; one that returns leaves no loop, since none is awaited that is not
over. -/
theorem Governed.ended (h : s.Governed) (hk : s.closes[k]? = some (.closing n))
    (hc : c.underWay = false) {quiet : Bool}
    (hquiet : quiet = true → s.quiet = true ∨ s.stopping = false) :
    { s with closes := s.closes.set k c, quiet := quiet }.Governed := by
  have hold {k' j : Nat} (hk' : (s.closes.set k c)[k']? = some (.stopping j)) :
      s.closes[k']? = some (.stopping j) := by
    rcases cases_getElem?_set hk' with ⟨_, rfl⟩ | ⟨_, hold⟩
    · cases hc
    · exact hold
  have hkept {k' j : Nat} (hk' : s.closes[k']? = some (.stopping j)) :
      (s.closes.set k c)[k']? = some (.stopping j) := by
    have hne : k ≠ k' := by
      rintro rfl
      rw [hk] at hk'
      cases hk'
    rw [List.getElem?_set_ne hne]
    exact hk'
  exact {
    task := h.task
    loops := fun i phase hphase halive =>
      (h.loops i phase hphase halive).imp id fun ⟨k', hk'⟩ => ⟨k', hkept hk'⟩
    underWay := by
      intro k' c' hk' hunder
      rcases cases_getElem?_set hk' with ⟨_, rfl⟩ | ⟨_, hold⟩
      · rw [hc] at hunder
        cases hunder
      · exact h.underWay k' c' hold hunder
    stopSet := h.stopSet.trans
      ⟨fun ⟨k', i, hk'⟩ => ⟨k', i, hkept hk'⟩, fun ⟨k', i, hk'⟩ => ⟨k', i, hold hk'⟩⟩
    alone := fun k' k'' i i' hk' hk'' => h.alone k' k'' i i' (hold hk') (hold hk'')
    served := h.served
    quiet := by
      intro h' i phase hphase
      rcases hquiet h' with hquiet | hstopping
      · exact h.quiet hquiet i phase hphase
      · by_contra halive
        rcases h.loops i phase hphase halive with hown | ⟨k', hk'⟩
        · have hnone := h.underWay k _ hk rfl
          rw [hnone] at hown
          cases hown
        · rw [stopping_eq_false hstopping hk'] at hphase
          exact halive (Option.some.inj hphase).symm }

/-- A loop goes on, and ends only while it is being stopped. -/
theorem Governed.loop (h : s.Governed) (hphase : s.loops[i]? = some phase) {phase' : LoopPhase}
    {turn : LoopTurn} (hnext : phase.next further s.stopSet turn = some phase') :
    { s with loops := s.loops.set i phase' }.Governed := by
  have hlive := LoopPhase.ne_over_of_next hnext
  have hlt := (List.getElem?_eq_some_iff.mp hphase).1
  exact {
    task := by
      intro j hj
      have hclear : s.stopSet = false := by
        refine Bool.eq_false_iff.mpr fun hset => ?_
        rcases h.stopSet.mp hset with ⟨k, n, hk⟩
        exact h.not_stopping hj hk
      by_cases hji : j = i
      · rw [hji]
        rw [hclear] at hnext
        exact ⟨phase', List.getElem?_set_self hlt, LoopPhase.next_ne_over hnext⟩
      · rw [List.getElem?_set_ne (Ne.symm hji)]
        exact h.task j hj
    loops := by
      intro j b hb halive
      rcases cases_getElem?_set hb with ⟨rfl, _⟩ | ⟨_, hold⟩
      · exact h.loops j phase hphase hlive
      · exact h.loops j b hold halive
    underWay := h.underWay
    stopSet := h.stopSet
    alone := h.alone
    served := h.served
    quiet := fun h' => absurd (h.quiet h' i phase hphase) hlive }

/-- Every step keeps the invariant while connects and closes keep apart. -/
theorem Governed.of_step (h : s.Governed) (hguard : KeepApart s l)
    (hstep : retention further s l = some s') : s'.Governed := by
  cases l with
  | operation =>
      cases hstep
      exact h.record _ nofun id
  | connect =>
      cases hstep
      refine h.record _ nofun fun hserved => ?_
      rcases Bool.or_eq_true_iff.mp hserved with hserved | hfinds
      · exact hserved
      · exact hguard hfinds
  | store l =>
      rcases Option.map_eq_some_iff.mp hstep with ⟨store, _, rfl⟩
      have hafter :
          { s with store := store, served := s.served || s.store.findsLater l }.Governed := by
        refine h.record store id fun hserved => ?_
        rcases Bool.or_eq_true_iff.mp hserved with hserved | hfinds
        · exact hserved
        · exact hguard.2 hfinds
      split
      · rename_i hcompletes
        exact hafter.start (hguard.1 hcompletes).1 (hguard.1 hcompletes).2
      · exact hafter
  | closeStore attempt =>
      cases hstep
      exact h.inStore _
  | close attempt =>
      cases hstep
      exact h.close
  | stopped k attempt =>
      cases hk : s.closes[k]? with
      | none => simp only [retention, hk, reduceCtorEq] at hstep
      | some c =>
          cases c with
          | stopping i =>
              simp only [retention, hk, Option.ite_none_right_eq_some, Option.some.injEq] at hstep
              rcases hstep with ⟨hover, rfl⟩
              exact h.stopped hk hover _
          | closing _ | returned | raised => simp only [retention, hk, reduceCtorEq] at hstep
  | closed k =>
      rcases Option.map_eq_some_iff.mp hstep with ⟨failed, hend, rfl⟩
      have hclosing : ∃ n, s.closes[k]? = some (.closing n) := by
        unfold closeEnd at hend
        split at hend
        · exact ⟨_, ‹_›⟩
        · cases hend
      rcases hclosing with ⟨n, hk⟩
      cases failed with
      | true => exact h.ended hk rfl Or.inl
      | false => exact h.ended hk rfl fun _ => Or.inr (hguard hend)
  | purge i =>
      cases hi : s.loops[i]? with
      | none => simp only [retention, hi, reduceCtorEq] at hstep
      | some phase =>
          cases phase with
          | purging rules =>
              simp only [retention, hi, Option.some.injEq] at hstep
              rw [← hstep]
              exact h.inStore _
          | _ =>
              simp only [retention, hi, reduceCtorEq] at hstep
  | loop i turn =>
      cases hi : s.loops[i]? with
      | none => simp only [retention, hi, reduceCtorEq] at hstep
      | some phase =>
          simp only [retention, hi] at hstep
          rcases Option.map_eq_some_iff.mp hstep with ⟨phase', hnext, rfl⟩
          exact h.loop hi hnext

/-- What the schedule owes the handle. -/
structure Follows (further : Nat) (s : RetentionState) : Prop where
  /-- after a `CairnQ.close()`, until an operation is issued, every loop is over -/
  quiet : s.quiet = true → ∀ (i : Nat) (phase : LoopPhase), s.loops[i]? = some phase →
    phase = .over
  /-- after a connect, until a `CairnQ.close()`, the sweeper has a loop that goes on -/
  served : s.served = true → ∃ (i : Nat) (phase : LoopPhase), s.task = some i ∧
    s.loops[i]? = some phase ∧ phase ≠ .over ∧
    ∀ turn phase', phase.next further s.stopSet turn = some phase' → phase' ≠ .over

theorem Governed.follows (h : s.Governed) : s.Follows further where
  quiet := h.quiet
  served := by
    intro hserved
    cases htask : s.task with
    | none => exact absurd htask (h.served hserved)
    | some i =>
        rcases h.task i htask with ⟨phase, hphase, hover⟩
        have hclear : s.stopSet = false := by
          refine Bool.eq_false_iff.mpr fun hset => ?_
          rcases h.stopSet.mp hset with ⟨k, n, hk⟩
          exact h.not_stopping htask hk
        refine ⟨i, phase, rfl, hphase, hover, fun turn phase' hnext => ?_⟩
        rw [hclear] at hnext
        exact LoopPhase.next_ne_over hnext

end RetentionState

section Results

variable {further : Nat} {d : Dialect} {provided : Bool} {s : RetentionState}

/-- No loop outlives a `CairnQ.close()` and an open store has one, in every run whose connects
and closes keep apart. -/
theorem retention_follows
    (hreach : (retention further).Reachable KeepApart (.fresh (.fresh d provided)) s) :
    s.Follows further := by
  have hgoverned : s.Governed :=
    hreach.invariant (fun _ _ _ hkept hguard hstep => hkept.of_step hguard hstep)
      (RetentionState.Governed.fresh _)
  exact hgoverned.follows

/-- A handle over SQLite is used, closed, and used again. -/
def reopenedHandleRun : List RetentionStep :=
  [.operation, .store (.sqlite .grant false), .store (.sqlite .opened false),
    .store (.sqlite .checked true), .loop 0 .starts, .close false, .loop 0 .wakes,
    .stopped 0 false, .store (.sqlite (.begin false) false), .store (.sqlite .locked false),
    .store (.sqlite (.shut false) false), .store (.sqlite (.wake 0) false), .closed 0,
    .operation, .store (.sqlite .grant false), .store (.sqlite .opened false),
    .store (.sqlite .checked true)]

theorem reopenedHandleRun_keepApart : (retention 0).admits KeepApart
    (.fresh (.fresh .sqlite false)) reopenedHandleRun = true := by
  decide

theorem retention_follows_reopenedHandleRun :
    ((retention 0).drive (.fresh (.fresh .sqlite false)) reopenedHandleRun).Follows 0 :=
  retention_follows (Machine.reachable_of_admits reopenedHandleRun_keepApart)

/-- A handle over SQLite is closed while its first connect checks the version. -/
def overtakenConnectRun : List RetentionStep :=
  [.operation, .store (.sqlite .grant false), .store (.sqlite .opened false), .close false,
    .store (.sqlite (.begin false) false), .store (.sqlite .checked true),
    .store (.sqlite .locked false), .store (.sqlite (.shut false) false),
    .store (.sqlite (.wake 0) false), .closed 0]

/-- A handle over Postgres is closed while the loop reconnects for a purge, and used again. -/
def blockedStartRun : List RetentionStep :=
  [.operation, .store (.postgres .grant), .store (.postgres .prepared), .loop 0 .starts,
    .closeStore false, .loop 0 .wakes, .purge 0, .store (.postgres .grant), .close false,
    .store (.postgres .prepared), .loop 1 .starts, .loop 0 (.purged false), .stopped 0 false,
    .closed 0, .operation, .store (.postgres .grant), .store (.postgres .prepared)]

/-- A connect that ends during a close leaves a loop that outlives it, or a finished task that
keeps the next connect from starting one. -/
theorem retention_follows_fails :
    (¬ ∀ s, (retention 0).Reachable anyStep (.fresh (.fresh .sqlite false)) s → s.Follows 0) ∧
    ¬ ∀ s, (retention 0).Reachable anyStep (.fresh (.fresh .postgres true)) s → s.Follows 0 := by
  constructor
  · intro h
    have hreach := Machine.reachable_drive (g := anyStep) (retention 0)
      (.fresh (.fresh .sqlite false)) overtakenConnectRun fun _ _ _ => trivial
    have hover := (h _ hreach).quiet rfl 0 .scheduled rfl
    cases hover
  · intro h
    have hreach := Machine.reachable_drive (g := anyStep) (retention 0)
      (.fresh (.fresh .postgres true)) blockedStartRun fun _ _ _ => trivial
    rcases (h _ hreach).served rfl with ⟨i, phase, htask, hphase, hlive, _⟩
    cases htask
    exact hlive (Option.some.inj hphase).symm

end Results

end CairnQ
