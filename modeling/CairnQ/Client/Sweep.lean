import CairnQ.Protocol.Dialects
import CairnQ.Protocol.Lifecycle

/-!
# The retention sweep

`RetentionSweeper.sweep` over the protocol: for one rule after the other it purges in batches of
the limit until a batch comes back short.  A purge is one executed statement and its answer
arrives later; in between anything else may be executed, the stop flag may be set or cleared,
and the purge may raise.

Main results:

- Theorem `sweepTarget_of_step`: undisturbed, a step of the sweep leaves what remains to be
  deleted and counted in all unchanged.
- Theorem `sweep_exact`: so an undisturbed sweep deletes the rows its rules name and counts
  them, and a disturbed one deletes no other rows and counts those it deletes.
-/

namespace CairnQ

open Relational Transition

variable {J : Type}

/-! ## Rules -/

/-- A `RetentionRule`: the filters of one purge. -/
structure RetentionRule where
  olderThanMs : Int
  queue : Option String
  status : Option TaskStatus
  name : Option String
deriving DecidableEq, Repr

/-- The three forms of `older_than_ms`. -/
inductive RetentionSpec
  | age (olderThanMs : Int)
  | perStatus (cutoffs : List (TaskStatus × Int))
  | listed (rules : List RetentionRule)
deriving DecidableEq, Repr

/-- `Retention.rules`. -/
def RetentionSpec.toRules : RetentionSpec → List RetentionRule
  | .age olderThanMs => [⟨olderThanMs, none, none, none⟩]
  | .perStatus cutoffs => cutoffs.map fun c => ⟨c.2, none, some c.1, none⟩
  | .listed rules => rules

/-- `validate_purge_input`. -/
def validatePurgeInput (olderThanMs : Int) (status : Option TaskStatus) (limit : Int) : Bool :=
  decide (0 ≤ olderThanMs) && decide (1 ≤ limit) && status.all TaskStatus.isTerminal

/-- A `Retention` that `__post_init__` accepts. -/
structure Retention where
  spec : RetentionSpec
  limit : Int
  named : spec.toRules ≠ []
  valid : ∀ rule ∈ spec.toRules, validatePurgeInput rule.olderThanMs rule.status limit = true

theorem Retention.one_le_limit (r : Retention) : 1 ≤ r.limit := by
  rcases List.exists_mem_of_ne_nil _ r.named with ⟨rule, hrule⟩
  have hvalid := r.valid rule hrule
  simp only [validatePurgeInput, Bool.and_eq_true, decide_eq_true_eq] at hvalid
  exact hvalid.1.2

/-- The purge of a rule. -/
def RetentionRule.purge (limit : Int) (rule : RetentionRule) : Statement J :=
  .purge rule.olderThanMs rule.queue rule.status rule.name limit

/-- A row that the purge of a rule may delete. -/
def RetentionRule.covers (nowMs : Int) (rule : RetentionRule) (t : Task J) : Bool :=
  purgeable (nowMs - rule.olderThanMs) rule.queue rule.status rule.name t

/-- Some rule covers the row. -/
def covered (nowMs : Int) (rules : List RetentionRule) (t : Task J) : Bool :=
  rules.any fun rule => rule.covers nowMs t

/-- A terminal row that matches all filters of a rule and completed strictly more than its age
ago. -/
theorem RetentionRule.covers_iff {nowMs : Int} {rule : RetentionRule} {t : Task J} :
    rule.covers nowMs t = true ↔
      Purgeable (nowMs - rule.olderThanMs) rule.queue rule.status rule.name t :=
  purgeable_iff

theorem covered_iff {nowMs : Int} {rules : List RetentionRule} {t : Task J} :
    covered nowMs rules t = true ↔ ∃ rule ∈ rules,
      Purgeable (nowMs - rule.olderThanMs) rule.queue rule.status rule.name t := by
  simp only [covered, List.any_eq_true, RetentionRule.covers_iff]

/-! ## The sweep -/

/-- Where a sweep stands. -/
inductive SweepPhase
  /-- about to purge for the first of the rules left -/
  | purging (rule : RetentionRule) (rest : List RetentionRule)
  /-- the purge has been executed, its ids are on the way -/
  | answered (rule : RetentionRule) (rest : List RetentionRule) (ids : List String)
  | returned
  | raised
deriving DecidableEq, Repr

/-- A sweep, the database, and the rows its own purges have deleted. -/
structure SweepState (J : Type) where
  protocol : ProtocolState J
  stopSet : Bool
  phase : SweepPhase
  deleted : Nat
  removed : List String

/-- A step of the sweep, or of somebody else. -/
inductive SweepStep (J : Type)
  /-- the store executes the purge -/
  | purge (nowMs : Int) (held : String → Bool)
  /-- the sweep receives the ids -/
  | resume
  /-- the purge raises, executed or not -/
  | raise
  /-- `stop` sets the flag, and clears it later -/
  | stop (set : Bool)
  | other (e : Execution J)

/-- The turn to the next rule. -/
def nextRule : List RetentionRule → SweepPhase
  | [] => .returned
  | rule :: rest => .purging rule rest

/-- The rows that are gone. -/
def goneFrom (before after : Database J) : List String :=
  (before.tasks.rows.filter fun t => (after.get t.id).isNone).map Task.id

namespace SweepState

/-- A sweep that begins. -/
def start (r : Retention) (p : ProtocolState J) (stopSet : Bool) : SweepState J where
  protocol := p
  stopSet := stopSet
  phase := nextRule r.spec.toRules
  deleted := 0
  removed := []

/-- `deleted += len(ids)`, and whether the loop goes on. -/
def resume (limit : Int) (s : SweepState J) (rule : RetentionRule) (rest : List RetentionRule)
    (ids : List String) : SweepState J :=
  { s with
    deleted := s.deleted + ids.length
    phase :=
      if s.stopSet then .returned
      else if (ids.length : Int) < limit then nextRule rest
      else .purging rule rest }

end SweepState

/-- `RetentionSweeper.sweep`. -/
def sweep (d : Dialect) (r : Retention) : Machine (SweepState J) (SweepStep J) := fun s l =>
  match l with
  | .purge nowMs held => match s.phase with
    | .purging rule rest =>
        let e : Execution J := ⟨nowMs, held, rule.purge r.limit⟩
        (CairnQ.protocol d s.protocol e).map fun p =>
          { s with
            protocol := p
            phase := .answered rule rest (e.reply d s.protocol.db).deleted
            removed := s.removed ++ goneFrom s.protocol.db p.db }
    | _ => none
  | .resume => match s.phase with
    | .answered rule rest ids => some (s.resume r.limit rule rest ids)
    | _ => none
  | .raise => match s.phase with
    | .purging _ _ | .answered _ _ _ => some { s with phase := .raised }
    | _ => none
  | .stop set => some { s with stopSet := set }
  | .other e => (CairnQ.protocol d s.protocol e).map fun p => { s with protocol := p }

/-! ## One purge -/

/-- What a deletion removes. -/
theorem goneFrom_deleteTasks (db : Database J) (p : Task J → Bool) :
    goneFrom db (db.deleteTasks p) = (db.tasks.rows.filter p).map Task.id := by
  refine congrArg (List.map Task.id) (List.filter_congr fun t ht => ?_)
  have hget : db.get t.id = some t := KeyedTable.find?_of_mem ht
  rw [Database.get_deleteTasks, hget]
  cases hp : p t <;> simp [hp]

/-- One batch: rows its rule covers, and all of them when it comes back short. -/
structure Batch (d : Dialect) (held : String → Bool) (nowMs limit : Int) (rule : RetentionRule)
    (db : Database J) (chosen : Task J → Bool) : Prop where
  exec_eq : exec d held nowMs (rule.purge limit) db =
    (db.deleteTasks chosen, .ids ((db.tasks.rows.filter chosen).map Task.id))
  covers : ∀ t ∈ db.tasks.rows, chosen t = true → rule.covers nowMs t = true
  short : held = unlocked → ((db.tasks.rows.filter chosen).length : Int) < limit →
    ∀ t ∈ db.tasks.rows, rule.covers nowMs t = true → chosen t = true

theorem exists_batch (d : Dialect) (held : String → Bool) (nowMs : Int) {limit : Int}
    (hlimit : 1 ≤ limit) (rule : RetentionRule) (db : Database J) :
    ∃ chosen, Batch d held nowMs limit rule db chosen := by
  have hperm := KeyedTable.filter_mem_selectKeys_perm db.tasks
    (fun t => rule.covers nowMs t && !d.locked held t.id) completedOrder
    (show (0 : Int) ≤ limit by omega)
  refine ⟨fun t => decide (t.id ∈ db.tasks.selectKeys
    (fun t => rule.covers nowMs t && !d.locked held t.id) completedOrder limit), ?_, ?_, ?_⟩
  · rw [CairnQ.exec_eq]
    rfl
  · intro t ht hchosen
    have hfirst := hperm.mem_iff.mp (List.mem_filter.mpr ⟨ht, hchosen⟩)
    have helig := ((KeyedTable.isFirst_firstRows db.tasks _ completedOrder _).eligible t hfirst).2
    exact (Bool.and_eq_true_iff.mp helig).1
  · rintro rfl hshort t ht hcovers
    rw [hperm.length_eq,
      (KeyedTable.isFirst_firstRows db.tasks _ completedOrder _).length] at hshort
    have hfree : d.locked unlocked t.id = false := by cases d <;> rfl
    refine decide_eq_true ((KeyedTable.mem_selectKeys_iff_of_le (by omega) ht).mpr ?_)
    simp [hcovers, hfree]

/-- What is left to delete and to count after a deletion of covered rows. -/
theorem deleteTasks_of_covered {db : Database J} {chosen p : Task J → Bool}
    (h : ∀ t ∈ db.tasks.rows, chosen t = true → p t = true) :
    (db.deleteTasks chosen).deleteTasks p = db.deleteTasks p ∧
      (db.tasks.rows.filter chosen).length + (db.deleteTasks chosen).tasks.rows.countP p =
        db.tasks.rows.countP p := by
  constructor
  · rw [Database.deleteTasks_deleteTasks]
    refine Database.deleteTasks_congr fun t ht => ?_
    cases hchosen : chosen t
    · simp
    · simp [h t ht hchosen]
  · have hcount : (db.tasks.rows.filter chosen).countP p = (db.tasks.rows.filter chosen).length :=
      List.countP_eq_length.mpr fun t ht =>
        h t (List.mem_filter.mp ht).1 (List.mem_filter.mp ht).2
    rw [List.countP_eq_countP_filter_add db.tasks.rows p chosen, hcount]
    rfl

/-! ## An undisturbed sweep -/

/-- The rules still to be swept. -/
def pendingRules (limit : Int) : SweepPhase → List RetentionRule
  | .purging rule rest => rule :: rest
  | .answered rule rest ids => if (ids.length : Int) < limit then rest else rule :: rest
  | .returned | .raised => []

/-- The ids that are on the way. -/
def SweepPhase.received : SweepPhase → List String
  | .answered _ _ ids => ids
  | _ => []

/-- The database the sweep is to leave, and the number it is to return. -/
def sweepTarget (nowMs limit : Int) (s : SweepState J) : Database J × Nat :=
  (s.protocol.db.deleteTasks (covered nowMs (pendingRules limit s.phase)),
    s.deleted + s.phase.received.length +
      s.protocol.db.tasks.rows.countP (covered nowMs (pendingRules limit s.phase)))

/-- Nobody else executes anything, the clock stands, and the flag is left alone. -/
def Alone (nowMs : Int) (_s : SweepState J) (l : SweepStep J) : Prop :=
  l = .purge nowMs unlocked ∨ l = .resume

/-- How many steps are left at most. -/
def sweepMeasure (limit : Int) (s : SweepState J) : Nat :=
  match s.phase with
  | .purging _ rest => 2 * (rest.length + s.protocol.db.tasks.rows.length) + 2
  | .answered _ rest ids =>
      2 * (rest.length + s.protocol.db.tasks.rows.length) +
        if (ids.length : Int) < limit then 1 else 3
  | .returned | .raised => 0

@[simp]
theorem pendingRules_nextRule (limit : Int) (rest : List RetentionRule) :
    pendingRules limit (nextRule rest) = rest := by
  cases rest <;> rfl

@[simp]
theorem received_nextRule (rest : List RetentionRule) : (nextRule rest).received = [] := by
  cases rest <;> rfl

theorem nextRule_ne_raised (rest : List RetentionRule) : nextRule rest ≠ .raised := by
  cases rest <;> simp [nextRule]

/-- A deletion divides the rows. -/
theorem length_deleteTasks (db : Database J) (chosen : Task J → Bool) :
    (db.tasks.rows.filter chosen).length + (db.deleteTasks chosen).tasks.rows.length =
      db.tasks.rows.length := by
  have hsplit := List.length_eq_countP_add_countP chosen (l := db.tasks.rows)
  have hkept : (db.deleteTasks chosen).tasks.rows.length =
      db.tasks.rows.countP fun t => decide ¬chosen t = true := by
    rw [List.countP_eq_length_filter]
    refine congrArg List.length (List.filter_congr fun t _ => ?_)
    cases chosen t <;> rfl
  rw [hkept, hsplit, ← List.countP_eq_length_filter]

/-- At the beginning everything the rules cover is left to do. -/
theorem sweepTarget_start (nowMs : Int) (r : Retention) (p : ProtocolState J) (stopSet : Bool) :
    sweepTarget nowMs r.limit (SweepState.start r p stopSet) =
      (p.db.deleteTasks (covered nowMs r.spec.toRules),
        p.db.tasks.rows.countP (covered nowMs r.spec.toRules)) := by
  simp [sweepTarget, SweepState.start]

/-- At the end nothing is. -/
theorem sweepTarget_returned {nowMs limit : Int} {s : SweepState J} (hphase : s.phase = .returned) :
    sweepTarget nowMs limit s = (s.protocol.db, s.deleted) := by
  have hnone : covered (J := J) nowMs [] = fun _ => false := rfl
  simp [sweepTarget, hphase, pendingRules, SweepPhase.received, hnone]

section Undisturbed

variable {d : Dialect} {r : Retention} {nowMs : Int} {s s' : SweepState J} {l : SweepStep J}

/-- A purge of the sweep. -/
theorem sweep_purge_eq_some {held : String → Bool}
    (hstep : sweep d r s (.purge nowMs held) = some s') :
    ∃ rule rest chosen, s.phase = .purging rule rest ∧ s.protocol.clockMs ≤ nowMs ∧
      Batch d held nowMs r.limit rule s.protocol.db chosen ∧
      s' = { s with
        protocol := ⟨nowMs, s.protocol.db.deleteTasks chosen⟩
        phase := .answered rule rest ((s.protocol.db.tasks.rows.filter chosen).map Task.id)
        removed := s.removed ++ (s.protocol.db.tasks.rows.filter chosen).map Task.id } := by
  cases hphase : s.phase with
  | purging rule rest =>
      simp only [sweep, hphase] at hstep
      rcases Option.map_eq_some_iff.mp hstep with ⟨p, hp, rfl⟩
      rcases protocol_eq_some_iff.mp hp with ⟨hclock, rfl⟩
      rcases exists_batch d held nowMs r.one_le_limit rule s.protocol.db with ⟨chosen, hbatch⟩
      refine ⟨rule, rest, chosen, rfl, hclock, hbatch, ?_⟩
      simp only [Execution.reply, hbatch.exec_eq, Reply.deleted, goneFrom_deleteTasks]
  | answered rule rest ids => simp only [sweep, hphase, reduceCtorEq] at hstep
  | returned => simp only [sweep, hphase, reduceCtorEq] at hstep
  | raised => simp only [sweep, hphase, reduceCtorEq] at hstep

/-- The sweep receives ids. -/
theorem sweep_resume_eq_some (hstep : sweep d r s .resume = some s') :
    ∃ rule rest ids, s.phase = .answered rule rest ids ∧ s' = s.resume r.limit rule rest ids := by
  cases hphase : s.phase with
  | answered rule rest ids =>
      simp only [sweep, hphase, Option.some.injEq] at hstep
      exact ⟨rule, rest, ids, rfl, hstep.symm⟩
  | purging rule rest => simp only [sweep, hphase, reduceCtorEq] at hstep
  | returned => simp only [sweep, hphase, reduceCtorEq] at hstep
  | raised => simp only [sweep, hphase, reduceCtorEq] at hstep

/-- A batch leaves what remains to be deleted and counted in all unchanged. -/
theorem Batch.target {rule : RetentionRule} {db : Database J}
    {chosen : Task J → Bool} {limit : Int} (h : Batch d unlocked nowMs limit rule db chosen)
    (rest : List RetentionRule) :
    let left := if ((db.tasks.rows.filter chosen).length : Int) < limit then rest else rule :: rest
    (db.deleteTasks chosen).deleteTasks (covered nowMs left) =
        db.deleteTasks (covered nowMs (rule :: rest)) ∧
      (db.tasks.rows.filter chosen).length +
          (db.deleteTasks chosen).tasks.rows.countP (covered nowMs left) =
        db.tasks.rows.countP (covered nowMs (rule :: rest)) := by
  have hcovered : ∀ t ∈ db.tasks.rows, chosen t = true → covered nowMs (rule :: rest) t = true :=
    fun t ht hchosen => List.any_eq_true.mpr ⟨rule, List.mem_cons_self, h.covers t ht hchosen⟩
  have hall := deleteTasks_of_covered hcovered
  by_cases hshort : ((db.tasks.rows.filter chosen).length : Int) < limit
  · -- the rule covers none of the rows that are left
    have hnone : ∀ t ∈ (db.deleteTasks chosen).tasks.rows,
        covered nowMs (rule :: rest) t = covered nowMs rest t := by
      intro t ht
      rcases KeyedTable.mem_deleteWhere.mp ht with ⟨hmem, hkept⟩
      have hfree : rule.covers nowMs t = false := by
        refine Bool.eq_false_iff.mpr fun hcovers => ?_
        rw [h.short rfl hshort t hmem hcovers] at hkept
        cases hkept
      simp [covered, hfree]
    simp only [if_pos hshort]
    rw [← hall.1, ← hall.2, Database.deleteTasks_congr hnone]
    exact ⟨rfl, congrArg _ (List.countP_congr fun t ht => by rw [hnone t ht])⟩
  · simp only [if_neg hshort]
    exact hall

/-- A step of an undisturbed sweep. -/
theorem sweepTarget_of_step (halone : Alone nowMs s l) (hflag : s.stopSet = false)
    (hclock : s.protocol.clockMs ≤ nowMs) (hstep : sweep d r s l = some s') :
    sweepTarget nowMs r.limit s' = sweepTarget nowMs r.limit s ∧ s'.stopSet = false ∧
      s'.protocol.clockMs ≤ nowMs ∧ s'.phase ≠ .raised ∧
      sweepMeasure r.limit s' < sweepMeasure r.limit s := by
  have hlimit := r.one_le_limit
  rcases halone with rfl | rfl
  · rcases sweep_purge_eq_some hstep with ⟨rule, rest, chosen, hphase, -, hbatch, rfl⟩
    have htarget := hbatch.target rest
    have hrows := length_deleteTasks s.protocol.db chosen
    refine ⟨?_, hflag, le_rfl, by simp, ?_⟩
    · simp only [sweepTarget, pendingRules, SweepPhase.received, hphase, List.length_map,
        List.length_nil, Nat.add_zero]
      rw [htarget.1, Nat.add_assoc, htarget.2]
    · simp only [sweepMeasure, hphase, List.length_map]
      split <;> omega
  · rcases sweep_resume_eq_some hstep with ⟨rule, rest, ids, hphase, rfl⟩
    have hnext : (s.resume r.limit rule rest ids).phase =
        if (ids.length : Int) < r.limit then nextRule rest else .purging rule rest := by
      simp only [SweepState.resume, hflag, Bool.false_eq_true, if_false]
    have hpending : pendingRules r.limit (s.resume r.limit rule rest ids).phase =
        pendingRules r.limit s.phase := by
      rw [hnext, hphase, pendingRules]
      split
      · exact pendingRules_nextRule _ _
      · rfl
    have hreceived : (s.resume r.limit rule rest ids).phase.received = [] := by
      rw [hnext]
      split
      · exact received_nextRule _
      · rfl
    refine ⟨?_, hflag, hclock, ?_, ?_⟩
    · rw [sweepTarget, sweepTarget, hpending, hreceived, hphase]
      rfl
    · rw [hnext]
      split
      · exact nextRule_ne_raised rest
      · simp
    · rw [sweepMeasure, sweepMeasure, hnext, hphase]
      by_cases hshort : (ids.length : Int) < r.limit
      · simp only [if_pos hshort]
        cases rest with
        | nil => simp [nextRule]
        | cons next rest =>
            simp only [nextRule, SweepState.resume, List.length_cons]
            omega
      · simp only [if_neg hshort, SweepState.resume]
        omega

/-- An undisturbed sweep that has not returned goes on. -/
theorem exists_step_of_ne_returned (hphase : s.phase ≠ .returned) (hraised : s.phase ≠ .raised)
    (hclock : s.protocol.clockMs ≤ nowMs) : ∃ l, Alone nowMs s l ∧ (sweep d r s l).isSome := by
  cases hcase : s.phase with
  | purging rule rest =>
      refine ⟨.purge nowMs unlocked, .inl rfl, ?_⟩
      simp only [sweep, hcase, Option.isSome_map, Option.isSome_iff_exists]
      exact ⟨_, protocol_eq_some_iff.mpr ⟨hclock, rfl⟩⟩
  | answered rule rest ids =>
      refine ⟨.resume, .inr rfl, ?_⟩
      simp only [sweep, hcase, Option.isSome_some]
  | returned => exact absurd hcase hphase
  | raised => exact absurd hcase hraised

/-- A run of an undisturbed sweep. -/
theorem sweepTarget_of_steps {ls : List (SweepStep J)} (hflag : s.stopSet = false)
    (hclock : s.protocol.clockMs ≤ nowMs) (hraised : s.phase ≠ .raised)
    (hsteps : (sweep d r).Steps (Alone nowMs) s ls s') :
    sweepTarget nowMs r.limit s' = sweepTarget nowMs r.limit s ∧
      s'.protocol.clockMs ≤ nowMs ∧ s'.phase ≠ .raised ∧
      ls.length + sweepMeasure r.limit s' ≤ sweepMeasure r.limit s := by
  induction hsteps with
  | nil s => exact ⟨rfl, hclock, hraised, by simp⟩
  | cons halone hstep _ ih =>
      rcases sweepTarget_of_step halone hflag hclock hstep with
        ⟨htarget, hflag', hclock', hraised', hless⟩
      rcases ih hflag' hclock' hraised' with ⟨hsame, hend, hfine, hbound⟩
      refine ⟨hsame.trans htarget, hend, hfine, ?_⟩
      rw [List.length_cons]
      omega

end Undisturbed

/-! ## A disturbed sweep -/

/-- The rules a sweep may still purge for. -/
def SweepPhase.rules : SweepPhase → List RetentionRule
  | .purging rule rest => rule :: rest
  | .answered rule rest _ => rule :: rest
  | .returned | .raised => []

/-- The rules that are left are rules of the retention, and every row the sweep has deleted has
been counted or is on the way to be; a sweep that raised has no count. -/
structure Accounted (r : Retention) (s : SweepState J) : Prop where
  rules : ∀ rule ∈ s.phase.rules, rule ∈ r.spec.toRules
  counted : s.phase ≠ .raised → s.removed.length = s.deleted + s.phase.received.length

theorem rules_nextRule (rest : List RetentionRule) : (nextRule rest).rules = rest := by
  cases rest <;> rfl

theorem accounted_start (r : Retention) (p : ProtocolState J) (stopSet : Bool) :
    Accounted r (SweepState.start r p stopSet) where
  rules := by
    intro rule hrule
    rwa [SweepState.start, rules_nextRule] at hrule
  counted := by
    intro _
    simp [SweepState.start]

/-- Every step keeps the account. -/
theorem Accounted.of_step {d : Dialect} {r : Retention} {s s' : SweepState J} {l : SweepStep J}
    (h : Accounted r s) (hstep : sweep d r s l = some s') : Accounted r s' := by
  cases l with
  | purge nowMs held =>
      rcases sweep_purge_eq_some hstep with ⟨rule, rest, chosen, hphase, -, -, rfl⟩
      have hrules := h.rules
      have hcounted := h.counted (by simp [hphase])
      rw [hphase] at hrules hcounted
      refine ⟨hrules, fun _ => ?_⟩
      simp only [List.length_append, SweepPhase.received, hcounted, List.length_nil, Nat.add_zero]
  | resume =>
      rcases sweep_resume_eq_some hstep with ⟨rule, rest, ids, hphase, rfl⟩
      have hrules := h.rules
      have hcounted := h.counted (by simp [hphase])
      rw [hphase] at hrules hcounted
      constructor
      · intro rule' hrule'
        simp only [SweepState.resume] at hrule'
        split at hrule'
        · cases hrule'
        · split at hrule'
          · rw [rules_nextRule] at hrule'
            exact hrules rule' (List.mem_cons_of_mem _ hrule')
          · exact hrules rule' hrule'
      · intro _
        have hreceived : (s.resume r.limit rule rest ids).phase.received = [] := by
          simp only [SweepState.resume]
          split
          · rfl
          · split
            · exact received_nextRule rest
            · rfl
        rw [hreceived]
        exact hcounted
  | raise =>
      have hs' : s' = { s with phase := .raised } := by
        cases hphase : s.phase <;> simp_all [sweep]
      subst hs'
      exact ⟨by simp [SweepPhase.rules], fun hraised => absurd rfl hraised⟩
  | stop set =>
      cases hstep
      exact ⟨h.rules, h.counted⟩
  | other e =>
      rcases Option.map_eq_some_iff.mp hstep with ⟨p, -, rfl⟩
      exact ⟨h.rules, h.counted⟩

/-- A purge deletes rows of a rule only, and notes all of them. -/
theorem Accounted.purge {d : Dialect} {r : Retention} {s s' : SweepState J} {nowMs : Int}
    {held : String → Bool} (h : Accounted r s)
    (hstep : sweep d r s (.purge nowMs held) = some s') :
    (∀ t ∈ s.protocol.db.tasks.rows, t ∉ s'.protocol.db.tasks.rows →
      ∃ rule ∈ r.spec.toRules,
        Purgeable (nowMs - rule.olderThanMs) rule.queue rule.status rule.name t) ∧
    s'.removed = s.removed ++ goneFrom s.protocol.db s'.protocol.db := by
  rcases sweep_purge_eq_some hstep with ⟨rule, rest, chosen, hphase, -, hbatch, rfl⟩
  refine ⟨fun t ht hgone => ⟨rule, h.rules rule ?_, ?_⟩, ?_⟩
  · rw [hphase]
    exact List.mem_cons_self
  · have hchosen : chosen t = true := by
      by_contra hkept
      refine hgone (KeyedTable.mem_deleteWhere.mpr ⟨ht, ?_⟩)
      simpa using hkept
    exact RetentionRule.covers_iff.mp (hbatch.covers t ht hchosen)
  · rw [goneFrom_deleteTasks]

/-! ## Main result -/

/-- Undisturbed, a sweep ends, and it has then deleted the rows its rules name with their keys
and returns their number.  Whatever else happens, a purge of the sweep deletes only rows that a
rule names, and a sweep that returns has counted the rows its own purges deleted. -/
theorem sweep_exact (d : Dialect) (r : Retention) :
    (∀ (p : ProtocolState J) (nowMs : Int), p.clockMs ≤ nowMs →
      ∃ bound, ∀ ls s, (sweep d r).Steps (Alone nowMs) (.start r p false) ls s →
        ls.length ≤ bound ∧
        ((∀ l, Alone nowMs s l → sweep d r s l = none) →
          s.phase = .returned ∧
          (∀ t, t ∈ s.protocol.db.tasks.rows ↔ t ∈ p.db.tasks.rows ∧
            ¬ ∃ rule ∈ r.spec.toRules,
              Purgeable (nowMs - rule.olderThanMs) rule.queue rule.status rule.name t) ∧
          (∀ key, s.protocol.db.getKey key =
            (p.db.getKey key).filter fun id => (s.protocol.db.get id).isSome) ∧
          s.deleted + s.protocol.db.tasks.rows.length = p.db.tasks.rows.length)) ∧
    (∀ (p : ProtocolState J) (stopSet : Bool) (s : SweepState J),
      (sweep d r).Reachable anyStep (.start r p stopSet) s →
        (s.phase = .returned → s.deleted = s.removed.length) ∧
        ∀ nowMs held s', sweep d r s (.purge nowMs held) = some s' →
          (∀ t ∈ s.protocol.db.tasks.rows, t ∉ s'.protocol.db.tasks.rows →
            ∃ rule ∈ r.spec.toRules,
              Purgeable (nowMs - rule.olderThanMs) rule.queue rule.status rule.name t) ∧
          s'.removed = s.removed ++ goneFrom s.protocol.db s'.protocol.db) := by
  constructor
  · intro p nowMs hclock
    have hraised : (SweepState.start r p false).phase ≠ .raised := nextRule_ne_raised _
    refine ⟨sweepMeasure r.limit (SweepState.start r p false), fun ls s hsteps => ?_⟩
    rcases sweepTarget_of_steps rfl hclock hraised hsteps with ⟨htarget, hclock', hfine, hbound⟩
    refine ⟨by omega, fun hstuck => ?_⟩
    have hreturned : s.phase = .returned := by
      by_contra hgoing
      rcases exists_step_of_ne_returned (d := d) (r := r) hgoing hfine hclock' with
        ⟨l, halone, hsome⟩
      rw [hstuck l halone] at hsome
      cases hsome
    rw [sweepTarget_start, sweepTarget_returned hreturned, Prod.mk.injEq] at htarget
    rcases htarget with ⟨hdb, hdeleted⟩
    refine ⟨hreturned, fun t => ?_, fun key => ?_, ?_⟩
    · have hmem : t ∈ s.protocol.db.tasks.rows ↔
          t ∈ p.db.tasks.rows ∧ covered nowMs r.spec.toRules t = false := by
        rw [hdb]
        exact KeyedTable.mem_deleteWhere
      rw [hmem, ← covered_iff, Bool.not_eq_true]
    · rw [hdb]
      exact Database.getKey_deleteTasks p.db _ key
    · rw [hdeleted, hdb, List.countP_eq_length_filter]
      exact length_deleteTasks p.db _
  · intro p stopSet s hreach
    have haccount := hreach.invariant (fun _ _ _ h _ hstep => h.of_step hstep)
      (accounted_start r p stopSet)
    refine ⟨fun hreturned => ?_, fun nowMs held s' hstep => haccount.purge hstep⟩
    have hcounted := haccount.counted (by simp [hreturned])
    rw [hreturned] at hcounted
    exact hcounted.symm

/-- Everything old, and canceled tasks at once. -/
def tieredRetention : Retention where
  spec := .listed [⟨25, none, none, none⟩, ⟨0, none, some .canceled, none⟩]
  limit := 1
  named := by simp [RetentionSpec.toRules]
  valid := by decide

/-- Two tasks are canceled and one is waiting. -/
def canceledTasks : ProtocolState Nat :=
  (protocol .sqlite).drive (.fresh 0)
    [.alone 0 (.insertTask (.plain "a" "work" 2 7)),
      .alone 1 (.insertTask (.plain "b" "work" 2 7)),
      .alone 2 (.insertTask (.plain "c" "work" 2 7)),
      .alone 3 (.cancel "a"), .alone 20 (.cancel "b")]

/-- The steps of the sweep at time 30. -/
def drainedRun : List (SweepStep Nat) :=
  [.purge 30 unlocked, .resume, .purge 30 unlocked, .resume, .purge 30 unlocked, .resume,
    .purge 30 unlocked, .resume]

theorem sweep_exact_drainedRun :
    let s := (sweep .sqlite tieredRetention).drive (.start tieredRetention canceledTasks false)
      drainedRun
    s.phase = .returned ∧
      s.deleted + s.protocol.db.tasks.rows.length = canceledTasks.db.tasks.rows.length := by
  intro s
  have hreturned : s.phase = .returned := by decide +kernel
  rcases (sweep_exact .sqlite tieredRetention).1 canceledTasks 30 (by decide +kernel) with
    ⟨bound, hbound⟩
  have halone : ∀ l ∈ drainedRun, ∀ s, Alone 30 s l := by
    simp [drainedRun, Alone]
  rcases Machine.reachable_drive (sweep .sqlite tieredRetention)
    (.start tieredRetention canceledTasks false) drainedRun halone with ⟨ls, hls⟩
  have hend := (hbound ls s hls).2 fun l hl => by
    rcases hl with rfl | rfl <;> simp only [sweep, hreturned]
  exact ⟨hreturned, hend.2.2.2⟩

/-- Both canceled tasks are gone, each was counted once. -/
example :
    ((sweep .sqlite tieredRetention).drive (.start tieredRetention canceledTasks false)
      drainedRun).deleted = 2 := by
  decide +kernel

end CairnQ
