import CairnQ.Protocol.Dialects
import CairnQ.Protocol.Provenance
import CairnQ.Relational.Forest

/-!
# Families of tasks

A handler submits children through its context, which wires the parent, the root and the
correlation of the task it was handed.  A context is what a claim returned, and may outlive the
row: its handler may submit after the task was settled, retried elsewhere or purged.  The tasks
ever submitted are a forest all the same, and the root says which tree a task is in.

Main results:

- Theorem `familyInvariant_step`: every submission finds its place among the earlier ones.
- Theorem `families_listed`: a listing by root returns the stored tasks of one tree, and no task
  is its own ancestor.
-/

namespace CairnQ

open Relational Transition

variable {J : Type}

/-! ## Submissions -/

/-- What `submit` of a store is passed. -/
structure SubmitInput (J : Type) where
  name : String
  payload : J
  queue : String
  maxAttempts : Int
  priority : Int
  metadata : J
  delayMs : Int
  parentId : Option String
  rootId : Option String
  correlationId : Option String
deriving DecidableEq, Repr

/-- {lit}`root_id or task_id` and {lit}`input.rootId ?? id`. -/
def rootOr (sdk : Sdk) (rootId : Option String) (taskId : String) : String :=
  match sdk with
  | .python => (rootId.filter fun r => decide (r ≠ "")).getD taskId
  | .node => rootId.getD taskId

/-- The parameters `submit` of a store binds. -/
def SubmitInput.ins (sdk : Sdk) (taskId : String) (input : SubmitInput J) : NewTask J where
  id := taskId
  name := input.name
  queue := input.queue
  payload := input.payload
  metadata := input.metadata
  maxAttempts := input.maxAttempts
  priority := input.priority
  delayMs := input.delayMs
  parentId := input.parentId
  rootId := some (rootOr sdk input.rootId taskId)
  correlationId := input.correlationId

/-- `CairnQ.submit`. -/
def clientSubmit (input : SubmitInput J) : SubmitInput J :=
  { input with parentId := none, rootId := none, correlationId := none }

/-- `TaskContext.submit`. -/
def contextSubmit (task : Task J) (input : SubmitInput J) : SubmitInput J :=
  { input with parentId := some task.id, rootId := task.rootId, correlationId := task.correlationId }

/-! ## The system -/

/-- The database, the tasks that claims have handed out, and what was ever submitted, the latest
first. -/
structure FamilyState (J : Type) where
  world : ProtocolState J
  contexts : List (Task J)
  submitted : List (Submission J)

/-- A statement that inserts nothing, or a submission: a client's, or that of a context. -/
inductive FamilyEvent (J : Type)
  | execute (e : Execution J)
  | submit (sdk : Sdk) (context : Option Nat) (taskId : String) (input : SubmitInput J)
      (nowMs : Int)

/-- The rows that a claim hands out. -/
def Execution.handedOut (d : Dialect) (db : Database J) (e : Execution J) : List (Task J) :=
  match e.statement with
  | .claim _ _ _ _ => (e.reply d db).rows
  | _ => []

/-- What the submission is passed; none when there is no such context. -/
def FamilyState.input (s : FamilyState J) (context : Option Nat) (input : SubmitInput J) :
    Option (SubmitInput J) :=
  match context with
  | none => some (clientSubmit input)
  | some i => s.contexts[i]?.map fun task => contextSubmit task input

/-- Clients and handlers submit tasks while anybody executes any other statement. -/
def families (d : Dialect) : Machine (FamilyState J) (FamilyEvent J)
  | s, .execute e =>
      match e.statement with
      | .insertTask _ => none
      | _ => (protocol d s.world e).map fun world =>
          { s with world := world, contexts := s.contexts ++ e.handedOut d s.world.db }
  | s, .submit sdk context taskId input nowMs =>
      (s.input context input).bind fun passed =>
        let n := passed.ins sdk taskId
        let e := Execution.alone nowMs (.insertTask n)
        (protocol d s.world e).map fun world =>
          match (e.reply d s.world.db).rows with
          | [] => { s with world := world }
          | _ :: _ => { s with world := world, submitted := n.submission nowMs :: s.submitted }

/-- Ids are drawn afresh. -/
def FreshIds (s : FamilyState J) : FamilyEvent J → Prop
  | .execute _ => True
  | .submit _ _ taskId _ _ => taskId ≠ "" ∧ taskId ∉ s.submitted.map Submission.id

instance decidableFreshIds (s : FamilyState J) : ∀ e, Decidable (FreshIds s e)
  | .execute _ => isTrue trivial
  | .submit _ _ taskId _ _ =>
      inferInstanceAs (Decidable (taskId ≠ "" ∧ taskId ∉ s.submitted.map Submission.id))

def FamilyState.fresh (clockMs : Int) : FamilyState J where
  world := ProtocolState.fresh clockMs
  contexts := []
  submitted := []

/-! ## The forest -/

/-- The root of a submission, which every one has. -/
def Submission.root (x : Submission J) : String :=
  x.rootId.getD x.id

/-- The first submission descends from the second. -/
def DescendsFrom (submitted : List (Submission J)) (x y : Submission J) : Prop :=
  Descends Submission.id Submission.parentId submitted x y

/-- What every state keeps. -/
structure FamilyInvariant (s : FamilyState J) : Prop where
  grows : Grows Submission.id Submission.parentId Submission.root s.submitted
  rooted : ∀ x ∈ s.submitted, ∃ r, x.rootId = some r ∧ r ≠ ""
  stored : ∀ id t, s.world.db.get id = some t → t.submission ∈ s.submitted
  held : ∀ t ∈ s.contexts, t.submission ∈ s.submitted

theorem familyInvariant_fresh (clockMs : Int) :
    FamilyInvariant (FamilyState.fresh clockMs : FamilyState J) where
  grows := Grows.nil
  rooted x hx := by cases hx
  stored id t ht := by cases ht
  held t ht := by cases ht

/-- Either SDK keeps a root that is there. -/
theorem rootOr_some {sdk : Sdk} {r taskId : String} (h : r ≠ "") :
    rootOr sdk (some r) taskId = r := by
  cases sdk with
  | python => rw [rootOr, Option.filter_some_pos (by simpa using h), Option.getD_some]
  | node => rfl

theorem rootOr_none (sdk : Sdk) (taskId : String) : rootOr sdk none taskId = taskId := by
  cases sdk <;> rfl

/-- A statement that inserts nothing keeps what the rows were submitted with. -/
theorem FamilyInvariant.execute {d : Dialect} {s : FamilyState J} {e : Execution J}
    {world : ProtocolState J} (hinv : FamilyInvariant s)
    (hst : ∀ n, e.statement ≠ .insertTask n) (hstep : protocol d s.world e = some world) :
    FamilyInvariant
      { s with world := world, contexts := s.contexts ++ e.handedOut d s.world.db } := by
  have hstored : ∀ id t, world.db.get id = some t → t.submission ∈ s.submitted := by
    intro id t ht
    rcases get_of_step hstep ht with ⟨h, -⟩ | ⟨r, hr, heff, -⟩ | ⟨-, ⟨n, hins, -⟩, -⟩
    · exact hinv.stored id t h
    · rw [heff.submission_eq]
      exact hinv.stored id r hr
    · exact absurd hins (hst n)
  refine ⟨hinv.grows, hinv.rooted, hstored, fun t ht => ?_⟩
  rcases List.mem_append.mp ht with h | h
  · exact hinv.held t h
  · rw [Execution.handedOut] at h
    split at h
    · exact hstored t.id t (get_of_mem_rows hstep h).1
    · cases h

/-- What a submission is passed places it among the earlier ones. -/
theorem FamilyInvariant.places {s : FamilyState J} (hinv : FamilyInvariant s) (sdk : Sdk)
    {context : Option Nat} {taskId : String} {input passed : SubmitInput J} (nowMs : Int)
    (hid : taskId ≠ "") (hpassed : s.input context input = some passed) :
    let x := (passed.ins sdk taskId).submission nowMs
    Places Submission.id Submission.parentId Submission.root s.submitted x ∧
      ∃ r, x.rootId = some r ∧ r ≠ "" := by
  cases context with
  | none =>
      cases hpassed
      have hroot : rootOr sdk (clientSubmit input).rootId taskId = taskId := rootOr_none sdk taskId
      exact ⟨Or.inl ⟨rfl, hroot⟩, _, rfl, by rw [hroot]; exact hid⟩
  | some i =>
      rcases Option.map_eq_some_iff.mp hpassed with ⟨task, htask, rfl⟩
      have hmem := hinv.held task (List.mem_of_getElem? htask)
      rcases hinv.rooted _ hmem with ⟨r, hr, hnonempty⟩
      have hparent : task.rootId = some r := hr
      have hroot : rootOr sdk (contextSubmit task input).rootId taskId = r := by
        rw [contextSubmit, hparent, rootOr_some hnonempty]
      refine ⟨Or.inr ⟨task.submission, hmem, rfl, ?_⟩, r, congrArg some hroot, hnonempty⟩
      rw [Submission.root, Submission.root, hr]
      exact hroot

/-- An insertion returns the new row, or finds its id taken and changes nothing. -/
theorem insertTask_cases {d : Dialect} {s s' : ProtocolState J} {nowMs : Int} {n : NewTask J}
    (hstep : protocol d s (.alone nowMs (.insertTask n)) = some s') :
    (((Execution.alone nowMs (.insertTask n)).reply d s.db).rows =
          [n.row (nowMs + n.delayMs) nowMs] ∧
        ∀ id, s'.db.get id =
          if n.id = id then some (n.row (nowMs + n.delayMs) nowMs) else s.db.get id) ∨
      (((Execution.alone nowMs (.insertTask n)).reply d s.db).rows = [] ∧ s'.db = s.db) := by
  rcases protocol_eq_some_iff.mp hstep with ⟨-, rfl⟩
  simp only [Execution.reply, exec_eq, Execution.alone]
  rcases Postgres.exec_insertTask (d.locked unlocked) nowMs n s.db with
    ⟨-, db', hinsert, hexec⟩ | ⟨-, hexec⟩
  · rw [hexec]
    exact Or.inl ⟨rfl, fun id => Database.get_insertTask? hinsert id⟩
  · rw [hexec]
    exact Or.inr ⟨rfl, rfl⟩

/-- Every submission finds its place among the earlier ones, whoever makes it. -/
theorem familyInvariant_step {d : Dialect} {s s' : FamilyState J} {e : FamilyEvent J}
    (hinv : FamilyInvariant s) (hfresh : FreshIds s e) (hstep : families d s e = some s') :
    FamilyInvariant s' := by
  cases e with
  | execute e =>
      simp only [families] at hstep
      split at hstep
      · cases hstep
      · next hst =>
        rcases Option.map_eq_some_iff.mp hstep with ⟨world, hworld, rfl⟩
        exact hinv.execute (fun n h => hst n h) hworld
  | submit sdk context taskId input nowMs =>
      rcases Option.bind_eq_some_iff.mp hstep with ⟨passed, hpassed, hins⟩
      rcases Option.map_eq_some_iff.mp hins with ⟨world, hworld, hs'⟩
      rcases hinv.places sdk nowMs hfresh.1 hpassed with ⟨hplaces, hroot⟩
      rcases insertTask_cases hworld with ⟨hrows, hget⟩ | ⟨hrows, hdb⟩
      · rw [hrows] at hs'
        rw [← hs']
        refine ⟨hinv.grows.cons hfresh.2 hplaces, fun x hx => ?_, fun id t ht => ?_, fun t ht =>
          List.mem_cons_of_mem _ (hinv.held t ht)⟩
        · rcases List.mem_cons.mp hx with rfl | hx
          · exact hroot
          · exact hinv.rooted x hx
        · rw [hget id] at ht
          split at ht
          · cases ht
            exact List.mem_cons_self
          · exact List.mem_cons_of_mem _ (hinv.stored id t ht)
      · rw [hrows] at hs'
        rw [← hs']
        exact ⟨hinv.grows, hinv.rooted, fun id t ht => hinv.stored id t (hdb ▸ ht), hinv.held⟩

/-! ## Listings -/

/-- The filter of {lit}`list(root_id=…)`. -/
def byRoot (rootId : String) : ListFilter where
  status := none
  queue := none
  name := none
  rootId := some rootId
  correlationId := none

/-- A listing as long as the table returns every row that its filter accepts. -/
theorem mem_listTasks_iff {filter : ListFilter} {limit : Nat} {db : Database J} {t : Task J}
    (hlimit : db.tasks.rows.length ≤ limit) :
    t ∈ listTasks filter limit 0 db ↔ t ∈ db.tasks.rows ∧ filter.accepts t = true := by
  have hlength : ((db.tasks.rows.filter filter.accepts).insertionSort listOrder).length ≤ limit := by
    rw [List.length_insertionSort]
    exact le_trans (List.length_filter_le ..) hlimit
  rw [listTasks, List.drop_zero, List.take_of_length_le hlength, List.mem_insertionSort,
    List.mem_filter]

/-- Every stored task belongs to the tree of one top submission, a listing by that root returns
the stored tasks of that tree and no others, and no task is its own ancestor; whatever was
settled, retried or purged since, and whichever contexts submitted late. -/
theorem families_listed {d : Dialect} {clockMs : Int} {s : FamilyState J}
    (hreach : (families d).Reachable FreshIds (FamilyState.fresh clockMs) s) :
    (∀ id t, s.world.db.get id = some t → ∃ top ∈ s.submitted, top.parentId = none ∧
      DescendsFrom s.submitted t.submission top ∧
        ∀ limit t', s.world.db.tasks.rows.length ≤ limit →
          (t' ∈ listTasks (byRoot top.id) limit 0 s.world.db ↔
            t' ∈ s.world.db.tasks.rows ∧ DescendsFrom s.submitted t'.submission top)) ∧
      ∀ x ∈ s.submitted,
        ¬Relation.TransGen (ParentIn Submission.id Submission.parentId s.submitted) x x := by
  have hinv : FamilyInvariant s :=
    hreach.invariant (fun _ _ _ hinv hfresh hstep => familyInvariant_step hinv hfresh hstep)
      (familyInvariant_fresh clockMs)
  refine ⟨fun id t ht => ?_, fun x hx => hinv.grows.acyclic hx⟩
  rcases hinv.grows.exists_top (hinv.stored id t ht) with ⟨top, htop, hnone, -, hdescends⟩
  refine ⟨top, htop, hnone, hdescends, fun limit t' hlimit => ?_⟩
  rw [mem_listTasks_iff hlimit]
  refine and_congr_right fun hmem => ?_
  have hin := hinv.stored t'.id t' (KeyedTable.find?_of_mem hmem)
  rcases hinv.rooted _ hin with ⟨r, hr, -⟩
  have hroot : t'.rootId = some r := hr
  rw [DescendsFrom, hinv.grows.descends_iff_label hin htop hnone, Submission.root, hr]
  simp [ListFilter.accepts, byRoot, hroot]

/-- A handler submits a child and a grandchild is submitted after the child was purged. -/
def familyRun : List (FamilyEvent Nat) :=
  let input : SubmitInput Nat := ⟨"work", 0, "default", 3, 0, 0, 0, none, none, none⟩
  [.submit .python none "a" input 0,
    .execute (.alone 1 (.claim (.claimOneQueue "default" none) "w" 10 1)),
    .submit .node (some 0) "b" input 2,
    .execute (.alone 3 (.claim (.claimOneQueue "default" none) "w" 10 1)),
    .execute (.alone 4 (.owned "b" "w" (.complete none))),
    .execute (.alone 6 (.purge 1 none none none 5)),
    .submit .python (some 1) "c" input 7]

/-- The state at its end. -/
def familyRunState : FamilyState Nat :=
  (families .sqlite).drive (FamilyState.fresh 0) familyRun

/-- The grandchild still belongs to a tree, which its root lists. -/
theorem families_listed_familyRun :
    ∃ top ∈ familyRunState.submitted, top.parentId = none ∧
      ∀ t', t' ∈ listTasks (byRoot top.id) 2 0 familyRunState.world.db ↔
        t' ∈ familyRunState.world.db.tasks.rows ∧
          DescendsFrom familyRunState.submitted t'.submission top := by
  have hreach : (families .sqlite).Reachable FreshIds (FamilyState.fresh 0) familyRunState :=
    Machine.reachable_of_admits (by decide)
  rcases (families_listed hreach).1 "c" _ rfl with ⟨top, htop, hnone, -, hlists⟩
  exact ⟨top, htop, hnone, fun t' => hlists 2 t' (by decide)⟩

end CairnQ
