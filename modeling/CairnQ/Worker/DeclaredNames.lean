import CairnQ.Backpressure.QueueDepthGate
import CairnQ.Protocol.StatsRecord
import CairnQ.Protocol.TwinEncoders
import CairnQ.Worker.ClaimPlanner

/-!
# Declared names

The records of numbers that the TypeScript SDK takes as options: `maxQueueDepth`, which says
what queues are gated, and `resources`, which says what calls may run at once.  Both are read
by name, and both are ordinary objects, so a name that is not declared falls through to what
the record inherits from.

Main results:

- Theorem `gateExact_iff`: a gate goes by the record exactly for the names that are declared
  and those under which nothing is inherited.
- Theorem `registersExactly_iff`: `task` goes by the record exactly while every resource that
  is named is such a name.
- Theorem `names_safe_iff`: the conditions of the record of stats, the gate, and `task`.
-/

namespace CairnQ

open Relational JsHeap JsonText

variable {J : Type}

/-! ## Records of numbers -/

/-- An object that maps names to positive numbers, as the constructors check. -/
structure Declared (h : Heap) where
  address : Address
  object : JsObject
  mem : h[address]? = some object
  positive : ∀ s ∈ object.slots, ∃ n : Nat, 0 < n ∧ s.2 = .data (.number n)

namespace Declared

variable {h : Heap}

/-- `Object.entries`. -/
def entries (d : Declared h) : List (String × Nat) :=
  d.object.slots.filterMap fun s => match s.2 with
    | .data (.number n) => some (s.1, n.toNat)
    | _ => none

/-- The number declared under a name. -/
def number (d : Declared h) (name : String) : Option Nat :=
  d.entries.lookup name

/-- The name is declared, or nothing is inherited under it. -/
def Settled (d : Declared h) (name : String) : Prop :=
  (∃ n, d.number name = some n) ∨ Vacant (inherited h d.address name)

/-- The own properties are the numbers declared. -/
theorem own_eq (d : Declared h) (name : String) :
    own h d.address name = (d.number name).map fun n => .data (.number n) := by
  rw [own, d.mem, Option.bind_some, number, entries]
  have hpositive := d.positive
  generalize d.object.slots = slots at hpositive ⊢
  induction slots with
  | nil => rfl
  | cons s rest ih =>
      rw [List.forall_mem_cons] at hpositive
      rcases hpositive.1 with ⟨n, -, hn⟩
      have hentry : (match s.2 with
          | .data (.number n) => some (s.1, n.toNat)
          | _ => none) = some (s.1, n) := by
        rw [hn]
        rfl
      rw [List.filterMap_cons, hentry, lookup_cons_ite, lookup_cons_ite, ih hpositive.2, hn]
      split <;> rfl

theorem get_of_number {d : Declared h} {name : String} {n : Nat} (hn : d.number name = some n) :
    get h d.address name = .number n := by
  refine get_of_own d.mem ?_
  rw [d.own_eq, hn, Option.map_some]

theorem nullish_get_iff {d : Declared h} {name : String} (hn : d.number name = none) :
    (get h d.address name).nullish = true ↔ Vacant (inherited h d.address name) := by
  refine JsHeap.nullish_get_iff d.mem ?_
  rw [d.own_eq, hn, Option.map_none]

/-- What is read under a name counts as nothing if and only if the name is not declared, provided
it is settled. -/
theorem settled_iff (d : Declared h) (name : String) :
    d.Settled name ↔ ((get h d.address name).nullish = true ↔ d.number name = none) := by
  cases hn : d.number name with
  | none => simp [Settled, hn, nullish_get_iff hn]
  | some n => simp [Settled, hn, get_of_number hn, JsDatum.nullish]

end Declared

/-! ## The gate -/

/-- `maxQueueDepth`. -/
inductive MaxQueueDepth (h : Heap)
  | every (limit : Nat)
  | named (limits : Declared h)

/-- `limitFor`. -/
def MaxQueueDepth.limitFor {h : Heap} : MaxQueueDepth h → String → JsDatum
  | .every limit, _ => .number limit
  | .named limits, queue =>
      if (get h limits.address queue).nullish then .null else get h limits.address queue

/-- What is declared. -/
def MaxQueueDepth.toLimit {h : Heap} : MaxQueueDepth h → QueueDepthLimit
  | .every limit => .every limit
  | .named limits => .named limits.entries

/-- A queue is gated, with the limit of the record, if and only if its name is declared; `acquire`
returns at once if its limit is null. -/
def GateExact {h : Heap} (limits : Declared h) (queue : String) : Prop :=
  ((MaxQueueDepth.named limits).limitFor queue ≠ .null ↔ ∃ n, limits.number queue = some n) ∧
    ∀ n, limits.number queue = some n → (MaxQueueDepth.named limits).limitFor queue = .number n

theorem gateExact_iff {h : Heap} (limits : Declared h) (queue : String) :
    GateExact limits queue ↔ limits.Settled queue := by
  rw [GateExact, MaxQueueDepth.limitFor]
  cases hn : limits.number queue with
  | none =>
      rw [limits.settled_iff, hn]
      cases hget : (get h limits.address queue).nullish with
      | true => simp
      | false =>
          have hne : get h limits.address queue ≠ .null := by
            intro heq
            rw [heq] at hget
            cases hget
          simp [hne]
  | some n => simp [Declared.Settled, hn, Declared.get_of_number hn, JsDatum.nullish]

/-- Where the gate goes by the record, its limit is that of the queue. -/
theorem limitFor_eq {h : Heap} {limits : MaxQueueDepth h} {queue : String}
    (hsettled : ∀ d, limits = .named d → d.Settled queue) :
    limits.limitFor queue =
      (limits.toLimit.limitFor queue).elim .null fun n => .number n := by
  cases limits with
  | every limit => rfl
  | named d =>
      have hexact := (gateExact_iff d queue).mpr (hsettled d rfl)
      show (MaxQueueDepth.named d).limitFor queue = (d.number queue).elim .null _
      cases hn : d.number queue with
      | none =>
          by_contra hne
          rcases hexact.1.mp hne with ⟨n, hsome⟩
          rw [hn] at hsome
          cases hsome
      | some n => exact hexact.2 n hn

/-! ## Registrations -/

/-- A string of the program in UTF-16. -/
def unitsOf (s : String) : Text :=
  utf16 (s.toList.map fun c => Fin.ofNat 0x110000 c.toNat)

/-- The error of `task` about a resource that is not declared. -/
structure UndeclaredResource where
  task : String
  resource : String
  declared : List String
deriving DecidableEq, Repr

/-- `known`: the names declared in the order of their units. -/
def UndeclaredResource.known (e : UndeclaredResource) : Text :=
  let names := (e.declared.map unitsOf).mergeSort fun a b =>
    !List.lex b a fun u v => decide (u.val < v.val)
  let joined := (latin ", ").intercalate names
  if joined.isEmpty then latin "none" else joined

/-- What the error says. -/
def UndeclaredResource.message (e : UndeclaredResource) : Text :=
  latin "task " ++ quoted .minimal (unitsOf e.task) ++ latin " declares resource " ++
    quoted .minimal (unitsOf e.resource) ++
      latin ", which is not in WorkerOptions.resources; declared: " ++ e.known

/-- `handlers.set(name, reg)`. -/
def setEntry (entries : List (String × Registration)) (name : String) (reg : Registration) :
    List (String × Registration) :=
  match entries with
  | [] => [(name, reg)]
  | e :: rest => if e.1 = name then (name, reg) :: rest else e :: setEntry rest name reg

theorem keys_setEntry (entries : List (String × Registration)) (name : String)
    (reg : Registration) :
    (setEntry entries name reg).map Prod.fst =
      if name ∈ entries.map Prod.fst then entries.map Prod.fst
      else entries.map Prod.fst ++ [name] := by
  induction entries with
  | nil => rfl
  | cons e rest ih =>
      rw [setEntry]
      by_cases he : e.1 = name
      · simp [he]
      · rw [if_neg he, List.map_cons, ih]
        by_cases hrest : name ∈ rest.map Prod.fst
        · simp [hrest]
        · rw [if_neg hrest, List.map_cons, if_neg (by simp [hrest, Ne.symm he]),
            List.cons_append]

/-- What is registered afterwards was registered before, or is new. -/
theorem mem_setEntry {entries : List (String × Registration)} {name : String}
    {reg : Registration} {e : String × Registration} (h : e ∈ setEntry entries name reg) :
    e = (name, reg) ∨ e ∈ entries := by
  induction entries with
  | nil => exact Or.inl (List.mem_singleton.mp h)
  | cons e' rest ih =>
      rw [setEntry] at h
      split at h
      · exact (List.mem_cons.mp h).imp_right (List.mem_cons_of_mem e')
      · rcases List.mem_cons.mp h with rfl | hrest
        · exact Or.inr List.mem_cons_self
        · exact (ih hrest).imp_right (List.mem_cons_of_mem e')

/-- The handlers with one set. -/
def Handlers.set (handlers : Handlers) (name : String) (reg : Registration) : Handlers where
  entries := setEntry handlers.entries name reg
  nodup := by
    rw [keys_setEntry]
    split
    · exact handlers.nodup
    · next hnew =>
      refine List.nodup_append.mpr ⟨handlers.nodup, List.nodup_singleton name, ?_⟩
      intro a ha b hb hab
      rw [hab, List.mem_singleton.mp hb] at ha
      exact hnew ha

/-- No handlers. -/
def Handlers.none : Handlers where
  entries := []
  nodup := List.nodup_nil

section Task

variable {h : Heap}

/-- `this.opts.resources?.[resource]`. -/
def resourceOf (resources : Option (Declared h)) (resource : String) : JsDatum :=
  resources.elim .undefined fun d => get h d.address resource

/-- The number declared for a resource. -/
def declaredUnits (resources : Option (Declared h)) (resource : String) : Option Nat :=
  resources.bind fun d => d.number resource

/-- `task`: the handlers afterwards, or an error. -/
def task (resources : Option (Declared h)) (handlers : Handlers) (name : String)
    (reg : Registration) : Except UndeclaredResource Handlers :=
  match reg.resource with
  | some resource =>
      if (resourceOf resources resource).nullish then
        .error
          { task := name
            resource := resource
            declared := resources.elim [] fun d => d.entries.map Prod.fst }
      else .ok (handlers.set name reg)
  | none => .ok (handlers.set name reg)

/-- A run of calls of `task`; one that raises leaves the handlers as they were. -/
def tasks (resources : Option (Declared h)) (handlers : Handlers)
    (calls : List (String × Registration)) : Handlers :=
  calls.foldl (fun handlers call =>
    match task resources handlers call.1 call.2 with
    | .ok handlers' => handlers'
    | .error _ => handlers) handlers

/-- What `headroom` returns. -/
inductive Headroom
  | undefined
  | nan
  | units (n : Nat)
deriving DecidableEq, Repr

/-- `Number(v)`; none is not a number, as functions and plain objects are not. -/
def toNumber : JsDatum → Option Int
  | .number n => some n
  | .null => some 0
  | .undefined | .ref _ => none

/-- `this.capacities[resource]`; without resources the capacities are an object literal. -/
def capacityOf (resources : Option (Declared h)) (resource : String) : JsDatum :=
  match resources with
  | some d => get h d.address resource
  | none => get (h ++ [literal []]) h.length resource

/-- `ClaimPlanner.headroom`. -/
def sourceHeadroom (resources : Option (Declared h)) (inFlight taken : String → Nat)
    (src : ClaimSource) : Headroom :=
  match src.resource with
  | none => .undefined
  | some resource =>
      match toNumber (capacityOf resources resource) with
      | some n => .units (n - inFlight resource - taken resource).toNat
      | none => .nan

/-- In a run from no handlers, each call is accepted if and only if the resource it names is
declared, and the headroom of every source is that of the number declared. -/
def RegistersExactly (resources : Option (Declared h)) (calls : List (String × Registration)) :
    Prop :=
  (∀ before call after, calls = before ++ call :: after →
    ((∃ handlers, task resources (tasks resources .none before) call.1 call.2 = .ok handlers) ↔
      ∀ r ∈ call.2.resource, ∃ n, declaredUnits resources r = some n)) ∧
    ∀ src ∈ (tasks resources .none calls).sources, ∀ r ∈ src.resource,
      ∃ n, declaredUnits resources r = some n ∧ ∀ inFlight taken,
        sourceHeadroom resources inFlight taken src = .units (n - inFlight r - taken r)

end Task

/-! ## What a run registers -/

section Runs

variable {h : Heap} {resources : Option (Declared h)} {handlers handlers' : Handlers}
variable {name : String} {reg : Registration}

/-- A call that is accepted registers its handler. -/
theorem eq_set_of_task (htask : task resources handlers name reg = .ok handlers') :
    handlers' = handlers.set name reg := by
  unfold task at htask
  cases hresource : reg.resource with
  | none =>
      rw [hresource] at htask
      exact (Except.ok.inj htask).symm
  | some r =>
      simp only [hresource] at htask
      split_ifs at htask
      exact (Except.ok.inj htask).symm

/-- A call is accepted unless it names a resource that reads as nothing. -/
theorem task_ok_iff : (∃ handlers', task resources handlers name reg = .ok handlers') ↔
    ∀ r ∈ reg.resource, (resourceOf resources r).nullish = false := by
  unfold task
  cases hresource : reg.resource with
  | none => simp
  | some r => cases hnull : (resourceOf resources r).nullish <;> simp [hnull]

/-- The error names the call, its resource, and what is declared. -/
theorem error_of_task {e : UndeclaredResource}
    (htask : task resources handlers name reg = .error e) :
    e.task = name ∧ reg.resource = some e.resource ∧
      ∀ r, r ∈ e.declared ↔ ∃ d ∈ resources, r ∈ d.entries.map Prod.fst := by
  unfold task at htask
  cases hresource : reg.resource with
  | none =>
      rw [hresource] at htask
      cases htask
  | some r =>
      simp only [hresource] at htask
      split_ifs at htask
      cases htask
      cases resources <;> simp

/-- A resource that is settled reads as something if and only if it is declared. -/
theorem resourceOf_iff {r : String} : (∀ d ∈ resources, d.Settled r) ↔
    ((resourceOf resources r).nullish = false ↔ ∃ n, declaredUnits resources r = some n) := by
  cases resources with
  | none => simp [resourceOf, declaredUnits, JsDatum.nullish]
  | some d =>
      have hsettled : (∀ d' ∈ some d, d'.Settled r) ↔ d.Settled r := by simp
      rw [hsettled, d.settled_iff]
      show _ ↔ ((get h d.address r).nullish = false ↔ ∃ n, d.number r = some n)
      rw [← Option.isSome_iff_exists, Option.isSome_iff_ne_none, ← Bool.not_eq_true]
      exact not_iff_not.symm

/-- Every resource that a handler names is declared. -/
def DeclaredOnly (resources : Option (Declared h)) (handlers : Handlers) : Prop :=
  ∀ e ∈ handlers.entries, ∀ r ∈ e.2.resource, ∃ n, declaredUnits resources r = some n

/-- A call whose resource is settled keeps the handlers to declared resources. -/
theorem DeclaredOnly.task (hdeclared : DeclaredOnly resources handlers)
    (hsettled : ∀ r ∈ reg.resource, ∀ d ∈ resources, d.Settled r)
    (htask : CairnQ.task resources handlers name reg = .ok handlers') :
    DeclaredOnly resources handlers' := by
  have haccepted := task_ok_iff.mp ⟨handlers', htask⟩
  intro e he r hr
  rw [eq_set_of_task htask] at he
  rcases mem_setEntry he with rfl | hbefore
  · exact (resourceOf_iff.mp (hsettled r hr)).mp (haccepted r hr)
  · exact hdeclared e hbefore r hr

/-- So does a run of such calls. -/
theorem DeclaredOnly.tasks {calls : List (String × Registration)}
    (hdeclared : DeclaredOnly resources handlers)
    (hsettled : ∀ call ∈ calls, ∀ r ∈ call.2.resource, ∀ d ∈ resources, d.Settled r) :
    DeclaredOnly resources (CairnQ.tasks resources handlers calls) := by
  induction calls generalizing handlers with
  | nil => exact hdeclared
  | cons call rest ih =>
      rw [List.forall_mem_cons] at hsettled
      rw [CairnQ.tasks, List.foldl_cons]
      cases htask : CairnQ.task resources handlers call.1 call.2 with
      | ok handlers' => exact ih (hdeclared.task hsettled.1 htask) hsettled.2
      | error => exact ih hdeclared hsettled.2

/-- The resource of a source is that of a handler. -/
theorem Handlers.exists_entry {src : ClaimSource} (hsrc : src ∈ handlers.sources) {r : String}
    (hr : r ∈ src.resource) : ∃ e ∈ handlers.entries, r ∈ e.2.resource := by
  rcases List.mem_append.mp hsrc with hown | hshared
  · rcases List.mem_map.mp hown with ⟨e, he, rfl⟩
    exact ⟨e, List.mem_of_mem_filter he, hr⟩
  · split at hshared
    · cases hshared
    · rw [List.mem_singleton.mp hshared] at hr
      cases hr

/-- The headroom of a source is that of a planner whose capacities are the numbers declared, while
handlers name declared resources only. -/
theorem sourceHeadroom_eq (hdeclared : DeclaredOnly resources handlers) {src : ClaimSource}
    (hsrc : src ∈ handlers.sources) (inFlight taken : String → Nat) :
    sourceHeadroom resources inFlight taken src =
      (headroom (fun r => (declaredUnits resources r).getD 0) inFlight taken src).elim
        .undefined .units := by
  unfold sourceHeadroom headroom
  cases hr : src.resource with
  | none => rfl
  | some r =>
      rcases Handlers.exists_entry hsrc hr with ⟨e, he, hentry⟩
      rcases hdeclared e he r hentry with ⟨n, hn⟩
      rcases Option.bind_eq_some_iff.mp hn with ⟨d, rfl, hnumber⟩
      have hcapacity : toNumber (capacityOf (some d) r) = some (n : Int) :=
        congrArg toNumber (Declared.get_of_number hnumber)
      have hunits : ((n : Int) - inFlight r - taken r).toNat = n - inFlight r - taken r := by
        omega
      simp only [hcapacity, hunits, Option.map_some, hn, Option.getD_some, Option.elim_some]

end Runs

/-- `task` goes by the resources declared exactly while every resource named is settled. -/
theorem registersExactly_iff {h : Heap} (resources : Option (Declared h))
    (calls : List (String × Registration)) :
    RegistersExactly resources calls ↔
      ∀ call ∈ calls, ∀ r ∈ call.2.resource, ∀ d ∈ resources, d.Settled r := by
  constructor
  · rintro ⟨haccept, -⟩ call hcall r hr
    rcases List.append_of_mem hcall with ⟨before, after, hcalls⟩
    have hiff := haccept before call after hcalls
    rw [task_ok_iff, Option.mem_def.mp hr] at hiff
    exact resourceOf_iff.mpr (by simpa using hiff)
  · intro hsettled
    have hdeclared : DeclaredOnly resources (tasks resources .none calls) :=
      DeclaredOnly.tasks (fun e he => absurd he List.not_mem_nil) hsettled
    refine ⟨fun before call after hcalls => ?_, fun src hsrc r hr => ?_⟩
    · rw [task_ok_iff]
      have hcall : call ∈ calls := hcalls ▸ List.mem_append_right before List.mem_cons_self
      exact forall₂_congr fun r hr => resourceOf_iff.mp (hsettled call hcall r hr)
    · rcases Handlers.exists_entry hsrc hr with ⟨e, he, hentry⟩
      rcases hdeclared e he r hentry with ⟨n, hn⟩
      refine ⟨n, hn, fun inFlight taken => ?_⟩
      rw [sourceHeadroom_eq hdeclared hsrc, headroom, Option.mem_def.mp hr, Option.map_some, hn]
      rfl

/-! ## All three -/

/-- The record of stats is exact, a queue is gated by the record of limits exactly if it is
declared there, and `task` registers by the resources that are declared, each if and only if no
name it is given meets anything that is not its own. -/
theorem names_safe_iff (realm : Realm) (asked : Option String) (db : Database J)
    (limits : Declared realm.heap) (queue : String) (resources : Option (Declared realm.heap))
    (calls : List (String × Registration)) :
    (StatsExact realm asked db ↔
        match asked with
        | some q => q ≠ "__proto__"
        | none => ∀ t ∈ db.tasks.rows, realm.Free t.queue) ∧
      (GateExact limits queue ↔ limits.Settled queue) ∧
      (RegistersExactly resources calls ↔
        ∀ call ∈ calls, ∀ r ∈ call.2.resource, ∀ d ∈ resources, d.Settled r) :=
  ⟨statsExact_iff realm asked db, gateExact_iff limits queue,
    registersExactly_iff resources calls⟩

/-! ## A name that is not declared -/

/-- `Object.prototype` with two functions, what functions inherit from, the functions, and a record
that declares {lit}`gpu`. -/
def smallHeap : Heap :=
  [{ proto := none
     slots :=
       [("constructor", .data (.ref 2)), ("toString", .data (.ref 3)),
         ("__proto__", .protoAccessor)] },
    literal [],
    { proto := some 1
      slots := [("length", .data (.number 1)), ("prototype", .data (.ref objectPrototype))] },
    { proto := some 1, slots := [("length", .data (.number 0))] },
    literal [("gpu", .data (.number 2))]]

/-- The realm of {name}`smallHeap`. -/
def smallRealm : Realm where
  heap := smallHeap
  root := _
  root_mem := rfl
  root_proto := rfl
  accessor name := by
    simp only [lookup_cons_ite, List.lookup_nil]
    split_ifs <;> simp_all
  closed name a := by
    simp only [lookup_cons_ite, List.lookup_nil]
    split_ifs <;> intro href <;> cases href <;> decide

/-- The record that declares {lit}`gpu`. -/
def gpuOnly : Declared smallRealm.heap where
  address := 4
  object := _
  mem := rfl
  positive s hs := by
    rw [List.mem_singleton.mp hs]
    exact ⟨2, Nat.two_pos, rfl⟩

/-- A database with one task, in the queue {lit}`constructor`. -/
def constructorDatabase : Database Nat :=
  (Postgres.exec unlocked 1
    (.insertTask { NewTask.plain "t" "work" 3 0 with queue := "constructor" }) Database.empty).1

/-- No gate names the queue {lit}`constructor`, and no resource is named so. -/
theorem not_settled_constructor : ¬gpuOnly.Settled "constructor" := by
  rw [Declared.settled_iff]
  decide

/-- Names of `Object.prototype` are not safe. -/
theorem names_safe_fails_constructor :
    ¬StatsExact smallRealm none constructorDatabase ∧
      ¬StatsExact smallRealm (some "__proto__") constructorDatabase ∧
      ¬GateExact gpuOnly "constructor" ∧
      ¬RegistersExactly (some gpuOnly)
        [("train", { batch := none, resource := some "constructor",
                     batch_pos := Registration.batch_pos_none })] := by
  refine ⟨?_, smallRealm.not_statsExact_proto constructorDatabase, ?_, ?_⟩
  · rw [statsExact_iff]
    intro hfree
    have hrow : ∃ t ∈ constructorDatabase.tasks.rows, t.queue = "constructor" := by decide
    rcases hrow with ⟨t, ht, hqueue⟩
    have hvacant := hfree t ht
    rw [hqueue] at hvacant
    rcases hvacant (.data (.ref 2)) rfl with ⟨v, hv, hnull⟩
    cases hv
    cases hnull
  · rw [gateExact_iff]
    exact not_settled_constructor
  · rw [registersExactly_iff]
    intro hsettled
    exact not_settled_constructor (hsettled _ List.mem_cons_self _ rfl _ rfl)

end CairnQ
