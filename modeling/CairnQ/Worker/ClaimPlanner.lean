import CairnQ.Protocol.Task
import Mathlib.Data.List.Induction
import Mathlib.Data.List.Perm.Basic
import Mathlib.Data.List.Count
import Mathlib.Logic.Function.Basic
import Mathlib.Algebra.GroupWithZero.Nat

/-!
# The claim planner

How a worker sizes and groups what one claim session draws: `_ClaimPlanner` and
`Worker._deliveries`.  A name that limits itself, by a batch size or a resource, draws
alone; the other names share a draw.  A plan offers the free calls to the sources in
rotating order, each limited by what the ones before it took and by what is left of its
resource, and counts what it took in calls, not in rows.

Main results:

- Theorem `perm_deliveries`: every claimed task is placed in exactly one call.
- Theorem `length_deliveries_le`: the rows of one draw make no more calls than its quota.
- Theorem `length_calls_plan_le`: a plan draws no more calls than it was given.
- Theorem `unitsDrawn_plan_le`: nor more calls on a resource than it has units left.
-/

namespace CairnQ

variable {J : Type}

/-! ## Registrations and sources -/

/-- A `_Registration`, as far as claiming goes; `register` refuses a batch below one. -/
structure Registration where
  batch : Option Nat
  resource : Option String
  batch_pos : ∀ b ∈ batch, 0 < b

/-- A registration without a batch has none to check. -/
theorem Registration.batch_pos_none : ∀ b ∈ (none : Option Nat), 0 < b := by
  intro b hb
  cases hb

/-- `reg.batch or 1`. -/
def Registration.size (reg : Registration) : Nat :=
  reg.batch.getD 1

theorem Registration.size_pos (reg : Registration) : 0 < reg.size := by
  unfold size
  cases hbatch : reg.batch with
  | none => exact Nat.one_pos
  | some b => exact reg.batch_pos b hbatch

/-- The name limits itself. -/
def Registration.limited (reg : Registration) : Bool :=
  reg.batch.isSome || reg.resource.isSome

/-- The `_handlers` of a worker in registration order: one registration for a name. -/
structure Handlers where
  entries : List (String × Registration)
  nodup : (entries.map Prod.fst).Nodup

/-- `self._handlers.get(name)`. -/
def Handlers.get (handlers : Handlers) (name : String) : Option Registration :=
  handlers.entries.lookup name

/-- The batch size of a name: `(reg.batch if reg else None) or 1`. -/
def Handlers.size (handlers : Handlers) (name : String) : Nat :=
  ((handlers.get name).map Registration.size).getD 1

/-- A `_ClaimSource`. -/
structure ClaimSource where
  names : List String
  batch : Nat
  resource : Option String
deriving DecidableEq, Repr

/-- The source of a name that limits itself. -/
def ownSource (name : String) (reg : Registration) : ClaimSource where
  names := [name]
  batch := reg.size
  resource := reg.resource

/-- The names that share a draw. -/
def Handlers.shared (handlers : Handlers) : List String :=
  (handlers.entries.filter fun e => !e.2.limited).map Prod.fst

/-- `_ClaimPlanner.rebuild`. -/
def Handlers.sources (handlers : Handlers) : List ClaimSource :=
  (handlers.entries.filter fun e => e.2.limited).map (fun e => ownSource e.1 e.2) ++
    if handlers.shared = [] then []
    else [{ names := handlers.shared, batch := 1, resource := none }]

theorem Handlers.get_of_mem {handlers : Handlers} {name : String} {reg : Registration}
    (h : (name, reg) ∈ handlers.entries) : handlers.get name = some reg := by
  rcases handlers with ⟨entries, nodup⟩
  unfold Handlers.get
  induction entries with
  | nil => cases h
  | cons e rest ih =>
      rw [List.map_cons, List.nodup_cons] at nodup
      rw [List.lookup_cons]
      rcases List.mem_cons.mp h with rfl | hrest
      · simp
      · have hne : (name == e.1) = false := by
          refine beq_eq_false_iff_ne.mpr fun hname => nodup.1 ?_
          exact List.mem_map.mpr ⟨_, hrest, hname⟩
        rw [hne]
        exact ih nodup.2 hrest

/-- Every name of a source is delivered in the batch size of the source. -/
theorem Handlers.size_of_mem_sources {handlers : Handlers} {src : ClaimSource}
    (hsrc : src ∈ handlers.sources) {name : String} (hname : name ∈ src.names) :
    handlers.size name = src.batch := by
  unfold Handlers.sources at hsrc
  rcases List.mem_append.mp hsrc with hown | hshared
  · rcases List.mem_map.mp hown with ⟨⟨own, reg⟩, he, rfl⟩
    have hmem := (List.mem_filter.mp he).1
    rw [List.mem_singleton.mp hname]
    simp [Handlers.size, Handlers.get_of_mem hmem, ownSource]
  · split at hshared
    · cases hshared
    · rw [List.mem_singleton.mp hshared] at hname ⊢
      rcases List.mem_map.mp hname with ⟨⟨own, reg⟩, he, rfl⟩
      rcases List.mem_filter.mp he with ⟨hmem, hfree⟩
      have hnone : reg.batch = none := by
        simp only [Registration.limited, Bool.not_eq_true', Bool.or_eq_false_iff] at hfree
        simpa using hfree.1
      simp [Handlers.size, Handlers.get_of_mem hmem, Registration.size, hnone]

/-- A source that draws more than one name delivers its tasks one by one. -/
theorem Handlers.single_or_one {handlers : Handlers} {src : ClaimSource}
    (hsrc : src ∈ handlers.sources) : (∃ name, src.names = [name]) ∨ src.batch = 1 := by
  unfold Handlers.sources at hsrc
  rcases List.mem_append.mp hsrc with hown | hshared
  · rcases List.mem_map.mp hown with ⟨⟨own, reg⟩, -, rfl⟩
    exact Or.inl ⟨own, rfl⟩
  · split at hshared
    · cases hshared
    · rw [List.mem_singleton.mp hshared]
      exact Or.inr rfl

theorem Handlers.batch_pos {handlers : Handlers} {src : ClaimSource}
    (hsrc : src ∈ handlers.sources) : 0 < src.batch := by
  unfold Handlers.sources at hsrc
  rcases List.mem_append.mp hsrc with hown | hshared
  · rcases List.mem_map.mp hown with ⟨⟨own, reg⟩, -, rfl⟩
    exact reg.size_pos
  · split at hshared
    · cases hshared
    · rw [List.mem_singleton.mp hshared]
      exact Nat.one_pos

/-! ## Deliveries -/

/-- A handler call: the registration that runs it and its tasks. -/
structure Call (J : Type) where
  registration : Option Registration
  tasks : List (Task J)

/-- `by_name[task.name].append(task)`. -/
def addByName (groups : List (String × List (Task J))) (t : Task J) :
    List (String × List (Task J)) :=
  match groups with
  | [] => [(t.name, [t])]
  | g :: rest => if g.1 = t.name then (g.1, g.2 ++ [t]) :: rest else g :: addByName rest t

/-- The claimed tasks by name, the names in the order of their first tasks. -/
def byName (claimed : List (Task J)) : List (String × List (Task J)) :=
  claimed.foldl addByName []

/-- `[group[i : i + size] for i in range(0, len(group), size)]`. -/
def chunks {α : Type} (size : Nat) (group : List α) : List (List α) :=
  (List.range ((group.length + size - 1) / size)).map fun i => (group.drop (i * size)).take size

/-- The calls of one group. -/
def groupCalls (handlers : Handlers) (g : String × List (Task J)) : List (Call J) :=
  (chunks (handlers.size g.1) g.2).map fun tasks =>
    { registration := handlers.get g.1, tasks := tasks }

/-- `Worker._deliveries`. -/
def deliveries (handlers : Handlers) (claimed : List (Task J)) : List (Call J) :=
  (byName claimed).flatMap (groupCalls handlers)

/-- The tasks of some calls. -/
def callTasks (calls : List (Call J)) : List (Task J) :=
  calls.flatMap Call.tasks

/-- The call's tasks carry one name and are no more than its batch size. -/
def Call.Fits (handlers : Handlers) (c : Call J) : Prop :=
  ∃ name, (∀ t ∈ c.tasks, t.name = name) ∧ c.tasks.length ≤ handlers.size name

/-- The first {lit}`n` slices are the first {lit}`n * size` elements. -/
theorem flatten_slices {α : Type} (size : Nat) (l : List α) (n : Nat) :
    ((List.range n).map fun i => (l.drop (i * size)).take size).flatten = l.take (n * size) := by
  induction n with
  | zero => simp
  | succ n ih =>
      rw [List.range_succ, List.map_append, List.flatten_append, ih, Nat.succ_mul,
        List.take_add]
      simp

theorem flatten_chunks {α : Type} {size : Nat} (hsize : 0 < size) (l : List α) :
    (chunks size l).flatten = l := by
  rw [chunks, flatten_slices]
  refine List.take_of_length_le ?_
  have hdiv := Nat.lt_div_mul_add (a := l.length + size - 1) hsize
  omega

theorem length_le_of_mem_chunks {α : Type} {size : Nat} {l chunk : List α}
    (h : chunk ∈ chunks size l) : chunk.length ≤ size := by
  rcases List.mem_map.mp h with ⟨i, -, rfl⟩
  exact List.length_take_le _ _

theorem mem_of_mem_chunks {α : Type} {size : Nat} {l chunk : List α} (h : chunk ∈ chunks size l)
    {a : α} (ha : a ∈ chunk) : a ∈ l := by
  rcases List.mem_map.mp h with ⟨i, -, rfl⟩
  exact List.mem_of_mem_drop (List.mem_of_mem_take ha)

/-- A list that fits into a number of chunks makes no more of them. -/
theorem length_chunks_le {α : Type} {size n : Nat} (hsize : 0 < size) {l : List α}
    (h : l.length ≤ size * n) : (chunks size l).length ≤ n := by
  rw [chunks, List.length_map, List.length_range]
  refine Nat.le_of_lt_succ ((Nat.div_lt_iff_lt_mul hsize).mpr ?_)
  rw [Nat.succ_mul, Nat.mul_comm n size]
  omega

theorem length_chunks_one {α : Type} (l : List α) : (chunks 1 l).length = l.length := by
  simp [chunks]

/-! ### Groups -/

/-- Every group holds the tasks of its name. -/
def Named (groups : List (String × List (Task J))) : Prop :=
  ∀ g ∈ groups, ∀ t ∈ g.2, t.name = g.1

theorem perm_addByName (groups : List (String × List (Task J))) (t : Task J) :
    ((addByName groups t).flatMap Prod.snd).Perm (groups.flatMap Prod.snd ++ [t]) := by
  induction groups with
  | nil => exact List.Perm.refl _
  | cons g rest ih =>
      unfold addByName
      split
      · simp only [List.flatMap_cons, List.append_assoc]
        exact (List.perm_append_comm).append_left g.2
      · simp only [List.flatMap_cons, List.append_assoc]
        exact ih.append_left g.2

theorem Named.addByName {groups : List (String × List (Task J))} (h : Named groups) (t : Task J) :
    Named (addByName groups t) := by
  induction groups with
  | nil =>
      intro g hg t' ht'
      rw [List.mem_singleton.mp hg] at ht' ⊢
      rw [List.mem_singleton.mp ht']
  | cons g rest ih =>
      have hrest : Named rest := fun g' hg' => h g' (List.mem_cons_of_mem g hg')
      unfold CairnQ.addByName
      split
      · rename_i hname
        intro g' hg' t' ht'
        rcases List.mem_cons.mp hg' with rfl | hg'
        · rcases List.mem_append.mp ht' with ht' | ht'
          · exact h g List.mem_cons_self t' ht'
          · rw [List.mem_singleton.mp ht', hname]
        · exact hrest g' hg' t' ht'
      · intro g' hg'
        rcases List.mem_cons.mp hg' with rfl | hg'
        · exact h g' List.mem_cons_self
        · exact ih hrest g' hg'

/-- Grouping keeps every task, and groups by name. -/
theorem byName_spec (claimed : List (Task J)) :
    ((byName claimed).flatMap Prod.snd).Perm claimed ∧ Named (byName claimed) := by
  induction claimed using List.reverseRecOn with
  | nil => exact ⟨List.Perm.refl _, fun g hg => by cases hg⟩
  | append_singleton claimed t ih =>
      rcases ih with ⟨hperm, hnamed⟩
      have hstep : byName (claimed ++ [t]) = addByName (byName claimed) t := by
        simp [byName]
      rw [hstep]
      exact ⟨(perm_addByName _ t).trans (hperm.append_right [t]), hnamed.addByName t⟩

theorem Handlers.size_pos (handlers : Handlers) (name : String) : 0 < handlers.size name := by
  unfold Handlers.size
  cases handlers.get name with
  | none => exact Nat.one_pos
  | some reg => exact reg.size_pos

theorem callTasks_groupCalls (handlers : Handlers) (g : String × List (Task J)) :
    callTasks (groupCalls handlers g) = g.2 := by
  have hflat := flatten_chunks (handlers.size_pos g.1) g.2
  rw [callTasks, groupCalls, List.flatMap_map]
  simpa [List.flatMap_id'] using hflat

/-- Every claimed task is placed in exactly one call. -/
theorem perm_deliveries (handlers : Handlers) (claimed : List (Task J)) :
    (callTasks (deliveries handlers claimed)).Perm claimed := by
  have htasks : callTasks (deliveries handlers claimed) = (byName claimed).flatMap Prod.snd := by
    rw [callTasks, deliveries, List.flatMap_assoc]
    exact List.flatMap_congr fun g _ => callTasks_groupCalls handlers g
  rw [htasks]
  exact (byName_spec claimed).1

/-- Every call fits. -/
theorem fits_of_mem_deliveries {handlers : Handlers} {claimed : List (Task J)} {c : Call J}
    (hc : c ∈ deliveries handlers claimed) : c.Fits handlers := by
  rcases List.mem_flatMap.mp hc with ⟨g, hg, hc⟩
  rcases List.mem_map.mp hc with ⟨tasks, htasks, rfl⟩
  exact ⟨g.1, fun t ht => (byName_spec claimed).2 g hg t (mem_of_mem_chunks htasks ht),
    length_le_of_mem_chunks htasks⟩

/-- Tasks of one name make one group. -/
theorem byName_single {name : String} {claimed : List (Task J)}
    (h : ∀ t ∈ claimed, t.name = name) :
    byName claimed = if claimed = [] then [] else [(name, claimed)] := by
  induction claimed using List.reverseRecOn with
  | nil => rfl
  | append_singleton claimed t ih =>
      have hstep : byName (claimed ++ [t]) = addByName (byName claimed) t := by
        simp [byName]
      have hname : t.name = name := h t (by simp)
      rw [hstep, ih fun t' ht' => h t' (List.mem_append_left _ ht')]
      by_cases hnil : claimed = []
      · simp [hnil, addByName, hname]
      · simp [hnil, addByName, hname]

theorem length_deliveries (handlers : Handlers) (claimed : List (Task J)) :
    (deliveries handlers claimed).length =
      ((byName claimed).map fun g => (chunks (handlers.size g.1) g.2).length).sum := by
  simp [deliveries, groupCalls, List.length_flatMap]

/-- The rows that a source draws within a quota make no more calls than the quota. -/
theorem length_deliveries_le {handlers : Handlers} {src : ClaimSource}
    (hsrc : src ∈ handlers.sources) {rows : List (Task J)} {quota : Nat}
    (hnames : ∀ t ∈ rows, t.name ∈ src.names) (hlength : rows.length ≤ src.batch * quota) :
    (deliveries handlers rows).length ≤ quota := by
  rcases Handlers.single_or_one hsrc with ⟨name, hsingle⟩ | hone
  · have hname : ∀ t ∈ rows, t.name = name := fun t ht => by simpa [hsingle] using hnames t ht
    have hsize : handlers.size name = src.batch :=
      Handlers.size_of_mem_sources hsrc (by simp [hsingle])
    rw [length_deliveries, byName_single hname]
    split
    · exact Nat.zero_le quota
    · simpa [hsize] using length_chunks_le (Handlers.batch_pos hsrc) hlength
  · rcases byName_spec rows with ⟨hperm, hnamed⟩
    have hcalls : ∀ g ∈ byName rows, (chunks (handlers.size g.1) g.2).length = g.2.length := by
      intro g hg
      cases hgroup : g.2 with
      | nil =>
          have hle := length_chunks_le (n := 0) (handlers.size_pos g.1)
            (Nat.le_refl ([] : List (Task J)).length)
          simpa using hle
      | cons t rest =>
          have ht : t ∈ g.2 := by simp [hgroup]
          have hmem : t ∈ rows := hperm.mem_iff.mp (List.mem_flatMap.mpr ⟨g, hg, ht⟩)
          have hsize : handlers.size g.1 = src.batch := by
            rw [← hnamed g hg t ht]
            exact Handlers.size_of_mem_sources hsrc (hnames t hmem)
          rw [hsize, hone, length_chunks_one]
    rw [length_deliveries, List.map_congr_left hcalls, ← List.length_flatMap, hperm.length_eq]
    simpa [hone] using hlength

/-! ## Plans -/

/-- What the claims of one session return: rows of the names asked for, up to the limit. -/
structure ClaimSession (J : Type) where
  claim : List String → Nat → List (Task J)
  named : ∀ names limit, ∀ t ∈ claim names limit, t.name ∈ names
  within : ∀ names limit, (claim names limit).length ≤ limit

/-- The session over a queue that stands still: its first rows of the names asked for. -/
def ClaimSession.ofQueue (queue : List (Task J)) : ClaimSession J where
  claim names limit := (queue.filter fun t => t.name ∈ names).take limit
  named := by
    intro names limit t ht
    simpa using (List.mem_filter.mp (List.mem_of_mem_take ht)).2
  within := fun names limit => List.length_take_le _ _

/-- One draw of a plan: the source, the rows its claim returned, and the calls they make. -/
structure Draw (J : Type) where
  source : ClaimSource
  rows : List (Task J)
  calls : List (Call J)

/-- `_headroom`: the units of the source's resource that neither running calls nor earlier draws of
the plan hold. -/
def headroom (capacity inFlight taken : String → Nat) (src : ClaimSource) : Option Nat :=
  src.resource.map fun r => capacity r - inFlight r - taken r

/-- The calls a source may draw: `left if own is None else min(own, left)`. -/
def quota (own : Option Nat) (left : Nat) : Nat :=
  match own with
  | none => left
  | some own => min own left

/-- Calls drawn from a source count against its resource. -/
def charge (units : String → Nat) (resource : Option String) (n : Nat) : String → Nat :=
  match resource with
  | none => units
  | some r => Function.update units r (units r + n)

/-- The loop of `plan` over the sources that are left. -/
def planFrom (handlers : Handlers) (capacity inFlight : String → Nat) (session : ClaimSession J) :
    List ClaimSource → Nat → (String → Nat) → List (Draw J)
  | [], _, _ => []
  | src :: rest, left, taken =>
      if left = 0 then []
      else
        let share := quota (headroom capacity inFlight taken src) left
        if share = 0 then planFrom handlers capacity inFlight session rest left taken
        else
          let rows := session.claim src.names (src.batch * share)
          if rows.isEmpty then planFrom handlers capacity inFlight session rest left taken
          else
            let calls := deliveries handlers rows
            { source := src, rows := rows, calls := calls } ::
              planFrom handlers capacity inFlight session rest (left - calls.length)
                (charge taken src.resource calls.length)

/-- `self._sources[cursor:] + self._sources[:cursor]`. -/
def Handlers.order (handlers : Handlers) (cursor : Nat) : List ClaimSource :=
  handlers.sources.drop (cursor % handlers.sources.length) ++
    handlers.sources.take (cursor % handlers.sources.length)

/-- The draws of `plan`. -/
def plan (handlers : Handlers) (capacity inFlight : String → Nat) (cursor free : Nat)
    (session : ClaimSession J) : List (Draw J) :=
  planFrom handlers capacity inFlight session (handlers.order cursor) free fun _ => 0

/-- The calls of some draws. -/
def drawnCalls (draws : List (Draw J)) : List (Call J) :=
  draws.flatMap Draw.calls

/-- The calls drawn on a resource. -/
def unitsDrawn (draws : List (Draw J)) (r : String) : Nat :=
  (draws.map fun d => if d.source.resource = some r then d.calls.length else 0).sum

/-- What a draw is, given the session it was made in. -/
structure Draw.Sound (handlers : Handlers) (session : ClaimSession J) (d : Draw J) : Prop where
  source : d.source ∈ handlers.sources
  rows : ∃ limit, d.rows = session.claim d.source.names limit
  calls : d.calls = deliveries handlers d.rows

theorem quota_le_left (own : Option Nat) (left : Nat) : quota own left ≤ left := by
  unfold quota
  split
  · exact Nat.le_refl left
  · exact Nat.min_le_right _ _

theorem mem_order {handlers : Handlers} {cursor : Nat} {src : ClaimSource} :
    src ∈ handlers.order cursor ↔ src ∈ handlers.sources := by
  unfold Handlers.order
  rw [List.mem_append, or_comm, ← List.mem_append, List.take_append_drop]

/-- A unit drawn is a unit that was there: what one draw takes and what the later ones may. -/
theorem units_le_of_draw {capacity inFlight taken : String → Nat} {src : ClaimSource} {n left : Nat}
    (hn : n ≤ quota (headroom capacity inFlight taken src) left) {r : String}
    (hroom : inFlight r + taken r ≤ capacity r) :
    inFlight r + charge taken src.resource n r ≤ capacity r ∧
      charge taken src.resource n r = taken r + if src.resource = some r then n else 0 := by
  cases hres : src.resource with
  | none => simp [charge, hroom]
  | some own =>
      by_cases hown : own = r
      · subst hown
        simp only [hres, headroom, Option.map_some, quota] at hn
        refine ⟨?_, by simp [charge]⟩
        simp only [charge, Function.update_self]
        omega
      · simp [charge, Function.update_of_ne (Ne.symm hown), hown, hroom]

/-- The draws of a plan: each is sound, their calls fit what was left, and their units what was left
of each resource. -/
theorem planFrom_spec {handlers : Handlers} {capacity inFlight : String → Nat}
    {session : ClaimSession J} {sources : List ClaimSource}
    (hsources : ∀ src ∈ sources, src ∈ handlers.sources) (left : Nat) (taken : String → Nat) :
    let draws := planFrom handlers capacity inFlight session sources left taken
    (∀ d ∈ draws, d.Sound handlers session) ∧ (drawnCalls draws).length ≤ left ∧
      ∀ r, inFlight r + taken r ≤ capacity r →
        inFlight r + taken r + unitsDrawn draws r ≤ capacity r := by
  induction sources generalizing left taken with
  | nil => exact ⟨fun d hd => (List.not_mem_nil hd).elim, Nat.zero_le left, fun r h => h⟩
  | cons src rest ih =>
      have hrest : ∀ s ∈ rest, s ∈ handlers.sources := fun s hs =>
        hsources s (List.mem_cons_of_mem src hs)
      have hsrc := hsources src List.mem_cons_self
      unfold planFrom
      split
      · exact ⟨fun d hd => (List.not_mem_nil hd).elim, Nat.zero_le left, fun r h => h⟩
      · dsimp only
        split
        · exact ih hrest left taken
        · split
          · exact ih hrest left taken
          · have hcalls := length_deliveries_le hsrc
              (session.named src.names _) (session.within src.names
                (src.batch * quota (headroom capacity inFlight taken src) left))
            generalize hrows : session.claim src.names
              (src.batch * quota (headroom capacity inFlight taken src) left) = rows at hcalls ⊢
            have hleft := quota_le_left (headroom capacity inFlight taken src) left
            rcases ih hrest (left - (deliveries handlers rows).length)
              (charge taken src.resource (deliveries handlers rows).length) with
              ⟨hsound, hlength, hunits⟩
            refine ⟨?_, ?_, fun r hroom => ?_⟩
            · intro d hd
              rcases List.mem_cons.mp hd with rfl | hd
              · exact ⟨hsrc, ⟨_, hrows.symm⟩, rfl⟩
              · exact hsound d hd
            · simp only [drawnCalls, List.flatMap_cons, List.length_append] at hlength ⊢
              omega
            · rcases units_le_of_draw hcalls hroom with ⟨hcharged, hdrawn⟩
              have hlater := hunits r hcharged
              rw [hdrawn] at hlater
              simp only [unitsDrawn, List.map_cons, List.sum_cons] at hlater ⊢
              omega

variable {handlers : Handlers} {capacity inFlight : String → Nat} {cursor free : Nat}
  {session : ClaimSession J}

/-- The draws of a plan are sound. -/
theorem sound_of_mem_plan {d : Draw J}
    (hd : d ∈ plan handlers capacity inFlight cursor free session) : d.Sound handlers session :=
  (planFrom_spec (fun _ => mem_order.mp) free fun _ => 0).1 d hd

/-- A plan draws no more calls than it was given. -/
theorem length_calls_plan_le :
    (drawnCalls (plan handlers capacity inFlight cursor free session)).length ≤ free :=
  (planFrom_spec (fun _ => mem_order.mp) free fun _ => 0).2.1

/-- A plan draws no more calls on a resource than it has units left. -/
theorem unitsDrawn_plan_le {r : String} (hroom : inFlight r ≤ capacity r) :
    inFlight r + unitsDrawn (plan handlers capacity inFlight cursor free session) r ≤ capacity r :=
  (planFrom_spec (fun _ => mem_order.mp) free fun _ => 0).2.2 r hroom

end CairnQ
