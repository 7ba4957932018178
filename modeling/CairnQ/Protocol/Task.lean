import CairnQ.Relational.KeyedTable
import Mathlib.Data.Rat.Defs

/-!
# Tasks, keys and the database

The two tables of the protocol as the migrations create them: `cairnq_tasks`,
one row per execution, and `cairnq_task_keys`, one row per business key.  The
constraints the database itself enforces are fields: the primary keys of both
tables (through {lit}`KeyedTable`) and the foreign key from a key row to its task.

JSON columns are values of a type {lit}`J`; no statement looks inside one.  Times are
integer epoch milliseconds.

Main results:

- Theorems `get_updateTasks` and `get_deleteTasks`: what a statement on
  `cairnq_tasks` does to the row stored under an id.
- Theorem `getKey_deleteTasks`: a deleted task takes its key rows with it.
-/

namespace CairnQ

open Relational

/-- The `status` check constraint of `cairnq_tasks`. -/
inductive TaskStatus
  | queued
  | running
  | succeeded
  | failed
  | canceled
deriving DecidableEq, Repr

/-- `TERMINAL`: the statuses a task stops at. -/
def TaskStatus.isTerminal : TaskStatus → Bool
  | .succeeded | .failed | .canceled => true
  | .queued | .running => false

/-- A double, the type of the `progress` column. -/
inductive Double
  | finite (value : Rat)
  | infinite (negative : Bool)
  | nan
deriving DecidableEq, Repr

/-- A row of `cairnq_tasks`. -/
structure Task (J : Type) where
  id : String
  name : String
  queue : String
  status : TaskStatus
  payload : J
  result : Option J
  error : Option J
  metadata : J
  progress : Option Double
  message : Option String
  attempt : Int
  maxAttempts : Int
  priority : Int
  workerId : Option String
  leaseUntilMs : Option Int
  runAtMs : Int
  cancelRequestedAtMs : Option Int
  parentId : Option String
  rootId : Option String
  correlationId : Option String
  createdAtMs : Int
  updatedAtMs : Int
  completedAtMs : Option Int
deriving DecidableEq, Repr

/-- A row of `cairnq_task_keys`. -/
structure TaskKey where
  key : String
  taskId : String
  createdAtMs : Int
  updatedAtMs : Int
deriving DecidableEq, Repr

/-- The database: both tables and the foreign key between them. -/
structure Database (J : Type) where
  tasks : KeyedTable (Task.id (J := J))
  keys : KeyedTable TaskKey.key
  taskExists : ∀ k ∈ keys.rows, (tasks.find? k.taskId).isSome

namespace Database

variable {J : Type}

/-- The database after the migrations, before any statement. -/
def empty : Database J where
  tasks := KeyedTable.empty
  keys := KeyedTable.empty
  taskExists := by
    intro k hk
    cases hk

/-- `update cairnq_tasks set u where p`. -/
def updateTasks (db : Database J) (p : Task J → Bool) (u : RowUpdate (Task.id (J := J))) :
    Database J where
  tasks := db.tasks.updateWhere p u
  keys := db.keys
  taskExists := by
    intro k hk
    rw [KeyedTable.find?_updateWhere, Option.isSome_map]
    exact db.taskExists k hk

/-- `delete from cairnq_tasks where p`, with the `on delete cascade` of
`cairnq_task_keys`: the key rows of a deleted task go with it. -/
def deleteTasks (db : Database J) (p : Task J → Bool) : Database J where
  tasks := db.tasks.deleteWhere p
  keys := db.keys.deleteWhere fun k => !((db.tasks.deleteWhere p).find? k.taskId).isSome
  taskExists := by
    intro k hk
    simpa using (List.mem_filter.mp hk).2

/-- `insert into cairnq_tasks`, refused when the id is taken. -/
def insertTask? (db : Database J) (t : Task J) : Option (Database J) :=
  match h : db.tasks.insert? t with
  | none => none
  | some tasks => some
      { tasks := tasks
        keys := db.keys
        taskExists := by
          intro k hk
          rw [KeyedTable.find?_insert? h]
          split
          · rfl
          · exact db.taskExists k hk }

/-- The key row after `insert ... on conflict(key) do update`. -/
def repoint (old : Option TaskKey) (key taskId : String) (nowMs : Int) : TaskKey :=
  match old with
  | some k => { k with taskId := taskId, updatedAtMs := nowMs }
  | none => { key := key, taskId := taskId, createdAtMs := nowMs, updatedAtMs := nowMs }

/-- Point a key at a task, refused by the foreign key when the task is missing. -/
def upsertKey? (db : Database J) (key taskId : String) (nowMs : Int) : Option (Database J) :=
  if htask : (db.tasks.find? taskId).isSome then
    match hinsert : db.keys.insert? (repoint none key taskId nowMs) with
    | some keys => some
        { tasks := db.tasks
          keys := keys
          taskExists := by
            intro k hk
            have hfind := KeyedTable.find?_insert? hinsert k.key
            rw [KeyedTable.find?_of_mem hk] at hfind
            split at hfind
            · cases hfind
              exact htask
            · exact db.taskExists k (KeyedTable.find?_eq_some_iff.mp hfind.symm).1 }
    | none => some
        { tasks := db.tasks
          keys := db.keys.updateWhere (fun k => k.key = key)
            { set := fun k => repoint (some k) key taskId nowMs
              key_set := fun _ => rfl }
          taskExists := by
            intro k hk
            rcases List.mem_map.mp hk with ⟨old, hold, rfl⟩
            split
            · exact htask
            · exact db.taskExists old hold }
  else none

/-- The row stored under an id: `select * from cairnq_tasks where id = :id`. -/
def get (db : Database J) (id : String) : Option (Task J) :=
  db.tasks.find? id

/-- The task a key points at: `select task_id from cairnq_task_keys where key = :key`. -/
def getKey (db : Database J) (key : String) : Option String :=
  (db.keys.find? key).map TaskKey.taskId

/-! ## Lookups after a change -/

@[simp]
theorem get_empty (id : String) : (empty : Database J).get id = none :=
  rfl

@[simp]
theorem getKey_empty (key : String) : (empty : Database J).getKey key = none :=
  rfl

theorem id_of_get {db : Database J} {id : String} {t : Task J} (h : db.get id = some t) :
    t.id = id :=
  KeyedTable.key_of_find? h

theorem get_updateTasks (db : Database J) (p : Task J → Bool)
    (u : RowUpdate (Task.id (J := J))) (id : String) :
    (db.updateTasks p u).get id = (db.get id).map fun t => if p t then u.set t else t :=
  KeyedTable.find?_updateWhere db.tasks p u id

theorem get_deleteTasks (db : Database J) (p : Task J → Bool) (id : String) :
    (db.deleteTasks p).get id = (db.get id).filter fun t => !p t :=
  KeyedTable.find?_deleteWhere db.tasks p id

theorem insertTask?_eq_none_iff {db : Database J} {t : Task J} :
    db.insertTask? t = none ↔ (db.get t.id).isSome := by
  unfold insertTask? get
  rw [← KeyedTable.insert?_eq_none_iff]
  split <;> simp_all

theorem get_insertTask? {db db' : Database J} {t : Task J} (h : db.insertTask? t = some db')
    (id : String) : db'.get id = if t.id = id then some t else db.get id := by
  unfold insertTask? at h
  split at h
  · cases h
  · rename_i tasks htasks
    cases h
    exact KeyedTable.find?_insert? htasks id

theorem rows_insertTask? {db db' : Database J} {t : Task J} (h : db.insertTask? t = some db') :
    db'.tasks.rows = db.tasks.rows ++ [t] := by
  unfold insertTask? at h
  split at h
  · cases h
  · rename_i tasks htasks
    cases h
    exact KeyedTable.rows_insert? htasks

theorem tasks_insertTask? {db db' : Database J} {t : Task J} (h : db.insertTask? t = some db') :
    db.tasks.insert? t = some db'.tasks ∧ db'.keys = db.keys := by
  unfold insertTask? at h
  split at h
  · cases h
  · rename_i tasks htasks
    cases h
    exact ⟨htasks, rfl⟩

@[simp]
theorem getKey_updateTasks (db : Database J) (p : Task J → Bool)
    (u : RowUpdate (Task.id (J := J))) (key : String) :
    (db.updateTasks p u).getKey key = db.getKey key :=
  rfl

theorem getKey_insertTask? {db db' : Database J} {t : Task J} (h : db.insertTask? t = some db')
    (key : String) : db'.getKey key = db.getKey key := by
  unfold insertTask? at h
  split at h
  · cases h
  · cases h
    rfl

/-- Store a new version of one row. -/
def putTask (db : Database J) (t : Task J) : Database J :=
  db.updateTasks (fun r => r.id = t.id) (KeyedTable.replaceWith t)

theorem get_putTask (db : Database J) (t : Task J) (id : String) :
    (db.putTask t).get id = if t.id = id then (db.get id).map fun _ => t else db.get id :=
  KeyedTable.find?_replaceWith db.tasks t id

/-- A key survives a deletion exactly when the task it points at does. -/
theorem getKey_deleteTasks (db : Database J) (p : Task J → Bool) (key : String) :
    (db.deleteTasks p).getKey key =
      (db.getKey key).filter fun id => ((db.deleteTasks p).get id).isSome := by
  simp only [getKey, deleteTasks, get, KeyedTable.find?_deleteWhere]
  cases db.keys.find? key with
  | none => rfl
  | some k => simp [Option.filter_some, apply_ite (Option.map TaskKey.taskId)]

/-- A database is its rows. -/
theorem eq_of_rows {a b : Database J} (htasks : a.tasks.rows = b.tasks.rows)
    (hkeys : a.keys.rows = b.keys.rows) : a = b := by
  rcases a with ⟨⟨tasks, _⟩, ⟨keys, _⟩, _⟩
  rcases b with ⟨⟨tasks', _⟩, ⟨keys', _⟩, _⟩
  cases htasks
  cases hkeys
  rfl

/-- Conditions that agree on the stored rows delete the same. -/
theorem deleteTasks_congr {db : Database J} {p q : Task J → Bool}
    (h : ∀ t ∈ db.tasks.rows, p t = q t) : db.deleteTasks p = db.deleteTasks q := by
  have htasks : db.tasks.deleteWhere p = db.tasks.deleteWhere q := by
    have hrows : (db.tasks.rows.filter fun r => !p r) = db.tasks.rows.filter fun r => !q r :=
      List.filter_congr fun t ht => by rw [h t ht]
    simp only [KeyedTable.deleteWhere, hrows]
  refine eq_of_rows ?_ ?_ <;> simp only [deleteTasks, htasks]

/-- Two deletions are one. -/
theorem deleteTasks_deleteTasks (db : Database J) (p q : Task J → Bool) :
    (db.deleteTasks p).deleteTasks q = db.deleteTasks fun t => p t || q t := by
  have hboth : ∀ id, ((db.tasks.deleteWhere p).deleteWhere q).find? id =
      (db.tasks.deleteWhere fun t => p t || q t).find? id := by
    intro id
    simp only [KeyedTable.find?_deleteWhere, Option.filter_filter]
    refine congrArg (fun f => Option.filter f _) (funext fun t => ?_)
    rw [Bool.not_or, Bool.and_comm]
  refine eq_of_rows ?_ ?_
  · simp only [deleteTasks, KeyedTable.deleteWhere, List.filter_filter]
    refine List.filter_congr fun t _ => ?_
    rw [Bool.not_or, Bool.and_comm]
  · show ((db.keys.deleteWhere fun k => !((db.tasks.deleteWhere p).find? k.taskId).isSome).deleteWhere
      fun k => !(((db.tasks.deleteWhere p).deleteWhere q).find? k.taskId).isSome).rows =
        (db.keys.deleteWhere fun k =>
          !((db.tasks.deleteWhere fun t => p t || q t).find? k.taskId).isSome).rows
    simp only [hboth]
    simp only [KeyedTable.deleteWhere, List.filter_filter, Bool.not_not]
    refine List.filter_congr fun k _ => ?_
    -- a task that survives both survives the first
    have hfirst := KeyedTable.find?_deleteWhere db.tasks p k.taskId
    have hlast := KeyedTable.find?_deleteWhere db.tasks (fun t => p t || q t) k.taskId
    simp only [KeyedTable.deleteWhere] at hfirst hlast
    rw [hfirst, hlast]
    cases db.tasks.find? k.taskId with
    | none => rfl
    | some t => cases hp : p t <;> cases hq : q t <;> simp [hp, hq]

/-- Deleting no row. -/
@[simp]
theorem deleteTasks_false (db : Database J) : (db.deleteTasks fun _ => false) = db := by
  have htasks : db.tasks.deleteWhere (fun _ => false) = db.tasks := by
    simp [KeyedTable.deleteWhere]
  refine eq_of_rows (congrArg KeyedTable.rows htasks) ?_
  simp only [deleteTasks, htasks]
  exact List.filter_eq_self.mpr fun k hk => by simp [db.taskExists k hk]

theorem upsertKey?_eq_none_iff {db : Database J} {key taskId : String} {nowMs : Int} :
    db.upsertKey? key taskId nowMs = none ↔ db.get taskId = none := by
  unfold upsertKey? get
  split
  · rename_i h
    split <;> simp [Option.isSome_iff_ne_none.mp h]
  · rename_i h
    simpa using h

theorem tasks_upsertKey? {db db' : Database J} {key taskId : String} {nowMs : Int}
    (h : db.upsertKey? key taskId nowMs = some db') : db'.tasks = db.tasks := by
  unfold upsertKey? at h
  split at h
  · split at h <;> cases h <;> rfl
  · cases h

/-- A key that is taken is repointed, any other is inserted. -/
theorem keys_upsertKey? {db db' : Database J} {key taskId : String} {nowMs : Int}
    (h : db.upsertKey? key taskId nowMs = some db') :
    db.keys.insert? (repoint none key taskId nowMs) = some db'.keys ∨
      (db.keys.insert? (repoint none key taskId nowMs) = none ∧
        db'.keys = db.keys.updateWhere (fun k => k.key = key)
          { set := fun k => repoint (some k) key taskId nowMs, key_set := fun _ => rfl }) := by
  unfold upsertKey? at h
  split at h
  · split at h
    · rename_i keys hinsert
      cases h
      exact Or.inl hinsert
    · rename_i hnone
      cases h
      exact Or.inr ⟨hnone, rfl⟩
  · cases h

/-- Repointing a key changes no task. -/
theorem get_upsertKey? {db db' : Database J} {key taskId : String} {nowMs : Int}
    (h : db.upsertKey? key taskId nowMs = some db') (id : String) : db'.get id = db.get id := by
  unfold get
  rw [tasks_upsertKey? h]

/-- Repointing a key changes that key alone. -/
theorem getKey_upsertKey? {db db' : Database J} {key taskId : String} {nowMs : Int}
    (h : db.upsertKey? key taskId nowMs = some db') (key' : String) :
    db'.getKey key' = if key = key' then some taskId else db.getKey key' := by
  unfold upsertKey? at h
  split at h
  · split at h
    · rename_i keys hinsert
      cases h
      simp only [getKey, KeyedTable.find?_insert? hinsert, repoint]
      by_cases hkey : key = key' <;> simp [hkey]
    · rename_i hnone
      cases h
      have hsome : (db.keys.find? key).isSome := KeyedTable.insert?_eq_none_iff.mp hnone
      simp only [getKey, KeyedTable.find?_updateWhere, repoint]
      rcases Option.isSome_iff_exists.mp hsome with ⟨old, hold⟩
      by_cases hkey : key = key'
      · subst hkey
        simp [hold, KeyedTable.key_of_find? hold]
      · cases hfind : db.keys.find? key' with
        | none => simp [hkey]
        | some k =>
            have hne : k.key ≠ key := by
              rw [KeyedTable.key_of_find? hfind]
              exact Ne.symm hkey
            simp [hkey, hne]
  · cases h

/-- The keys table never points at a missing task. -/
theorem get_of_getKey {db : Database J} {key id : String} (h : db.getKey key = some id) :
    (db.get id).isSome := by
  unfold getKey at h
  rcases Option.map_eq_some_iff.mp h with ⟨k, hk, rfl⟩
  exact db.taskExists k (KeyedTable.find?_eq_some_iff.mp hk).1

end Database

end CairnQ
