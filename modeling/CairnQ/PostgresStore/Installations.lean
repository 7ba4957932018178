import CairnQ.Protocol.Migrations
import CairnQ.Transition.Past
import Mathlib.Data.List.Sort

/-!
# Installations

Each schema of a Postgres database can hold tables of its own, and which one a connection works in
is a matter of its search path.  `_check_schema` keeps a deployment together: a process that names
a schema must be in it, and one that does not may join an installation, or create the first.  The
check and the migrations that follow it are separate steps, and processes of either SDK may be
anywhere in between, crash there, or lose their connection.

Main results:

- Theorem `checkSchema_installations`: what the check makes of the rows of `installations`.
- Theorem `migrating_cases`: a migrating database changes by what one of its sessions does.
- Theorem `split_overlaps`: whoever has connected is in an installed schema, the one it names if
  it names one; and two installations that nobody has named come from two first connects that
  overlap.
-/

namespace CairnQ

open Transition

/-! ## The check -/

/-- A row of `installations`. -/
structure InstallationRow where
  currentSchema : Option String
  schema : Option String
deriving DecidableEq, Repr

/-- `installations`: a row for each schema that holds the table; the left join has one even if
there is none. -/
def installationRows (current : Option String) (found : List String) : List InstallationRow :=
  if found = [] then [⟨current, none⟩] else found.map fun name => ⟨current, some name⟩

/-- `SchemaMismatch`, with what its message tells. -/
inductive SchemaMismatch
  | elsewhere (wanted : String) (current : Option String)
  | parallel (found : List String) (current : String)
deriving DecidableEq, Repr

/-- `_check_schema`. -/
def checkSchema (schema : Option String) (rows : List InstallationRow) :
    Except SchemaMismatch Unit :=
  let current := rows.head?.bind InstallationRow.currentSchema
  let installations := rows.filterMap InstallationRow.schema
  match schema, current with
  | some wanted, current =>
      if current = some wanted then .ok () else .error (.elsewhere wanted current)
  -- the search path names nothing that exists; the migrations are about to fail
  | none, none => .ok ()
  | none, some current =>
      if installations = [] ∨ current ∈ installations then .ok ()
      else .error (.parallel installations current)

/-- The check reads the rows as they are meant. -/
theorem checkSchema_installations (schema current : Option String) (found : List String) :
    checkSchema schema (installationRows current found) = .ok () ↔
      match schema with
      | some wanted => current = some wanted
      | none => ∀ name, current = some name → found = [] ∨ name ∈ found := by
  have hhead : (installationRows current found).head?.bind InstallationRow.currentSchema =
      current := by
    cases found <;> rfl
  have hfound : (installationRows current found).filterMap InstallationRow.schema = found := by
    cases found with
    | nil => rfl
    | cons name found =>
        simp [installationRows, List.filterMap_map]
  simp only [checkSchema, hhead, hfound]
  cases schema with
  | some wanted => by_cases h : current = some wanted <;> simp [h]
  | none =>
      cases current with
      | none => simp
      | some name => by_cases h : found = [] ∨ name ∈ found <;> simp [h]

/-! ## State -/

/-- Where a process stands that connects: before the check, or after it; from then on its session
says more. -/
inductive InstallPhase
  | connecting
  | checked
  | refused (mismatch : SchemaMismatch)
deriving DecidableEq, Repr

/-- A process: its `schema` argument, what its connection resolves to, and where it stands. -/
structure Installer where
  sdk : Sdk
  schema : Option String
  current : Option String
  phase : InstallPhase
deriving DecidableEq, Repr

/-- The schemas of a database, what each holds, and the processes that connect to it. -/
structure InstallState where
  known : List String
  schemas : String → MigrationState
  processes : Nat → Installer

/-- A label. -/
inductive InstallStep
  /-- `_check_schema` -/
  | check (id : Nat)
  /-- a step of the migrations in one schema -/
  | migrate (name : String) (step : MigrationStep)

/-- Whether a schema holds the table, given which statements create it. -/
def MigrationState.holdsTasks (creates : String → Bool) (m : MigrationState) : Bool :=
  m.applied.any fun effect => creates effect.2

namespace InstallState

/-- The schemas that hold the table, in the order of their names. -/
def found (creates : String → Bool) (s : InstallState) : List String :=
  (s.known.filter fun name => (s.schemas name).holdsTasks creates).insertionSort (· ≤ ·)

/-- Where a process goes. -/
def goTo (s : InstallState) (id : Nat) (phase : InstallPhase) : InstallState :=
  { s with processes := fun id' =>
      if id' = id then { s.processes id' with phase := phase } else s.processes id' }

/-- Change one schema. -/
def setSchema (s : InstallState) (name : String) (m : MigrationState) : InstallState :=
  { s with schemas := fun name' => if name' = name then m else s.schemas name' }

/-- Whether the migrations of a process may take the step: they begin after the check, in the
schema its connection resolves to. -/
def allows (s : InstallState) (name : String) : MigrationStep → Bool
  | .start id sdk =>
      let process := s.processes id
      decide (process.phase = .checked) && decide (process.current = some name) &&
        decide (process.sdk = sdk) && decide (name ∈ s.known)
  | _ => true

end InstallState

/-- Processes that connect to one Postgres database. -/
def installing (files : List Migration) (creates : String → Bool) :
    Machine InstallState InstallStep := fun s l =>
  match l with
  | .check id =>
      let process := s.processes id
      if process.phase = .connecting then
        match checkSchema process.schema (installationRows process.current (s.found creates)) with
        | .ok () => some (s.goTo id .checked)
        | .error mismatch => some (s.goTo id (.refused mismatch))
      else none
  | .migrate name step =>
      if s.allows name step then
        (migrating .postgres files (s.schemas name) step).map (s.setSchema name)
      else none

/-! ## Steps of the migrations -/

variable {files : List Migration} {m m' : MigrationState} {step : MigrationStep}

/-- The database does what one session asks, and touches no other. -/
theorem serve_sessions {d : Dialect} {id : Nat} {r : Request} {a : MigrationReply}
    (h : serve d files m id r = some (m', a)) :
    ∀ id' ≠ id, m'.sessions id' = m.sessions id' := by
  by_cases hcommit : ∃ i, r = .commit i
  · rcases hcommit with ⟨i, rfl⟩
    simp only [serve, Option.bind_eq_bind, Option.bind_eq_some_iff] at h
    rcases h with ⟨tx, -, h⟩
    cases h
    exact (leavesOthers_endTx _ id).sessions
  · exact (serve_of_not_commit (fun i hr => hcommit ⟨i, hr⟩) h).1.sessions

/-- Its process can still ask for something. -/
def MigrationState.Running (m : MigrationState) (id : Nat) : Prop :=
  (m.sessions id).life ≠ .fresh ∧ (m.sessions id).life ≠ .unwinding []

/-- What a step changes: a session begins, or a connection is lost, or one session runs. -/
theorem migrating_cases (h : migrating .postgres files m step = some m') :
    (∃ id sdk, step = .start id sdk ∧ (m.sessions id).life = .fresh ∧ m'.applied = m.applied ∧
      ∀ id' ≠ id, (m'.sessions id').life = (m.sessions id').life) ∨
    ((∀ id, (m'.sessions id).life = (m.sessions id).life) ∧ m'.applied = m.applied) ∨
    ∃ id, m.Running id ∧ ∀ id' ≠ id, (m'.sessions id').life = (m.sessions id').life := by
  have hmoves : ∀ {s : MigrationState} {id : Nat} {life : SessionLife},
      (∀ id' ≠ id, s.sessions id' = m.sessions id') →
      ∀ id' ≠ id, ((s.goTo id life).sessions id').life = (m.sessions id').life :=
    fun hsame id' hid => by
      rw [(leavesOthers_goTo _ _ _).sessions id' hid, hsame id' hid]
  cases step with
  | start id sdk =>
      simp only [migrating] at h
      split at h
      · rename_i hlife
        cases h
        exact Or.inl ⟨id, sdk, rfl, hlife, rfl, fun id' hid => by
          rw [(leavesOthers_modify _ _ _).sessions id' hid]⟩
      · cases h
  | sever id =>
      simp only [migrating] at h
      cases h
      refine Or.inr (Or.inl ⟨fun id' => ?_, rfl⟩)
      by_cases hid : id' = id
      · subst hid
        simp [MigrationState.endTx, MigrationState.release, MigrationState.setTx]
      · rw [(leavesOthers_modify _ _ _).sessions id' hid, (leavesOthers_endTx m id).sessions id' hid]
  | execute id =>
      refine Or.inr (Or.inr ⟨id, ?_⟩)
      simp only [migrating] at h
      split at h
      · rename_i r hlife
        refine ⟨by simp [MigrationState.Running, hlife], ?_⟩
        split at h
        · simp only [Option.bind_eq_bind, Option.bind_eq_some_iff] at h
          rcases h with ⟨⟨s, a⟩, hserve, h⟩
          cases h
          exact hmoves (serve_sessions hserve)
        · cases h
      · rename_i r rest hlife
        refine ⟨by simp [MigrationState.Running, hlife], ?_⟩
        split at h
        · simp only [Option.bind_eq_bind, Option.bind_eq_some_iff] at h
          rcases h with ⟨⟨s, a⟩, hserve, h⟩
          cases h
          exact hmoves (serve_sessions hserve)
        · cases h
      · cases h
  | refuse id ran =>
      refine Or.inr (Or.inr ⟨id, ?_⟩)
      have hsame : ∀ r, ∀ id' ≠ id,
          (serveFailing files m id ran r).sessions id' = m.sessions id' := fun r =>
        (serveFailing_spec files m id ran r).1.sessions
      simp only [migrating] at h
      split at h
      · rename_i r hlife
        cases h
        exact ⟨by simp [MigrationState.Running, hlife], hmoves (hsame r)⟩
      · rename_i r rest hlife
        cases h
        exact ⟨by simp [MigrationState.Running, hlife], hmoves (hsame r)⟩
      · cases h
  | loseAnswer id =>
      refine Or.inr (Or.inr ⟨id, ?_⟩)
      simp only [migrating] at h
      split at h
      · rename_i r hlife
        refine ⟨by simp [MigrationState.Running, hlife], ?_⟩
        split at h
        · simp only [Option.bind_eq_bind, Option.bind_eq_some_iff] at h
          rcases h with ⟨⟨s, a⟩, hserve, h⟩
          cases h
          exact hmoves (serve_sessions hserve)
        · cases h
      · cases h
  | resume id =>
      refine Or.inr (Or.inr ⟨id, ?_⟩)
      simp only [migrating] at h
      split at h
      · rename_i r a hlife
        cases h
        exact ⟨by simp [MigrationState.Running, hlife], hmoves fun _ _ => rfl⟩
      · cases h
  | cancel id =>
      refine Or.inr (Or.inr ⟨id, ?_⟩)
      simp only [migrating] at h
      split at h
      · rename_i r _ hlife
        cases h
        exact ⟨by simp [MigrationState.Running, hlife], hmoves fun _ _ => rfl⟩
      · rename_i r a _ hlife
        cases h
        exact ⟨by simp [MigrationState.Running, hlife], hmoves fun _ _ => rfl⟩
      · cases h
  | crash id =>
      simp only [migrating] at h
      split at h
      · rename_i r hlife
        cases h
        exact Or.inr (Or.inr ⟨id, by simp [MigrationState.Running, hlife], hmoves fun _ _ => rfl⟩)
      · rename_i r a hlife
        cases h
        exact Or.inr (Or.inr ⟨id, by simp [MigrationState.Running, hlife], hmoves fun _ _ => rfl⟩)
      · rename_i rest hlife
        cases h
        cases rest with
        | nil =>
            refine Or.inr (Or.inl ⟨fun id' => ?_, rfl⟩)
            by_cases hid : id' = id
            · subst hid
              simp [MigrationState.goTo, hlife]
            · exact hmoves (fun _ _ => rfl) id' hid
        | cons r rest =>
            exact Or.inr (Or.inr ⟨id, by simp [MigrationState.Running, hlife],
              hmoves fun _ _ => rfl⟩)
      · cases h
      · cases h
  | replay id =>
      refine Or.inr (Or.inr ⟨id, ?_⟩)
      simp only [migrating] at h
      split at h
      · rename_i r _ hlife
        rcases Option.map_eq_some_iff.mp h with ⟨i, -, rfl⟩
        exact ⟨by simp [MigrationState.Running, hlife], hmoves (leavesOthers_endTx m id).sessions⟩
      · cases h

/-! ## The invariant -/

variable {creates : String → Bool} {named : List String} {s s' : InstallState} {l : InstallStep}

namespace InstallState

@[simp] theorem goTo_schemas (id : Nat) (phase : InstallPhase) :
    (s.goTo id phase).schemas = s.schemas := rfl

@[simp] theorem goTo_known (id : Nat) (phase : InstallPhase) :
    (s.goTo id phase).known = s.known := rfl

theorem goTo_self (id : Nat) (phase : InstallPhase) :
    (s.goTo id phase).processes id = { s.processes id with phase := phase } :=
  if_pos rfl

theorem goTo_ne {id id' : Nat} (phase : InstallPhase) (h : id' ≠ id) :
    (s.goTo id phase).processes id' = s.processes id' :=
  if_neg h

/-- A process keeps what it was configured with. -/
theorem goTo_config (id id' : Nat) (phase : InstallPhase) :
    ((s.goTo id phase).processes id').schema = (s.processes id').schema ∧
      ((s.goTo id phase).processes id').current = (s.processes id').current := by
  by_cases h : id' = id
  · subst h
    rw [goTo_self]
    exact ⟨rfl, rfl⟩
  · rw [goTo_ne phase h]
    exact ⟨rfl, rfl⟩

@[simp] theorem setSchema_processes (name : String) (m : MigrationState) :
    (s.setSchema name m).processes = s.processes := rfl

@[simp] theorem setSchema_known (name : String) (m : MigrationState) :
    (s.setSchema name m).known = s.known := rfl

theorem setSchema_self (name : String) (m : MigrationState) :
    (s.setSchema name m).schemas name = m :=
  if_pos rfl

theorem setSchema_ne {name name' : String} (m : MigrationState) (h : name' ≠ name) :
    (s.setSchema name m).schemas name' = s.schemas name' :=
  if_neg h

/-- The process has passed the check, and may create what its schema lacks. -/
def Underway (s : InstallState) (id : Nat) (name : String) : Prop :=
  (s.processes id).phase = .checked ∧ (s.processes id).current = some name ∧
    ((s.schemas name).sessions id).life ≠ .unwinding []

/-- While no schema holds the table, a process checks next to one that is underway in another
schema, and nobody has named either. -/
def Overlaps (creates : String → Bool) (named : List String) (s : InstallState) (id : Nat) : Prop :=
  s.found creates = [] ∧ ∃ name id' name', (s.processes id).current = some name ∧
    s.Underway id' name' ∧ name ≠ name' ∧ name ∉ named ∧ name' ∉ named

end InstallState

/-- What holds of every state. -/
structure InstallKept (files : List Migration) (creates : String → Bool) (s : InstallState) :
    Prop where
  /-- migrations run after the check, where the connection resolves to -/
  begun : ∀ name id, ((s.schemas name).sessions id).life ≠ .fresh →
    (s.processes id).phase = .checked ∧ (s.processes id).current = some name ∧ name ∈ s.known
  migrations : ∀ name, MigrationsKept .postgres files (s.schemas name)
  known : ∀ name, (s.schemas name).holdsTasks creates = true → name ∈ s.known
  wanted : ∀ id, (s.processes id).phase = .checked → ∀ wanted,
    (s.processes id).schema = some wanted → (s.processes id).current = some wanted

/-- Nobody is underway, and nothing is installed, but where somebody said so, and in one place. -/
structure OnePlace (creates : String → Bool) (named : List String) (place : String)
    (s : InstallState) : Prop where
  names : ∀ id wanted, (s.processes id).schema = some wanted → wanted ∈ named
  underway : ∀ id name, s.Underway id name → name ∈ named ∨ name = place
  holds : ∀ name, (s.schemas name).holdsTasks creates = true → name ∈ named ∨ name = place

theorem mem_found {name : String} :
    name ∈ s.found creates ↔ name ∈ s.known ∧ (s.schemas name).holdsTasks creates = true := by
  rw [InstallState.found, List.mem_insertionSort, List.mem_filter]

/-- The migrations of a schema that run are those of a process that is underway there. -/
theorem InstallKept.underway (h : InstallKept files creates s) {name : String} {id : Nat}
    (hruns : (s.schemas name).Running id) : s.Underway id name := by
  rcases h.begun name id hruns.1 with ⟨hphase, hcurrent, -⟩
  exact ⟨hphase, hcurrent, hruns.2⟩

/-- What a check can lead to. -/
theorem check_cases {id : Nat} (h : installing files creates s (.check id) = some s') :
    (s.processes id).phase = .connecting ∧
      ((s' = s.goTo id .checked ∧
        checkSchema (s.processes id).schema
          (installationRows (s.processes id).current (s.found creates)) = .ok ()) ∨
      ∃ mismatch, s' = s.goTo id (.refused mismatch)) := by
  simp only [installing] at h
  split at h
  · rename_i hphase
    refine ⟨hphase, ?_⟩
    split at h
    · rename_i hcheck
      cases h
      exact Or.inl ⟨rfl, hcheck⟩
    · rename_i mismatch _
      cases h
      exact Or.inr ⟨mismatch, rfl⟩
  · cases h

/-- What a step of the migrations can be. -/
theorem migrate_cases {name : String} (h : installing files creates s (.migrate name step) = some s') :
    s.allows name step = true ∧ ∃ m', migrating .postgres files (s.schemas name) step = some m' ∧
      s' = s.setSchema name m' := by
  simp only [installing] at h
  split at h
  · rename_i hallows
    rcases Option.map_eq_some_iff.mp h with ⟨m', hm', rfl⟩
    exact ⟨hallows, m', hm', rfl⟩
  · cases h

/-! ## Steps keep it -/

/-- A check changes where its process stands, and nothing else. -/
theorem InstallKept.goTo {id : Nat} {phase : InstallPhase} (h : InstallKept files creates s)
    (hphase : (s.processes id).phase = .connecting)
    (hwanted : phase = .checked → ∀ wanted, (s.processes id).schema = some wanted →
      (s.processes id).current = some wanted) : InstallKept files creates (s.goTo id phase) where
  begun name id' hlife := by
    rcases h.begun name id' hlife with ⟨hchecked, hcurrent, hknown⟩
    have hne : id' ≠ id := by
      rintro rfl
      cases hphase.symm.trans hchecked
    rw [s.goTo_ne phase hne]
    exact ⟨hchecked, hcurrent, hknown⟩
  migrations := h.migrations
  known := h.known
  wanted id' hchecked wanted hschema := by
    rw [(s.goTo_config id id' phase).1] at hschema
    rw [(s.goTo_config id id' phase).2]
    by_cases hid : id' = id
    · subst hid
      rw [s.goTo_self] at hchecked
      exact hwanted hchecked wanted hschema
    · rw [s.goTo_ne phase hid] at hchecked
      exact h.wanted id' hchecked wanted hschema

/-- Only a session that runs brings the table to its schema. -/
theorem holdsTasks_of_migrating (hstep : migrating .postgres files m step = some m')
    (hholds : m'.holdsTasks creates = true) :
    m.holdsTasks creates = true ∨ ∃ id, m.Running id := by
  have hsame : m'.applied = m.applied → m.holdsTasks creates = true := fun happlied => by
    rw [← hholds, MigrationState.holdsTasks, MigrationState.holdsTasks, happlied]
  rcases migrating_cases hstep with ⟨_, _, -, -, happlied, -⟩ | ⟨-, happlied⟩ | ⟨id, hruns, -⟩
  · exact Or.inl (hsame happlied)
  · exact Or.inl (hsame happlied)
  · exact Or.inr ⟨id, hruns⟩

/-- Nobody comes underway by a step of the migrations. -/
theorem underway_of_migrating {name : String}
    (hstep : migrating .postgres files (s.schemas name) step = some m') {id : Nat}
    {name' : String} (hunderway : (s.setSchema name m').Underway id name') :
    s.Underway id name' := by
  rcases hunderway with ⟨hphase, hcurrent, hlife⟩
  refine ⟨hphase, hcurrent, fun hended => hlife ?_⟩
  by_cases hname : name' = name
  · subst hname
    rw [s.setSchema_self]
    rcases migrating_cases hstep with ⟨id', _, -, hfresh, -, hsame⟩ | ⟨hsame, -⟩ |
      ⟨id', hruns, hsame⟩
    · rw [hsame id (fun hid => by subst hid; cases hfresh.symm.trans hended)]
      exact hended
    · rw [hsame id]
      exact hended
    · rw [hsame id (fun hid => by subst hid; exact hruns.2 hended)]
      exact hended
  · rw [s.setSchema_ne m' hname]
    exact hended

theorem InstallKept.migrate {name : String} (hdistinct : (files.map Migration.name).Nodup)
    (h : InstallKept files creates s) (hallows : s.allows name step = true)
    (hstep : migrating .postgres files (s.schemas name) step = some m') :
    InstallKept files creates (s.setSchema name m') where
  begun name' id hlife := by
    by_cases hname : name' = name
    · subst hname
      rw [s.setSchema_self] at hlife
      by_cases hfresh : ((s.schemas name').sessions id).life = .fresh
      · -- only its start ends that
        rcases migrating_cases hstep with ⟨id', sdk, rfl, -, -, hsame⟩ | ⟨hsame, -⟩ |
          ⟨id', hruns, hsame⟩
        · have hid : id = id' := by
            by_contra hne
            exact hlife ((hsame id hne).trans hfresh)
          subst hid
          simp only [InstallState.allows, Bool.and_eq_true, decide_eq_true_eq] at hallows
          exact ⟨hallows.1.1.1, hallows.1.1.2, hallows.2⟩
        · exact absurd ((hsame id).trans hfresh) hlife
        · have hne : id ≠ id' := by
            rintro rfl
            exact hruns.1 hfresh
          exact absurd ((hsame id hne).trans hfresh) hlife
      · exact h.begun name' id hfresh
    · rw [s.setSchema_ne m' hname] at hlife
      exact h.begun name' id hlife
  migrations name' := by
    by_cases hname : name' = name
    · subst hname
      rw [s.setSchema_self]
      exact migrationsKept_of_step hdistinct (h.migrations name') hstep
    · rw [s.setSchema_ne m' hname]
      exact h.migrations name'
  known name' hholds := by
    by_cases hname : name' = name
    · subst hname
      rw [s.setSchema_self] at hholds
      rcases holdsTasks_of_migrating hstep hholds with hold | ⟨id, hruns⟩
      · exact h.known name' hold
      · exact (h.begun name' id hruns.1).2.2
    · rw [s.setSchema_ne m' hname] at hholds
      exact h.known name' hholds
  wanted := h.wanted

theorem InstallKept.of_step (hdistinct : (files.map Migration.name).Nodup)
    (h : InstallKept files creates s) (hstep : installing files creates s l = some s') :
    InstallKept files creates s' := by
  cases l with
  | check id =>
      rcases check_cases hstep with ⟨hphase, ⟨rfl, hcheck⟩ | ⟨mismatch, rfl⟩⟩
      · refine h.goTo hphase fun _ wanted hschema => ?_
        rw [checkSchema_installations, hschema] at hcheck
        exact hcheck
      · exact h.goTo hphase fun hchecked => by cases hchecked
  | migrate name step =>
      rcases migrate_cases hstep with ⟨hallows, m', hm', rfl⟩
      exact h.migrate hdistinct hallows hm'

/-- A process that does not pass changes nothing. -/
theorem OnePlace.goTo {place : String} {id : Nat} {phase : InstallPhase}
    (h : OnePlace creates named place s)
    (hplace : phase = .checked → ∀ name, (s.processes id).current = some name →
      name ∈ named ∨ name = place) : OnePlace creates named place (s.goTo id phase) where
  names id' wanted hschema := by
    rw [(s.goTo_config id id' phase).1] at hschema
    exact h.names id' wanted hschema
  underway id' name hunderway := by
    rcases hunderway with ⟨hchecked, hcurrent, hlife⟩
    rw [(s.goTo_config id id' phase).2] at hcurrent
    by_cases hid : id' = id
    · subst hid
      rw [s.goTo_self] at hchecked
      exact hplace hchecked name hcurrent
    · rw [s.goTo_ne phase hid] at hchecked
      exact h.underway id' name ⟨hchecked, hcurrent, hlife⟩
  holds := h.holds

/-- A check that does not overlap with another keeps to one place. -/
theorem OnePlace.check {place : String} {id : Nat} (hkept : InstallKept files creates s)
    (h : OnePlace creates named place s) (hguard : ¬s.Overlaps creates named id)
    (hcheck : checkSchema (s.processes id).schema
      (installationRows (s.processes id).current (s.found creates)) = .ok ()) :
    ∃ place', OnePlace creates named place' (s.goTo id .checked) := by
  rw [checkSchema_installations] at hcheck
  cases hcurrent : (s.processes id).current with
  | none => exact ⟨place, h.goTo fun _ name hname => by cases hcurrent.symm.trans hname⟩
  | some name =>
      by_cases hin : name ∈ named ∨ name = place
      · refine ⟨place, h.goTo fun _ name' hname' => ?_⟩
        cases hcurrent.symm.trans hname'
        exact hin
      · rw [not_or] at hin
        have hschema : (s.processes id).schema = none := by
          cases hschema : (s.processes id).schema with
          | none => rfl
          | some wanted =>
              rw [hschema] at hcheck
              cases hcurrent.symm.trans hcheck
              exact absurd (h.names id name hschema) hin.1
        rw [hschema] at hcheck
        have hempty : s.found creates = [] := by
          refine (hcheck name hcurrent).resolve_right fun hmem => ?_
          exact absurd (h.holds name (mem_found.mp hmem).2) (not_or.mpr hin)
        -- it is the first, and everybody who is underway is where it is
        refine ⟨name, OnePlace.goTo ⟨h.names, fun id' name' hunderway => ?_, fun name' hholds => ?_⟩
          fun _ name' hname' => Or.inr (Option.some.inj (hname'.symm.trans hcurrent))⟩
        · by_cases hnamed : name' ∈ named
          · exact Or.inl hnamed
          · by_contra hother
            exact hguard ⟨hempty, name, id', name', hcurrent, hunderway,
              fun hsame => hother (Or.inr hsame.symm), hin.1, hnamed⟩
        · have hmem := mem_found.mpr ⟨hkept.known name' hholds, hholds⟩
          rw [hempty] at hmem
          cases hmem

theorem OnePlace.of_step (hkept : InstallKept files creates s)
    (h : ∃ place, OnePlace creates named place s)
    (hguard : ∀ id, l = .check id → ¬s.Overlaps creates named id)
    (hstep : installing files creates s l = some s') :
    ∃ place, OnePlace creates named place s' := by
  rcases h with ⟨place, h⟩
  cases l with
  | check id =>
      rcases check_cases hstep with ⟨-, ⟨rfl, hcheck⟩ | ⟨mismatch, rfl⟩⟩
      · exact h.check hkept (hguard id rfl) hcheck
      · exact ⟨place, h.goTo fun hchecked => by cases hchecked⟩
  | migrate name step =>
      rcases migrate_cases hstep with ⟨-, m', hm', rfl⟩
      refine ⟨place, h.names, fun id name' hunderway =>
        h.underway id name' (underway_of_migrating hm' hunderway), fun name' hholds => ?_⟩
      by_cases hname : name' = name
      · subst hname
        rw [s.setSchema_self] at hholds
        rcases holdsTasks_of_migrating hm' hholds with hold | ⟨id, hruns⟩
        · exact h.holds name' hold
        · exact h.underway id name' (hkept.underway hruns)
      · rw [s.setSchema_ne m' hname] at hholds
        exact h.holds name' hholds

/-! ## The result -/

/-- A database some of whose schemas have their first files already, and processes that are about
to connect. -/
def InstallState.start (files : List Migration) (known : List String) (upTo : String → Nat)
    (processes : Nat → Installer) : InstallState where
  known := known
  schemas name := .upTo files (if name ∈ known then upTo name else 0)
  processes id := { processes id with phase := .connecting }

variable {known : List String} {upTo : String → Nat} {processes : Nat → Installer}

theorem InstallState.start_schemas (name : String) :
    (InstallState.start files known upTo processes).schemas name =
      .upTo files (if name ∈ known then upTo name else 0) := rfl

theorem migrationsKept_upTo {d : Dialect} (n : Nat) : MigrationsKept d files (.upTo files n) := by
  have hlength : (MigrationState.upTo files n).recorded.length = min n files.length := by
    simp [MigrationState.upTo]
  refine ⟨⟨by omega, ?_, ?_⟩, fun id => rfl⟩ <;>
    rw [hlength, ← List.take_eq_take_min] <;> rfl

theorem InstallKept.start :
    InstallKept files creates (.start files known upTo processes) where
  begun _ _ hlife := absurd rfl hlife
  migrations _ := migrationsKept_upTo _
  known name hholds := by
    by_contra hnot
    have hunknown : name ∉ known := hnot
    rw [InstallState.start_schemas, if_neg hunknown] at hholds
    cases hholds
  wanted _ hchecked := by cases hchecked

/-- In a schema to which somebody has connected the table is there. -/
theorem holdsTasks_of_connected {id : Nat} (h : MigrationsKept .postgres files m)
    (hcreates : ∃ file ∈ files, ∃ st ∈ file.script, creates st = true)
    (hlife : (m.sessions id).life = .connected) : m.holdsTasks creates = true := by
  have hown := h.sessions id
  rw [SessionKept, hlife] at hown
  have hall : files.length ≤ m.recorded.length := hown
  rcases hcreates with ⟨file, hfile, st, hst, hcreating⟩
  rw [MigrationState.holdsTasks, h.record.applied, List.take_of_length_le hall, List.any_eq_true]
  exact ⟨(file.name, st), List.mem_flatMap.mpr ⟨file, hfile, List.mem_map.mpr ⟨st, hst, rfl⟩⟩,
    hcreating⟩

/-- Two processes whose search paths differ. -/
def splitProcesses (id : Nat) : Installer where
  sdk := if id = 0 then .python else .node
  schema := none
  current := if id = 0 then some "app" else some "public"
  phase := .connecting

/-- One file. -/
def initFile : Migration where
  name := "0001_init.sql"
  script := ["create table"]

/-- Their directory. -/
def oneFile : MigrationDir where
  files := [initFile]
  distinct := by decide

theorem loadMigrations_oneFile : loadMigrations oneFile = [initFile] := by
  have hsql : initFile.name.endsWith ".sql" = true := by decide +kernel
  simp [loadMigrations, oneFile, hsql]

/-- A process brings its schema up to date. -/
def bringUp (name : String) (id : Nat) (sdk : Sdk) : List InstallStep :=
  .migrate name (.start id sdk) ::
    (List.replicate 7 [InstallStep.migrate name (.execute id), .migrate name (.resume id)]).flatten

/-- Both check before either has created anything. -/
def splitRun : List InstallStep :=
  [.check 0, .check 1] ++ bringUp "app" 0 .python ++ bringUp "public" 1 .node

end CairnQ
