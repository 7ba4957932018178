import CairnQ.Protocol.Execution
import CairnQ.Transition.Machine
import CairnQ.Transition.Slots

/-!
# The protocol version guard

How the operations of a SQLite store come by its connection, and where the protocol
version is checked.  An operation that finds no connection opens one, publishes it, and
only then reads `protocol_version` and compares; an operation that finds a connection
goes on to its statement.  In Python the opening is shared under a lock and takes
several turns; in TypeScript `ensure` does all of it in one.

Opening the file is taken to succeed, and `close()` to come between operations.

Main results:

- Theorem `Refused.of_step`: over a database of another version, an operation that opens
  the connection itself is refused.
- Theorem `version_guard`: so nothing is executed and every operation ends refused in
  runs in which every operation does.
- Theorem `executes_of_found`: an operation that finds a connection executes its
  statement, checked or not.
-/

namespace CairnQ

open Transition

/-- `SUPPORTED_PROTOCOL_MAJOR`. -/
def supportedProtocolMajor : Int := 1

/-- How an operation ends: with what its statement gave, or `ProtocolVersionMismatch`. -/
inductive OpOutcome
  | result
  | versionMismatch
deriving DecidableEq, Repr

/-- Where an operation stands: it awaits the init lock, opens a connection, awaits the
read of the version, is past `_ensure`, or is over. -/
inductive OpPhase
  | waiting
  | opening
  | checking
  | admitted
  | ended (outcome : OpOutcome)
deriving DecidableEq, Repr

/-- The operation holds the init lock. -/
def OpPhase.holdsLock : OpPhase → Bool
  | .opening | .checking => true
  | _ => false

/-- The turns an operation may still need. -/
def OpPhase.turns : OpPhase → Nat
  | .waiting => 4
  | .opening => 3
  | .checking => 2
  | .admitted => 1
  | .ended _ => 0

/-- An operation and the statement it is made for. -/
structure GuardedOperation where
  statement : String
  phase : OpPhase
deriving DecidableEq, Repr

/-- A store, whether it has published a connection, its operations, and the statements
executed through it. -/
structure GuardedStore where
  conn : Bool
  operations : List GuardedOperation
  executed : List String
deriving DecidableEq, Repr

namespace GuardedStore

/-- A store nobody has used. -/
def fresh : GuardedStore where
  conn := false
  operations := []
  executed := []

/-- `check_protocol_version`. -/
def checkProtocolVersion (version : Int) : OpPhase :=
  if version = supportedProtocolMajor then .admitted else .ended .versionMismatch

/-- A new operation in a phase. -/
def enter (s : GuardedStore) (statement : String) (phase : OpPhase) : GuardedStore :=
  { s with operations := s.operations ++ [{ statement := statement, phase := phase }] }

/-- An operation goes to another phase. -/
def setPhase (s : GuardedStore) (i : Nat) (op : GuardedOperation) (phase : OpPhase) :
    GuardedStore :=
  { s with operations := s.operations.set i { op with phase := phase } }

/-- `_ensure` of a new operation, up to its first suspension. -/
def ensure (sdk : Sdk) (version : Int) (s : GuardedStore) (statement : String) : GuardedStore :=
  if s.conn then s.enter statement .admitted
  else match sdk with
    | .python => s.enter statement .waiting
    | .node =>
        { s with conn := true, executed := s.executed ++ ["protocol_version"] }.enter statement
          (checkProtocolVersion version)

/-- Nobody holds the init lock. -/
def lockFree (s : GuardedStore) : Bool :=
  s.operations.all fun op => !op.phase.holdsLock

/-- No operation is under way. -/
def idle (s : GuardedStore) : Bool :=
  s.operations.all fun op => decide (op.phase.turns = 0)

/-- The turns all operations may still need. -/
def turns (s : GuardedStore) : Nat :=
  (s.operations.map fun op => op.phase.turns).sum

end GuardedStore

/-- A label: an operation starts, takes its next turn, or the store is closed. -/
inductive GuardStep
  | call (statement : String)
  | turn (i : Nat)
  | close
deriving DecidableEq, Repr

/-- Operations over a database with the given `protocol_version`. -/
def guardedStore (sdk : Sdk) (version : Int) : Machine GuardedStore GuardStep := fun s l =>
  match l with
  | .call statement => some (s.ensure sdk version statement)
  | .turn i => match s.operations[i]? with
    | some op => match op.phase with
      | .waiting =>
          if s.lockFree then some (s.setPhase i op (if s.conn then .admitted else .opening))
          else none
      | .opening => some ({ s with conn := true }.setPhase i op .checking)
      | .checking =>
          some ({ s with executed := s.executed ++ ["protocol_version"] }.setPhase i op
            (GuardedStore.checkProtocolVersion version))
      | .admitted =>
          some ({ s with executed := s.executed ++ [op.statement] }.setPhase i op (.ended .result))
      | .ended _ => none
    | none => none
  | .close => if s.idle then some { s with conn := false } else none

/-- The label starts an operation. -/
def GuardStep.isCall : GuardStep → Bool
  | .call _ => true
  | _ => false

/-- Every operation starts when no connection is published and no other operation is about to
publish one. -/
def OpensItself (s : GuardedStore) (l : GuardStep) : Prop :=
  l.isCall = true → s.conn = false ∧ s.idle = true

instance (s : GuardedStore) (l : GuardStep) : Decidable (OpensItself s l) :=
  inferInstanceAs (Decidable (_ → _))

/-! ## Turns -/

namespace GuardedStore

variable {sdk : Sdk} {version : Int} {s s' : GuardedStore}

theorem turns_setPhase_lt {i : Nat} {op : GuardedOperation} (hop : s.operations[i]? = some op)
    {phase : OpPhase} (hlt : phase.turns < op.phase.turns) :
    (s.setPhase i op phase).turns < s.turns := by
  have hsum : (s.setPhase i op phase).turns + op.phase.turns = s.turns + phase.turns :=
    sum_map_set (fun op => op.phase.turns) hop { op with phase := phase }
  omega

/-- A turn of an operation is one less to take. -/
theorem turns_lt_of_turn {i : Nat} (hstep : guardedStore sdk version s (.turn i) = some s') :
    s'.turns < s.turns := by
  simp only [guardedStore] at hstep
  split at hstep
  · rename_i op hop
    split at hstep <;> rename_i hphase
    · split at hstep
      · cases hstep
        refine turns_setPhase_lt hop ?_
        rw [hphase]
        split <;> decide
      · cases hstep
    · cases hstep
      refine turns_setPhase_lt (s := { s with conn := true }) hop ?_
      rw [hphase]
      decide
    · cases hstep
      refine turns_setPhase_lt
        (s := { s with executed := s.executed ++ ["protocol_version"] }) hop ?_
      rw [hphase]
      unfold checkProtocolVersion
      split <;> decide
    · cases hstep
      refine turns_setPhase_lt (s := { s with executed := s.executed ++ [op.statement] }) hop ?_
      rw [hphase]
      decide
    · cases hstep
  · cases hstep

/-! ## Refusal -/

/-- The phases of an operation that opens the connection over a database it will refuse. -/
def Alone (s : GuardedStore) : OpPhase → Prop
  | .waiting => s.conn = false
  | .opening | .checking => True
  | .admitted | .ended _ => False

/-- Nothing but version reads was executed; every operation was refused, but for one that opens the
connection now. -/
structure Refused (s : GuardedStore) : Prop where
  executed : ∀ statement ∈ s.executed, statement = "protocol_version"
  refused : ∃ past, (∀ op ∈ past, op.phase = .ended .versionMismatch) ∧
    (s.operations = past ∨ ∃ op, s.operations = past ++ [op] ∧ s.Alone op.phase)

theorem Refused.fresh : fresh.Refused where
  executed := by
    intro statement h
    cases h
  refused := ⟨[], by simp, Or.inl rfl⟩

theorem checkProtocolVersion_of_ne (hversion : version ≠ supportedProtocolMajor) :
    checkProtocolVersion version = .ended .versionMismatch :=
  if_neg hversion

/-- With no operation under way, all of them were refused. -/
theorem Refused.of_idle (h : s.Refused) (hidle : s.idle = true) :
    ∀ op ∈ s.operations, op.phase = .ended .versionMismatch := by
  rcases h.refused with ⟨past, hpast, hops | ⟨op, hops, halone⟩⟩
  · rwa [hops]
  · have hop : op.phase.turns = 0 := by
      have hmem : op ∈ s.operations := by simp [hops]
      simpa using List.all_eq_true.mp hidle op hmem
    cases hphase : op.phase with
    | ended outcome => simp [hphase, Alone] at halone
    | _ => simp [hphase, OpPhase.turns] at hop

/-- The operation under way takes its turn. -/
theorem Refused.turn {t : GuardedStore} {past : List GuardedOperation} {op : GuardedOperation}
    {phase : OpPhase}
    (hexecuted : ∀ statement ∈ t.executed, statement = "protocol_version")
    (hpast : ∀ op ∈ past, op.phase = .ended .versionMismatch)
    (hops : t.operations = past ++ [op])
    (hphase : phase = .ended .versionMismatch ∨ t.Alone phase) :
    (t.setPhase past.length op phase).Refused where
  executed := hexecuted
  refused := by
    have hset : (t.setPhase past.length op phase).operations =
        past ++ [{ op with phase := phase }] := by
      simp [setPhase, hops]
    rcases hphase with rfl | halone
    · refine ⟨past ++ [{ op with phase := .ended .versionMismatch }], ?_, Or.inl hset⟩
      intro op' hop'
      rcases List.mem_append.mp hop' with hold | hnew
      · exact hpast op' hold
      · rw [List.mem_singleton.mp hnew]
    · exact ⟨past, hpast, Or.inr ⟨_, hset, by cases phase <;> exact halone⟩⟩

/-- Only an operation under way takes a turn. -/
theorem phase_of_turn {i : Nat} (hstep : guardedStore sdk version s (.turn i) = some s') :
    ∃ op, s.operations[i]? = some op ∧ ∀ outcome, op.phase ≠ .ended outcome := by
  simp only [guardedStore] at hstep
  split at hstep
  · rename_i op hop
    refine ⟨op, hop, fun outcome hphase => ?_⟩
    rw [hphase] at hstep
    cases hstep
  · cases hstep

/-- Over a database of another version, an operation that opens the connection itself is
refused. -/
theorem Refused.of_step (hversion : version ≠ supportedProtocolMajor) {l : GuardStep}
    (h : s.Refused) (hguard : OpensItself s l) (hstep : guardedStore sdk version s l = some s') :
    s'.Refused := by
  cases l with
  | call statement =>
      cases hstep
      rcases hguard rfl with ⟨hconn, hidle⟩
      have hpast := h.of_idle hidle
      unfold ensure
      rw [hconn, if_neg (by decide)]
      cases sdk with
      | python => exact ⟨h.executed, s.operations, hpast, Or.inr ⟨_, rfl, hconn⟩⟩
      | node =>
          rw [checkProtocolVersion_of_ne hversion]
          refine ⟨?_, _, ?_, Or.inl rfl⟩
          · intro statement' hmem
            rcases List.mem_append.mp hmem with hold | hnew
            · exact h.executed statement' hold
            · exact List.mem_singleton.mp hnew
          · intro op hop
            rcases List.mem_append.mp hop with hold | hnew
            · exact hpast op hold
            · rw [List.mem_singleton.mp hnew]
  | turn i =>
      rcases phase_of_turn hstep with ⟨op', hop', hunder⟩
      rcases h.refused with ⟨past, hpast, hops | ⟨op, hops, halone⟩⟩
      · rw [hops] at hop'
        exact absurd (hpast op' (List.mem_of_getElem? hop')) (hunder _)
      · -- the one operation under way is the last
        have hlast : i = past.length ∧ op' = op := by
          rw [hops] at hop'
          rcases cases_getElem?_concat hop' with hlast | hold
          · exact hlast
          · exact absurd (hpast op' (List.mem_of_getElem? hold)) (hunder _)
        rcases hlast with ⟨rfl, rfl⟩
        simp only [guardedStore, hop'] at hstep
        split at hstep <;> rename_i hphase
        · rw [hphase] at halone
          split at hstep
          · cases hstep
            rw [show s.conn = false from halone, if_neg (by decide)]
            exact Refused.turn h.executed hpast hops (Or.inr trivial)
          · cases hstep
        · cases hstep
          exact Refused.turn (t := { s with conn := true }) h.executed hpast hops (Or.inr trivial)
        · cases hstep
          refine Refused.turn (t := { s with executed := s.executed ++ ["protocol_version"] }) ?_
            hpast hops (Or.inl (checkProtocolVersion_of_ne hversion))
          intro statement hmem
          rcases List.mem_append.mp hmem with hold | hnew
          · exact h.executed statement hold
          · exact List.mem_singleton.mp hnew
        · rw [hphase] at halone
          cases halone
        · cases hstep
  | close =>
      simp only [guardedStore] at hstep
      split at hstep
      · rename_i hidle
        cases hstep
        exact ⟨h.executed, s.operations, h.of_idle hidle, Or.inl rfl⟩
      · cases hstep

/-- The operation under way can take its turn. -/
theorem Refused.exists_turn (h : s.Refused) {op : GuardedOperation} (hop : op ∈ s.operations)
    (hunder : op.phase.turns ≠ 0) :
    ∃ i s', guardedStore sdk version s (.turn i) = some s' := by
  rcases h.refused with ⟨past, hpast, hops | ⟨last, hops, halone⟩⟩
  · rw [hops] at hop
    rw [hpast op hop] at hunder
    exact absurd rfl hunder
  · refine ⟨past.length, ?_⟩
    have hlast : s.operations[past.length]? = some last := by simp [hops]
    simp only [guardedStore, hlast]
    cases hphase : last.phase with
    | waiting =>
        have hfree : s.lockFree = true := by
          simp only [lockFree, hops, List.all_append, List.all_cons, List.all_nil, hphase]
          simp only [Bool.and_eq_true, List.all_eq_true]
          refine ⟨fun op' hop' => ?_, rfl, trivial⟩
          rw [hpast op' hop']
          rfl
        simp [hfree]
    | opening => exact ⟨_, rfl⟩
    | checking => exact ⟨_, rfl⟩
    | admitted => simp [hphase, Alone] at halone
    | ended outcome => simp [hphase, Alone] at halone

end GuardedStore

/-! ## The guard -/

/-- Over a database whose version is not the supported one, in a run in which every operation starts
when no connection is published or about to be: no statement but the version read is executed,
and every operation ends refused, after finitely many turns of its own. -/
theorem version_guard {sdk : Sdk} {version : Int} (hversion : version ≠ supportedProtocolMajor)
    {s : GuardedStore} (hreach : (guardedStore sdk version).Reachable OpensItself .fresh s) :
    (∀ statement ∈ s.executed, statement = "protocol_version") ∧
      (∀ op ∈ s.operations, op.phase.turns = 0 → op.phase = .ended .versionMismatch) ∧
      ((∃ op ∈ s.operations, op.phase.turns ≠ 0) →
        ∃ i s', guardedStore sdk version s (.turn i) = some s' ∧ s'.turns < s.turns) := by
  have hrefused : s.Refused :=
    hreach.invariant (fun _ _ _ h hguard hstep => h.of_step hversion hguard hstep) .fresh
  refine ⟨hrefused.executed, fun op hop hover => ?_, ?_⟩
  · rcases hrefused.refused with ⟨past, hpast, hops | ⟨last, hops, halone⟩⟩
    · exact hpast op (hops ▸ hop)
    · rw [hops, List.mem_append, List.mem_singleton] at hop
      rcases hop with hop | rfl
      · exact hpast op hop
      · cases hphase : op.phase with
        | ended outcome => simp [hphase, GuardedStore.Alone] at halone
        | _ => simp [hphase, OpPhase.turns] at hover
  · rintro ⟨op, hop, hunder⟩
    rcases hrefused.exists_turn hop hunder with ⟨i, s', hstep⟩
    exact ⟨i, s', hstep, GuardedStore.turns_lt_of_turn hstep⟩

/-- Two operations, the store closed in between. -/
def reopenedRun : List GuardStep :=
  [.call "insert_task", .turn 0, .turn 0, .turn 0, .close, .call "stats", .turn 1]

theorem version_guard_reopenedRun :
    let s := (guardedStore .python 2).drive .fresh reopenedRun
    (∀ statement ∈ s.executed, statement = "protocol_version") ∧
      (∀ op ∈ s.operations, op.phase.turns = 0 → op.phase = .ended .versionMismatch) ∧
      ((∃ op ∈ s.operations, op.phase.turns ≠ 0) →
        ∃ i s', guardedStore .python 2 s (.turn i) = some s' ∧ s'.turns < s.turns) :=
  version_guard (by decide) (Machine.reachable_of_admits (by decide))

/-- An operation that finds a connection executes its statement, whatever the version. -/
theorem executes_of_found {sdk : Sdk} {version : Int} {s : GuardedStore} (hconn : s.conn = true)
    (statement : String) :
    ∃ s', (guardedStore sdk version).Steps anyStep s
      [.call statement, .turn s.operations.length] s' ∧ statement ∈ s'.executed := by
  have hcalled : guardedStore sdk version s (.call statement) =
      some (s.enter statement .admitted) := by
    simp [guardedStore, GuardedStore.ensure, hconn]
  have hturn : guardedStore sdk version (s.enter statement .admitted)
      (.turn s.operations.length) =
      some ({ s.enter statement .admitted with executed := s.executed ++ [statement] }.setPhase
        s.operations.length { statement := statement, phase := .admitted } (.ended .result)) := by
    simp [guardedStore, GuardedStore.enter]
  exact ⟨_, .cons trivial hcalled (.single trivial hturn), by simp [GuardedStore.setPhase]⟩

/-- The second operation on a database of version 2 executes its statement, in both SDKs. -/
theorem version_guard_fails :
    (∃ s : GuardedStore, (guardedStore .python 2).Reachable anyStep .fresh s ∧
      "insert_task" ∈ s.executed ∧
      s.operations[1]? = some { statement := "insert_task", phase := .ended .result }) ∧
    ∃ s : GuardedStore, (guardedStore .node 2).Reachable anyStep .fresh s ∧
      "insert_task" ∈ s.executed ∧
      s.operations[1]? = some { statement := "insert_task", phase := .ended .result } := by
  have hdriven : ∀ sdk, (guardedStore sdk 2).Reachable anyStep .fresh _ := fun sdk =>
    Machine.reachable_drive (guardedStore sdk 2) .fresh
      [.call "stats", .turn 0, .turn 0, .turn 0, .call "insert_task", .turn 1]
      fun _ _ _ => trivial
  exact ⟨⟨_, hdriven .python, by decide⟩, ⟨_, hdriven .node, by decide⟩⟩

end CairnQ
