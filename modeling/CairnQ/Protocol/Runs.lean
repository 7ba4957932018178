import CairnQ.Protocol.Effects
import CairnQ.Transition.Machine

/-!
# Runs of the protocol

The protocol as a machine: a state is a database and the last clock reading, a
label is one executed statement.  Statements read the clock once each and the
readings never go back; any process may execute any statement next.

Main results:

- Theorem `get_of_step`: what one executed statement did to the row under an id.
- Theorem `rows_invariant`: a property of single rows that inserts establish and
  effects keep holds of every row of every reachable database.
-/

namespace CairnQ

open Relational Transition

variable {J : Type}

/-- A database and the last reading of the clock. -/
structure ProtocolState (J : Type) where
  clockMs : Int
  db : Database J

/-- One statement being executed: its clock reading and the rows that other
transactions hold meanwhile. -/
structure Execution (J : Type) where
  nowMs : Int
  held : String → Bool
  statement : Statement J

/-- What an execution replies. -/
def Execution.reply (d : Dialect) (db : Database J) (e : Execution J) : Reply J :=
  (exec d e.held e.nowMs e.statement db).2

/-- The protocol over one database: any statement, at any later clock reading. -/
def protocol (d : Dialect) : Machine (ProtocolState J) (Execution J) := fun s e =>
  if s.clockMs ≤ e.nowMs then
    some { clockMs := e.nowMs, db := (exec d e.held e.nowMs e.statement s.db).1 }
  else none

/-- A fresh database at some clock reading. -/
def ProtocolState.fresh (clockMs : Int) : ProtocolState J where
  clockMs := clockMs
  db := Database.empty

theorem protocol_eq_some_iff {d : Dialect} {s s' : ProtocolState J} {e : Execution J} :
    protocol d s e = some s' ↔ s.clockMs ≤ e.nowMs ∧
      s' = { clockMs := e.nowMs, db := (exec d e.held e.nowMs e.statement s.db).1 } := by
  simp [protocol, eq_comm]

/-! ## One step -/

/-- A row after one executed statement is untouched, the result of an effect on the old
row, or freshly inserted under a free id; the reply names it in the last two cases. -/
theorem get_of_step {d : Dialect} {s s' : ProtocolState J} {e : Execution J}
    (hstep : protocol d s e = some s') {id : String} {t' : Task J}
    (ht' : s'.db.get id = some t') :
    (s.db.get id = some t' ∧ (e.reply d s.db).names id = false) ∨
      (∃ t, s.db.get id = some t ∧ Effect e.nowMs e.statement t t' ∧
        (e.reply d s.db).names id = true) ∨
      (s.db.get id = none ∧ e.statement.inserts e.nowMs t' ∧
        (e.reply d s.db).names id = true) := by
  rcases protocol_eq_some_iff.mp hstep with ⟨-, rfl⟩
  rw [Execution.reply, exec_eq]
  rw [exec_eq] at ht'
  exact Postgres.exec_get_some ht'

/-- A row that was in the table before is untouched or the result of an effect. -/
theorem get_of_step_of_get {d : Dialect} {s s' : ProtocolState J} {e : Execution J}
    (hstep : protocol d s e = some s') {id : String} {t t' : Task J}
    (ht : s.db.get id = some t) (ht' : s'.db.get id = some t') :
    (t' = t ∧ (e.reply d s.db).names id = false) ∨
      (Effect e.nowMs e.statement t t' ∧ (e.reply d s.db).names id = true) := by
  rcases get_of_step hstep ht' with ⟨h, hnames⟩ | ⟨r, hr, heff, hnames⟩ | ⟨hnone, -⟩
  · rw [ht] at h
    exact Or.inl ⟨(Option.some.inj h).symm, hnames⟩
  · rw [ht] at hr
    cases hr
    exact Or.inr ⟨heff, hnames⟩
  · rw [ht] at hnone
    cases hnone

/-- A row leaves the table only through a purge that selects it. -/
theorem get_none_of_step {d : Dialect} {s s' : ProtocolState J} {e : Execution J}
    (hstep : protocol d s e = some s') {id : String} {t : Task J}
    (ht : s.db.get id = some t) (ht' : s'.db.get id = none) :
    ∃ olderThanMs queue status name limit,
      e.statement = .purge olderThanMs queue status name limit ∧
        purgeable (e.nowMs - olderThanMs) queue status name t = true := by
  rcases protocol_eq_some_iff.mp hstep with ⟨-, rfl⟩
  rw [exec_eq] at ht'
  rcases Postgres.exec_get_none ht ht' with ⟨olderThanMs, queue, status, name, limit, hst, hp, -⟩
  exact ⟨olderThanMs, queue, status, name, limit, hst, hp⟩

/-- A returned row is in the table afterwards; it is the result of an effect on the row
before, or freshly inserted. -/
theorem get_of_mem_rows {d : Dialect} {s s' : ProtocolState J} {e : Execution J}
    (hstep : protocol d s e = some s') {t' : Task J} (ht' : t' ∈ (e.reply d s.db).rows) :
    s'.db.get t'.id = some t' ∧
      ((∃ t, s.db.get t'.id = some t ∧ Effect e.nowMs e.statement t t') ∨
        (s.db.get t'.id = none ∧ e.statement.inserts e.nowMs t')) := by
  rcases protocol_eq_some_iff.mp hstep with ⟨-, rfl⟩
  rw [Execution.reply, exec_eq] at ht'
  simp only [exec_eq]
  rcases Postgres.exec_rows ht' with ⟨hget, ⟨t, ht, -, heff⟩ | hins⟩
  · exact ⟨hget, Or.inl ⟨t, ht, heff⟩⟩
  · exact ⟨hget, Or.inr hins⟩

/-! ## Whole runs -/

/-- A property of single rows that inserts establish and effects keep holds of every row
of every reachable database. -/
theorem rows_invariant {P : Task J → Prop}
    (hinsert : ∀ nowMs (st : Statement J) t, st.inserts nowMs t → P t)
    (heffect : ∀ nowMs (st : Statement J) t t', P t → Effect nowMs st t t' → P t')
    {d : Dialect} {clockMs : Int} {s : ProtocolState J}
    (hreach : (protocol d).Reachable anyStep (ProtocolState.fresh clockMs) s) :
    ∀ id t, s.db.get id = some t → P t := by
  refine hreach.invariant (I := fun s => ∀ id t, s.db.get id = some t → P t) ?_ ?_
  · intro s e s' hrows _ hstep id t' ht'
    rcases get_of_step hstep ht' with ⟨h, -⟩ | ⟨t, ht, heff, -⟩ | ⟨-, hins, -⟩
    · exact hrows id t' h
    · exact heffect _ _ _ _ (hrows id t ht) heff
    · exact hinsert _ _ _ hins
  · intro id t ht
    cases ht

/-! ## Concrete runs -/

/-- A submission that leaves every optional parameter at its default. -/
def NewTask.plain (id name : String) (maxAttempts : Int) (payload : J) : NewTask J where
  id := id
  name := name
  queue := "default"
  payload := payload
  metadata := payload
  maxAttempts := maxAttempts
  priority := 0
  delayMs := 0
  parentId := none
  rootId := none
  correlationId := none

/-- Execute a statement while no other transaction is open. -/
def Execution.alone (nowMs : Int) (statement : Statement J) : Execution J where
  nowMs := nowMs
  held := unlocked
  statement := statement

/-- Execute a list of statements from a fresh database. -/
def finalState (d : Dialect) (run : List (Execution J)) : ProtocolState J :=
  (protocol d).drive (ProtocolState.fresh 0) run

theorem reachable_finalState (d : Dialect) (run : List (Execution J)) :
    (protocol d).Reachable anyStep (ProtocolState.fresh 0) (finalState d run) :=
  Machine.reachable_drive _ _ _ fun _ _ _ => trivial

end CairnQ
