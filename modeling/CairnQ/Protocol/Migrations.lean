import Mathlib.Data.String.Basic
import CairnQ.Protocol.Execution
import CairnQ.Transition.Machine

/-!
# Migrations

Any number of processes of either SDK connect to one database and bring it up to date, file
by file: begin a transaction, lock, look the file up in `cairnq_migrations`, run its script
if it is not there, record it, commit.  A process may crash wherever it waits, a Python one
may be cancelled there, a statement may fail, an answer may get lost, and the server may drop
a connection.

The database keeps the statements it has committed in order.  It lets one transaction hold
the lock at a time: `begin immediate` takes it on SQLite, `lock table` on Postgres.

Main results:

- Theorem `serve_position`: what the database does with a request that is in its place.
- Theorem `migrationsKept_of_step`: what every step keeps.
- Theorem `migrations_applied`: the record is a prefix of the files, the committed statements
  are those of its files, and whoever has connected has seen all of them.
-/

namespace CairnQ

open Transition

/-! ## Files -/

/-- A migration file with the statements of its script. -/
structure Migration where
  name : String
  script : List String
deriving DecidableEq, Repr

/-- A directory: no two of its files have one name. -/
structure MigrationDir where
  files : List Migration
  distinct : (files.map Migration.name).Nodup

/-- `load_migrations`: the `.sql` files in the order of their names. -/
def loadMigrations (dir : MigrationDir) : List Migration :=
  (dir.files.filter fun m => m.name.endsWith ".sql").mergeSort fun a b => decide (a.name ≤ b.name)

/-- The statements of a file, each with its file. -/
def Migration.effects (m : Migration) : List (String × String) :=
  m.script.map fun st => (m.name, st)

/-! ## State -/

/-- What a process asks of the database; numbers are positions in the files and the scripts. -/
inductive Request
  | createLedger
  /-- `BEGIN IMMEDIATE`, or `begin` -/
  | openTx (i : Nat)
  | lockLedger (i : Nat)
  /-- whether the file is recorded -/
  | check (i : Nat)
  | statement (i k : Nat)
  /-- a whole script in one call -/
  | script (i : Nat)
  | record (i : Nat)
  | commit (i : Nat)
  | rollback
deriving DecidableEq, Repr

inductive MigrationReply
  | done
  | found (recorded : Bool)
  | failed
deriving DecidableEq, Repr

/-- Where a process stands. -/
inductive SessionLife
  | fresh
  | awaiting (r : Request)
  /-- the answer is there, but not yet read -/
  | answered (r : Request) (a : MigrationReply)
  /-- it raised or crashed; what it had asked for may still be executed -/
  | unwinding (rest : List Request)
  | connected
deriving DecidableEq, Repr

/-- What an open transaction has done. -/
structure OpenTx where
  applied : List (String × String)
  recorded : List String
deriving DecidableEq, Repr

/-- A transaction that has done nothing yet. -/
def OpenTx.empty : OpenTx where
  applied := []
  recorded := []

/-- A process and its connection. -/
structure Session where
  sdk : Sdk
  life : SessionLife
  tx : Option OpenTx
  live : Bool

/-- The database and everybody who connects to it. -/
structure MigrationState where
  ledger : Bool
  recorded : List String
  applied : List (String × String)
  holder : Option Nat
  sessions : Nat → Session

namespace MigrationState

/-- A database on which the first files have been applied. -/
def upTo (files : List Migration) (n : Nat) : MigrationState where
  ledger := false
  recorded := (files.take n).map Migration.name
  applied := (files.take n).flatMap Migration.effects
  holder := none
  sessions _ := { sdk := .python, life := .fresh, tx := none, live := true }

/-- Change one session. -/
def modify (s : MigrationState) (id : Nat) (f : Session → Session) : MigrationState :=
  { s with sessions := fun id' => if id' = id then f (s.sessions id') else s.sessions id' }

/-- Where a session goes. -/
def goTo (s : MigrationState) (id : Nat) (life : SessionLife) : MigrationState :=
  s.modify id fun session => { session with life := life }

/-- Put a transaction in place of another. -/
def setTx (s : MigrationState) (id : Nat) (tx : Option OpenTx) : MigrationState :=
  s.modify id fun session => { session with tx := tx }

/-- Give the lock back. -/
def release (s : MigrationState) (id : Nat) : MigrationState :=
  { s with holder := if s.holder = some id then none else s.holder }

/-- A transaction is over. -/
def endTx (s : MigrationState) (id : Nat) : MigrationState :=
  (s.setTx id none).release id

end MigrationState

/-! ## The database -/

/-- Requests that a connection is taken for. -/
def Request.opens : Request → Bool
  | .createLedger | .openTx _ => true
  | _ => false

/-- The database executes a request.  Nothing when it has to wait or the request fails. -/
def serve (d : Dialect) (files : List Migration) (s : MigrationState) (id : Nat) :
    Request → Option (MigrationState × MigrationReply)
  | .createLedger => some ({ s with ledger := true }, .done)
  | .openTx _ =>
      if (s.sessions id).tx.isSome then none
      else
        let opened := s.modify id fun session =>
          { session with tx := some .empty, live := true }
        match d with
        | .sqlite =>
            if s.holder = none then some ({ opened with holder := some id }, .done) else none
        | .postgres => some (opened, .done)
  | .lockLedger _ =>
      if (s.sessions id).tx.isSome = true ∧ (s.holder = none ∨ s.holder = some id) then
        some ({ s with holder := some id }, .done)
      else none
  | .check i =>
      if s.ledger then do
        let m ← files[i]?
        let tx ← (s.sessions id).tx
        some (s, .found (decide (m.name ∈ s.recorded ++ tx.recorded)))
      else none
  | .statement i k => do
      let m ← files[i]?
      let st ← m.script[k]?
      let tx ← (s.sessions id).tx
      some (s.setTx id (some { tx with applied := tx.applied ++ [(m.name, st)] }), .done)
  | .script i => do
      let m ← files[i]?
      let tx ← (s.sessions id).tx
      some (s.setTx id (some { tx with applied := tx.applied ++ m.effects }), .done)
  | .record i => do
      let m ← files[i]?
      let tx ← (s.sessions id).tx
      -- the name is the primary key
      if s.ledger = false ∨ m.name ∈ s.recorded ++ tx.recorded then none
      else some (s.setTx id (some { tx with recorded := tx.recorded ++ [m.name] }), .done)
  | .commit _ => do
      let tx ← (s.sessions id).tx
      some (({ s with
        recorded := s.recorded ++ tx.recorded
        applied := s.applied ++ tx.applied } : MigrationState).endTx id, .done)
  | .rollback => some (s.endTx id, .done)

/-- A script that fails has run some of its statements. -/
def serveFailing (files : List Migration) (s : MigrationState) (id : Nat) (ran : Nat) :
    Request → MigrationState
  | .script i =>
      match files[i]?, (s.sessions id).tx with
      | some m, some tx =>
          s.setTx id (some { tx with applied := tx.applied ++ m.effects.take ran })
      | _, _ => s
  | _ => s

/-! ## The processes -/

/-- What a process does after an answer. -/
inductive Next
  | ask (r : Request)
  | connected
  /-- it raises, having asked for this much more -/
  | raised (rest : List Request)

/-- The file at a position, or the end of the loop. -/
def enter (files : List Migration) (i : Nat) : Next :=
  if i < files.length then .ask (.openTx i) else .connected

/-- The statement at a position of a script, or the insert after its end. -/
def statementFrom (files : List Migration) (i k : Nat) : Next :=
  if k < (files[i]?.map fun m => m.script.length).getD 0 then .ask (.statement i k)
  else .ask (.record i)

/-- Python runs a SQLite script statement by statement, everything else runs whole. -/
def applyFrom (d : Dialect) (sdk : Sdk) (files : List Migration) (i : Nat) : Next :=
  match sdk, d with
  | .python, .sqlite => statementFrom files i 0
  | .python, .postgres | .node, _ => .ask (.script i)

/-- What is rolled back when a request fails, or the process is cancelled at it.  Python's
`COMMIT` stands outside the `try`. -/
def unwind (sdk : Sdk) : Request → List Request
  | .lockLedger _ | .check _ | .statement _ _ | .script _ | .record _ => [.rollback]
  | .commit _ =>
      match sdk with
      | .python => []
      | .node => [.rollback]
  | .createLedger | .openTx _ | .rollback => []

/-- `_apply_migrations`, from one answer to the next request. -/
def nextRequest (d : Dialect) (sdk : Sdk) (files : List Migration) : Request → MigrationReply → Next
  | r, .failed => .raised (unwind sdk r)
  | .createLedger, _ => enter files 0
  | .openTx i, _ =>
      match d with
      | .sqlite => .ask (.check i)
      | .postgres => .ask (.lockLedger i)
  | .lockLedger i, _ => .ask (.check i)
  | .check i, .found true => .ask (.commit i)
  | .check i, _ => applyFrom d sdk files i
  | .statement i k, _ => statementFrom files i (k + 1)
  | .script i, _ => .ask (.record i)
  | .record i, _ => .ask (.commit i)
  | .commit i, _ => enter files (i + 1)
  | .rollback, _ => .raised []

/-- Where that leaves it. -/
def Next.life : Next → SessionLife
  | .ask r => .awaiting r
  | .connected => .connected
  | .raised rest => .unwinding rest

/-! ## Steps -/

/-- A label. -/
inductive MigrationStep
  | start (id : Nat) (sdk : Sdk)
  /-- the database executes what is asked -/
  | execute (id : Nat)
  /-- or it fails; `ran` statements of a script have been executed -/
  | refuse (id : Nat) (ran : Nat)
  /-- or is executed, and the answer is lost -/
  | loseAnswer (id : Nat)
  | resume (id : Nat)
  | cancel (id : Nat)
  | crash (id : Nat)
  /-- the server drops the connection, and with it the transaction -/
  | sever (id : Nat)
  /-- a Node executor runs the block of a transaction again -/
  | replay (id : Nat)
deriving DecidableEq, Repr

/-- A connection for the request. -/
def Session.reaches (session : Session) (d : Dialect) (r : Request) : Bool :=
  session.live || (decide (d = .postgres) && r.opens)

/-- The file whose transaction a request is part of. -/
def Request.file? : Request → Option Nat
  | .lockLedger i | .check i | .statement i _ | .script i | .record i | .commit i => some i
  | .createLedger | .openTx _ | .rollback => none

/-- Everybody. -/
def migrating (d : Dialect) (files : List Migration) : Machine MigrationState MigrationStep :=
  fun s l =>
  match l with
  | .start id sdk =>
      match (s.sessions id).life with
      | .fresh => some (s.modify id fun session =>
          { session with sdk := sdk, life := .awaiting .createLedger })
      | _ => none
  | .execute id =>
      let session := s.sessions id
      match session.life with
      | .awaiting r =>
          if session.reaches d r then do
            let (s', a) ← serve d files s id r
            some (s'.goTo id (.answered r a))
          else none
      | .unwinding (r :: rest) =>
          if session.reaches d r then do
            let (s', _) ← serve d files s id r
            some (s'.goTo id (.unwinding rest))
          else none
      | _ => none
  | .refuse id ran =>
      match (s.sessions id).life with
      | .awaiting r => some ((serveFailing files s id ran r).goTo id (.answered r .failed))
      | .unwinding (r :: rest) => some ((serveFailing files s id ran r).goTo id (.unwinding rest))
      | _ => none
  | .loseAnswer id =>
      let session := s.sessions id
      match session.life with
      | .awaiting r =>
          if session.reaches d r then do
            let (s', _) ← serve d files s id r
            some (s'.goTo id (.answered r .failed))
          else none
      | _ => none
  | .resume id =>
      let session := s.sessions id
      match session.life with
      | .answered r a => some (s.goTo id (nextRequest d session.sdk files r a).life)
      | _ => none
  | .cancel id =>
      let session := s.sessions id
      match session.sdk, session.life with
      | .python, .awaiting r => some (s.goTo id (.unwinding (r :: unwind .python r)))
      | .python, .answered r _ => some (s.goTo id (.unwinding (unwind .python r)))
      | _, _ => none
  | .crash id =>
      match (s.sessions id).life with
      | .awaiting r => some (s.goTo id (.unwinding [r]))
      | .answered _ _ => some (s.goTo id (.unwinding []))
      | .unwinding rest => some (s.goTo id (.unwinding (rest.take 1)))
      | .fresh | .connected => none
  | .sever id => some ((s.endTx id).modify id fun session => { session with live := false })
  | .replay id =>
      let session := s.sessions id
      match session.sdk, d, session.life with
      | .node, .postgres, .answered r .failed =>
          r.file?.map fun i => (s.endTx id).goTo id (.awaiting (.openTx i))
      | _, _, _ => none

/-! ## The invariant -/

/-- The session holds the lock, and the file is the next one to be recorded. -/
def MigrationState.AtNext (s : MigrationState) (id i : Nat) : Prop :=
  s.holder = some id ∧ i = s.recorded.length

/-- A request is in its place: what holds of the transaction it is part of. -/
def InPlace (files : List Migration) (s : MigrationState) (id : Nat) : Request → Prop
  | .createLedger => (s.sessions id).tx = none
  | .openTx i => (s.sessions id).tx = none ∧ i ≤ s.recorded.length ∧ i < files.length
  | .lockLedger i =>
      (s.sessions id).tx = some .empty ∧ i ≤ s.recorded.length ∧ i < files.length
  | .check i => (s.sessions id).tx = some .empty ∧ i ≤ s.recorded.length ∧ i < files.length ∧
      s.holder = some id
  | .statement i k => s.AtNext id i ∧ ∃ m, files[i]? = some m ∧
      (s.sessions id).tx = some ⟨m.effects.take k, []⟩
  | .script i => s.AtNext id i ∧ i < files.length ∧ (s.sessions id).tx = some .empty
  | .record i => s.AtNext id i ∧ ∃ m, files[i]? = some m ∧
      (s.sessions id).tx = some ⟨m.effects, []⟩
  | .commit i =>
      ((s.sessions id).tx = some .empty ∧ i < s.recorded.length ∧ i < files.length) ∨
      (s.AtNext id i ∧ ∃ m, files[i]? = some m ∧ (s.sessions id).tx = some ⟨m.effects, [m.name]⟩)
  | .rollback => True

/-- Its file is recorded, or the next one. -/
def InRange (files : List Migration) (s : MigrationState) (r : Request) : Prop :=
  ∀ i, r.file? = some i → i ≤ s.recorded.length ∧ i < files.length

/-- What a process does next is in its place, unless its connection is lost. -/
def NextInPlace (files : List Migration) (s : MigrationState) (id : Nat) : Next → Prop
  | .ask r => (((s.sessions id).live = true ∨ r.opens = true) → InPlace files s id r) ∧
      InRange files s r
  | .connected => files.length ≤ s.recorded.length
  | .raised rest => ∀ i, .commit i ∉ rest

/-- What holds of a session that stands where it does. -/
def LifeKept (d : Dialect) (files : List Migration) (s : MigrationState) (id : Nat) :
    SessionLife → Prop
  | .fresh => (s.sessions id).tx = none
  | .awaiting r => NextInPlace files s id (.ask r)
  | .answered r a => NextInPlace files s id (nextRequest d (s.sessions id).sdk files r a) ∧
      InRange files s r
  | .unwinding rest => ∀ i, .commit i ∈ rest →
      rest = [.commit i] ∧ ((s.sessions id).live = true → InPlace files s id (.commit i))
  | .connected => NextInPlace files s id .connected

/-- What holds of a session. -/
def SessionKept (d : Dialect) (files : List Migration) (s : MigrationState) (id : Nat) : Prop :=
  LifeKept d files s id (s.sessions id).life

/-- The record is a prefix of the files, and their statements are what was committed. -/
structure RecordKept (files : List Migration) (s : MigrationState) : Prop where
  bounded : s.recorded.length ≤ files.length
  recorded : s.recorded = (files.take s.recorded.length).map Migration.name
  applied : s.applied = (files.take s.recorded.length).flatMap Migration.effects

/-- What holds in every state. -/
structure MigrationsKept (d : Dialect) (files : List Migration) (s : MigrationState) : Prop where
  record : RecordKept files s
  sessions : ∀ id, SessionKept d files s id

namespace MigrationState

variable {s : MigrationState} {id id' : Nat}

@[simp] theorem modify_sessions_self (f : Session → Session) :
    (s.modify id f).sessions id = f (s.sessions id) := by
  simp [modify]

theorem modify_sessions_ne (f : Session → Session) (h : id' ≠ id) :
    (s.modify id f).sessions id' = s.sessions id' := by
  simp [modify, h]

theorem setTx_sdk (tx : Option OpenTx) :
    ((s.setTx id tx).sessions id).sdk = (s.sessions id).sdk := by
  simp [setTx]

theorem endTx_sdk : ((s.endTx id).sessions id).sdk = (s.sessions id).sdk :=
  setTx_sdk none

theorem endTx_tx : ((s.endTx id).sessions id).tx = none := by
  simp [endTx, release, setTx]

end MigrationState

/-- What a step of one session may do to the others: the record only grows, and what somebody
else has locked stays locked and as it is. -/
structure LeavesOthers (s s' : MigrationState) (id : Nat) : Prop where
  grows : s.recorded.length ≤ s'.recorded.length
  sessions : ∀ id' ≠ id, s'.sessions id' = s.sessions id'
  locked : ∀ id' ≠ id, s.holder = some id' → s'.holder = some id' ∧ s'.recorded = s.recorded

theorem LeavesOthers.inPlace {files : List Migration} {s s' : MigrationState} {id id' : Nat}
    {r : Request} (h : LeavesOthers s s' id) (hid : id' ≠ id) (hplace : InPlace files s id' r) :
    InPlace files s' id' r := by
  have hgrows := h.grows
  have hnext : ∀ i, s.AtNext id' i → s'.AtNext id' i := by
    rintro i ⟨hholder, hi⟩
    rcases h.locked id' hid hholder with ⟨hholder', hrecorded⟩
    exact ⟨hholder', by rw [hrecorded]; exact hi⟩
  cases r with
  | createLedger =>
      simp only [InPlace, h.sessions id' hid] at hplace ⊢
      exact hplace
  | openTx i =>
      simp only [InPlace, h.sessions id' hid] at hplace ⊢
      exact ⟨hplace.1, by omega, hplace.2.2⟩
  | lockLedger i =>
      simp only [InPlace, h.sessions id' hid] at hplace ⊢
      exact ⟨hplace.1, by omega, hplace.2.2⟩
  | check i =>
      simp only [InPlace, h.sessions id' hid] at hplace ⊢
      exact ⟨hplace.1, by omega, hplace.2.2.1, (h.locked id' hid hplace.2.2.2).1⟩
  | statement i k =>
      simp only [InPlace, h.sessions id' hid] at hplace ⊢
      exact ⟨hnext i hplace.1, hplace.2⟩
  | script i =>
      simp only [InPlace, h.sessions id' hid] at hplace ⊢
      exact ⟨hnext i hplace.1, hplace.2⟩
  | record i =>
      simp only [InPlace, h.sessions id' hid] at hplace ⊢
      exact ⟨hnext i hplace.1, hplace.2⟩
  | commit i =>
      simp only [InPlace, h.sessions id' hid] at hplace ⊢
      rcases hplace with ⟨htx, hi, hlt⟩ | ⟨hnexti, hrest⟩
      · exact Or.inl ⟨htx, by omega, hlt⟩
      · exact Or.inr ⟨hnext i hnexti, hrest⟩
  | rollback => trivial

theorem InRange.grows {files : List Migration} {s s' : MigrationState} {r : Request}
    (h : InRange files s r) (hgrows : s.recorded.length ≤ s'.recorded.length) :
    InRange files s' r := by
  intro i hi
  have hrange := h i hi
  omega

theorem inRange_of_inPlace {files : List Migration} {s : MigrationState} {id : Nat} {r : Request}
    (h : InPlace files s id r) : InRange files s r := by
  intro i hi
  cases r with
  | createLedger => cases hi
  | openTx j => cases hi
  | rollback => cases hi
  | lockLedger j =>
      cases hi
      exact h.2
  | check j =>
      cases hi
      exact ⟨h.2.1, h.2.2.1⟩
  | statement j k =>
      cases hi
      rcases h with ⟨hnext, m, hm, -⟩
      exact ⟨Nat.le_of_eq hnext.2, (List.getElem?_eq_some_iff.mp hm).1⟩
  | script j =>
      cases hi
      exact ⟨Nat.le_of_eq h.1.2, h.2.1⟩
  | record j =>
      cases hi
      rcases h with ⟨hnext, m, hm, -⟩
      exact ⟨Nat.le_of_eq hnext.2, (List.getElem?_eq_some_iff.mp hm).1⟩
  | commit j =>
      cases hi
      rcases h with ⟨-, hj, hlt⟩ | ⟨hnext, m, hm, -⟩
      · exact ⟨Nat.le_of_lt hj, hlt⟩
      · exact ⟨Nat.le_of_eq hnext.2, (List.getElem?_eq_some_iff.mp hm).1⟩

/-- A request in its place, to be asked next. -/
theorem ask_inPlace {files : List Migration} {s : MigrationState} {id : Nat} {r : Request}
    (h : InPlace files s id r) : NextInPlace files s id (.ask r) :=
  ⟨fun _ => h, inRange_of_inPlace h⟩

theorem LeavesOthers.nextInPlace {files : List Migration} {s s' : MigrationState} {id id' : Nat}
    {next : Next} (h : LeavesOthers s s' id) (hid : id' ≠ id)
    (hnext : NextInPlace files s id' next) : NextInPlace files s' id' next := by
  cases next with
  | ask r =>
      simp only [NextInPlace, h.sessions id' hid] at hnext ⊢
      exact ⟨fun hlive => h.inPlace hid (hnext.1 hlive), hnext.2.grows h.grows⟩
  | connected => exact Nat.le_trans hnext h.grows
  | raised rest => exact hnext

theorem LeavesOthers.sessionKept {d : Dialect} {files : List Migration} {s s' : MigrationState}
    {id id' : Nat} (h : LeavesOthers s s' id) (hid : id' ≠ id)
    (hkept : SessionKept d files s id') : SessionKept d files s' id' := by
  unfold SessionKept at hkept ⊢
  rw [h.sessions id' hid]
  generalize (s.sessions id').life = life at hkept
  cases life with
  | fresh =>
      simp only [LifeKept, h.sessions id' hid] at hkept ⊢
      exact hkept
  | awaiting r =>
      have hask : NextInPlace files s id' (.ask r) := hkept
      exact h.nextInPlace hid hask
  | answered r a =>
      simp only [LifeKept, h.sessions id' hid] at hkept ⊢
      exact ⟨h.nextInPlace hid hkept.1, hkept.2.grows h.grows⟩
  | unwinding rest =>
      intro i hi
      rcases hkept i hi with ⟨hrest, hplace⟩
      refine ⟨hrest, fun hlive => h.inPlace hid (hplace ?_)⟩
      rw [← h.sessions id' hid]
      exact hlive
  | connected =>
      have hdone : NextInPlace files s id' .connected := hkept
      exact h.nextInPlace hid hdone

theorem LeavesOthers.refl (s : MigrationState) (id : Nat) : LeavesOthers s s id where
  grows := Nat.le_refl _
  sessions _ _ := rfl
  locked _ _ hholder := ⟨hholder, rfl⟩

theorem LeavesOthers.trans {s s' s'' : MigrationState} {id : Nat} (h : LeavesOthers s s' id)
    (h' : LeavesOthers s' s'' id) : LeavesOthers s s'' id where
  grows := Nat.le_trans h.grows h'.grows
  sessions id' hid := (h'.sessions id' hid).trans (h.sessions id' hid)
  locked id' hid hholder := by
    rcases h.locked id' hid hholder with ⟨hholder', hrecorded⟩
    rcases h'.locked id' hid hholder' with ⟨hholder'', hrecorded'⟩
    exact ⟨hholder'', hrecorded'.trans hrecorded⟩

theorem leavesOthers_modify (s : MigrationState) (id : Nat) (f : Session → Session) :
    LeavesOthers s (s.modify id f) id where
  grows := Nat.le_refl _
  sessions _ hid := MigrationState.modify_sessions_ne f hid
  locked _ _ hholder := ⟨hholder, rfl⟩

theorem leavesOthers_release (s : MigrationState) (id : Nat) :
    LeavesOthers s (s.release id) id where
  grows := Nat.le_refl _
  sessions _ _ := rfl
  locked id' hid hholder := by
    refine ⟨?_, rfl⟩
    rw [MigrationState.release, if_neg]
    · exact hholder
    · rw [hholder]
      exact fun h => hid (Option.some.inj h)

theorem leavesOthers_endTx (s : MigrationState) (id : Nat) : LeavesOthers s (s.endTx id) id :=
  (leavesOthers_modify s id _).trans (leavesOthers_release _ id)

/-- Taking a lock that nobody else has. -/
theorem leavesOthers_lock {s : MigrationState} {id : Nat}
    (hfree : s.holder = none ∨ s.holder = some id) :
    LeavesOthers s { s with holder := some id } id where
  grows := Nat.le_refl _
  sessions _ _ := rfl
  locked id' hid hholder := by
    rcases hfree with hnone | hown
    · rw [hnone] at hholder
      cases hholder
    · rw [hown] at hholder
      exact absurd (Option.some.inj hholder).symm hid

/-- A request other than a commit changes neither the record nor what was committed. -/
theorem serve_of_not_commit {d : Dialect} {files : List Migration} {s s' : MigrationState}
    {id : Nat} {r : Request} {a : MigrationReply} (hnot : ∀ i, r ≠ .commit i)
    (h : serve d files s id r = some (s', a)) :
    LeavesOthers s s' id ∧ (s'.sessions id).sdk = (s.sessions id).sdk ∧
      s'.recorded = s.recorded ∧ s'.applied = s.applied := by
  cases r with
  | createLedger =>
      cases h
      exact ⟨⟨Nat.le_refl _, fun _ _ => rfl, fun _ _ hholder => ⟨hholder, rfl⟩⟩, rfl, rfl, rfl⟩
  | openTx i =>
      simp only [serve] at h
      split at h
      · cases h
      · cases d with
        | sqlite =>
            dsimp only at h
            split at h
            · rename_i hfree
              cases h
              exact ⟨(leavesOthers_modify s id _).trans (leavesOthers_lock (Or.inl hfree)), by simp,
                rfl, rfl⟩
            · cases h
        | postgres =>
            cases h
            exact ⟨leavesOthers_modify s id _, by simp, rfl, rfl⟩
  | lockLedger i =>
      simp only [serve] at h
      split at h
      · rename_i hfree
        cases h
        exact ⟨leavesOthers_lock hfree.2, rfl, rfl, rfl⟩
      · cases h
  | check i =>
      simp only [serve, Option.bind_eq_bind] at h
      split at h
      · simp only [Option.bind_eq_some_iff] at h
        rcases h with ⟨m, -, tx, -, h⟩
        cases h
        exact ⟨.refl s id, rfl, rfl, rfl⟩
      · cases h
  | statement i k =>
      simp only [serve, Option.bind_eq_bind, Option.bind_eq_some_iff] at h
      rcases h with ⟨m, -, st, -, tx, -, h⟩
      cases h
      exact ⟨leavesOthers_modify s id _, MigrationState.setTx_sdk _, rfl, rfl⟩
  | script i =>
      simp only [serve, Option.bind_eq_bind, Option.bind_eq_some_iff] at h
      rcases h with ⟨m, -, tx, -, h⟩
      cases h
      exact ⟨leavesOthers_modify s id _, MigrationState.setTx_sdk _, rfl, rfl⟩
  | record i =>
      simp only [serve, Option.bind_eq_bind, Option.bind_eq_some_iff] at h
      rcases h with ⟨m, -, tx, -, h⟩
      split at h
      · cases h
      · cases h
        exact ⟨leavesOthers_modify s id _, MigrationState.setTx_sdk _, rfl, rfl⟩
  | commit i => exact absurd rfl (hnot i)
  | rollback =>
      cases h
      exact ⟨leavesOthers_endTx s id, MigrationState.endTx_sdk, rfl, rfl⟩

/-- What a commit does in its place: nothing, or it records the next file with its statements. -/
theorem serve_commit {d : Dialect} {files : List Migration} {s s' : MigrationState} {id i : Nat}
    {a : MigrationReply} (hrecord : RecordKept files s) (hplace : InPlace files s id (.commit i))
    (h : serve d files s id (.commit i) = some (s', a)) :
    LeavesOthers s s' id ∧ (s'.sessions id).sdk = (s.sessions id).sdk ∧ RecordKept files s' ∧
      (s'.sessions id).tx = none ∧ i < s'.recorded.length := by
  simp only [serve, Option.bind_eq_bind, Option.bind_eq_some_iff] at h
  rcases h with ⟨tx, htx, h⟩
  cases h
  simp only [InPlace] at hplace
  rcases hplace with ⟨hempty, hi, -⟩ | ⟨⟨hholder, rfl⟩, m, hm, hfull⟩
  · cases hempty.symm.trans htx
    have hsame : ({ s with
        recorded := s.recorded ++ OpenTx.empty.recorded
        applied := s.applied ++ OpenTx.empty.applied } : MigrationState) = s := by
      simp [OpenTx.empty]
    rw [hsame]
    exact ⟨leavesOthers_endTx s id, MigrationState.endTx_sdk,
      ⟨hrecord.bounded, hrecord.recorded, hrecord.applied⟩, MigrationState.endTx_tx, hi⟩
  · cases hfull.symm.trans htx
    have hlt : s.recorded.length < files.length := by
      rcases List.getElem?_eq_some_iff.mp hm with ⟨hlt, -⟩
      exact hlt
    have htake : files.take (s.recorded.length + 1) = files.take s.recorded.length ++ [m] := by
      rw [List.take_add_one, hm]
      rfl
    have hlength : (s.recorded ++ [m.name]).length = s.recorded.length + 1 := by
      simp
    refine ⟨⟨?_, fun id' hid => ?_, fun id' hid hholder' => ?_⟩, MigrationState.endTx_sdk,
      ⟨?_, ?_, ?_⟩, MigrationState.endTx_tx, ?_⟩
    · show s.recorded.length ≤ (s.recorded ++ [m.name]).length
      omega
    · exact (leavesOthers_endTx _ id).sessions id' hid
    · rw [hholder] at hholder'
      exact absurd (Option.some.inj hholder').symm hid
    · show (s.recorded ++ [m.name]).length ≤ files.length
      omega
    · show s.recorded ++ [m.name] = (files.take (s.recorded ++ [m.name]).length).map Migration.name
      rw [hlength, htake, List.map_append, ← hrecord.recorded]
      rfl
    · show s.applied ++ m.effects =
        (files.take (s.recorded ++ [m.name]).length).flatMap Migration.effects
      rw [hlength, htake, List.flatMap_append, ← hrecord.applied]
      simp
    · show s.recorded.length < (s.recorded ++ [m.name]).length
      omega

/-- A file is recorded exactly when it comes before the end of the record. -/
theorem mem_recorded_iff {files : List Migration} {s : MigrationState} {i : Nat} {m : Migration}
    (hdistinct : (files.map Migration.name).Nodup) (hrecord : RecordKept files s)
    (hm : files[i]? = some m) : m.name ∈ s.recorded ↔ i < s.recorded.length := by
  rcases List.getElem?_eq_some_iff.mp hm with ⟨hi, hget⟩
  constructor
  · intro hmem
    rw [hrecord.recorded] at hmem
    rcases List.mem_map.mp hmem with ⟨m', hm', hname⟩
    rcases List.mem_take_iff_getElem.mp hm' with ⟨j, hj, hget'⟩
    have hboth : j < s.recorded.length ∧ j < files.length := by omega
    have hfile : files[j]? = some m' := List.getElem?_eq_some_iff.mpr ⟨hboth.2, hget'⟩
    have hsame : (files.map Migration.name)[j]? = (files.map Migration.name)[i]? := by
      rw [List.getElem?_map, List.getElem?_map, hfile, hm, Option.map_some, Option.map_some,
        hname]
    have hlt : j < (files.map Migration.name).length := by
      rw [List.length_map]
      exact hboth.2
    have hji : j = i := (List.getElem?_inj hlt hdistinct).mp hsame
    omega
  · intro hlt
    rw [hrecord.recorded]
    refine List.mem_map.mpr ⟨m, List.mem_take_iff_getElem.mpr ⟨i, by omega, hget⟩, rfl⟩

/-- Where a process begins with a file. -/
theorem enter_inPlace {files : List Migration} {s : MigrationState} {id i : Nat}
    (htx : (s.sessions id).tx = none) (hi : i ≤ s.recorded.length) :
    NextInPlace files s id (enter files i) := by
  unfold enter
  split
  · rename_i hlt
    exact ask_inPlace ⟨htx, hi, hlt⟩
  · rename_i hnot
    simp only [NextInPlace]
    omega

/-- Where it is in a script. -/
theorem statementFrom_inPlace {files : List Migration} {s : MigrationState} {id i k : Nat}
    {m : Migration} (hnext : s.AtNext id i) (hm : files[i]? = some m)
    (htx : (s.sessions id).tx = some ⟨m.effects.take k, []⟩) :
    NextInPlace files s id (statementFrom files i k) := by
  unfold statementFrom
  rw [hm]
  split
  · exact ask_inPlace ⟨hnext, m, hm, htx⟩
  · rename_i hnot
    have hall : m.effects.take k = m.effects := by
      refine List.take_of_length_le ?_
      simp only [Option.map_some, Option.getD_some, Nat.not_lt] at hnot
      simpa [Migration.effects] using hnot
    rw [hall] at htx
    exact ask_inPlace ⟨hnext, m, hm, htx⟩

/-- What the database does with a request in its place brings the next one into its place. -/
theorem serve_position {d : Dialect} {files : List Migration} {s s' : MigrationState} {id : Nat}
    {r : Request} {a : MigrationReply} (sdk : Sdk) (hdistinct : (files.map Migration.name).Nodup)
    (hrecord : RecordKept files s) (hplace : InPlace files s id r)
    (h : serve d files s id r = some (s', a)) :
    NextInPlace files s' id (nextRequest d sdk files r a) := by
  cases r with
  | createLedger =>
      cases h
      exact enter_inPlace hplace (Nat.zero_le _)
  | openTx i =>
      rcases hplace with ⟨htx, hle, hlt⟩
      simp only [serve, htx] at h
      cases d with
      | sqlite =>
          simp only [Option.isSome_none, Bool.false_eq_true, ↓reduceIte] at h
          split at h
          · cases h
            exact ask_inPlace ⟨by simp, hle, hlt, rfl⟩
          · cases h
      | postgres =>
          cases h
          exact ask_inPlace ⟨by simp, hle, hlt⟩
  | lockLedger i =>
      simp only [serve] at h
      split at h
      · cases h
        exact ask_inPlace ⟨hplace.1, hplace.2.1, hplace.2.2, rfl⟩
      · cases h
  | check i =>
      rcases hplace with ⟨htx, hle, hlt, hholder⟩
      simp only [serve, Option.bind_eq_bind] at h
      split at h
      · simp only [Option.bind_eq_some_iff] at h
        rcases h with ⟨m, hm, tx, htx', h⟩
        cases htx.symm.trans htx'
        have hiff := mem_recorded_iff hdistinct hrecord hm
        by_cases hi : i < s.recorded.length
        · have hfound : decide (m.name ∈ s.recorded ++ OpenTx.empty.recorded) = true := by
            simpa [OpenTx.empty] using hiff.mpr hi
          rw [hfound] at h
          cases h
          exact ask_inPlace (Or.inl ⟨htx, hi, hlt⟩)
        · have hfound : decide (m.name ∈ s.recorded ++ OpenTx.empty.recorded) = false := by
            simpa [OpenTx.empty] using fun hmem => hi (hiff.mp hmem)
          rw [hfound] at h
          cases h
          have hnext : s.AtNext id i := ⟨hholder, by omega⟩
          simp only [nextRequest, applyFrom]
          split
          · exact statementFrom_inPlace hnext hm (by rw [htx]; rfl)
          · exact ask_inPlace ⟨hnext, hlt, htx⟩
          · exact ask_inPlace ⟨hnext, hlt, htx⟩
      · cases h
  | statement i k =>
      rcases hplace with ⟨hnext, m, hm, htx⟩
      simp only [serve, Option.bind_eq_bind, Option.bind_eq_some_iff, hm, htx,
        Option.some.injEq] at h
      rcases h with ⟨m', rfl, st, hst, tx, rfl, h⟩
      cases h
      refine statementFrom_inPlace hnext hm ?_
      have htake : m.effects.take (k + 1) = m.effects.take k ++ [(m.name, st)] := by
        rw [List.take_add_one, Migration.effects, List.getElem?_map, hst]
        rfl
      rw [htake]
      simp [MigrationState.setTx]
  | script i =>
      rcases hplace with ⟨hnext, hlt, htx⟩
      simp only [serve, Option.bind_eq_bind, Option.bind_eq_some_iff, htx,
        Option.some.injEq] at h
      rcases h with ⟨m, hm, tx, rfl, h⟩
      cases h
      exact ask_inPlace ⟨hnext, m, hm, by simp [MigrationState.setTx, OpenTx.empty]⟩
  | record i =>
      rcases hplace with ⟨hnext, m, hm, htx⟩
      simp only [serve, Option.bind_eq_bind, Option.bind_eq_some_iff, hm, htx,
        Option.some.injEq] at h
      rcases h with ⟨m', rfl, tx, rfl, h⟩
      split at h
      · cases h
      · cases h
        exact ask_inPlace (Or.inr ⟨hnext, m, hm, by simp [MigrationState.setTx]⟩)
  | commit i =>
      rcases serve_commit hrecord hplace h with ⟨-, -, -, htx, hlt⟩
      have ha : a = .done := by
        simp only [serve, Option.bind_eq_bind, Option.bind_eq_some_iff] at h
        rcases h with ⟨tx, -, h⟩
        cases h
        rfl
      rw [ha]
      exact enter_inPlace htx hlt
  | rollback =>
      cases h
      exact fun i hi => by cases hi

/-! ## Steps keep it -/

/-- A session is where it was told to go. -/
theorem inPlace_goTo {files : List Migration} {s : MigrationState} {id : Nat} {r : Request}
    {life : SessionLife} (h : InPlace files s id r) : InPlace files (s.goTo id life) id r := by
  cases r with
  | rollback => trivial
  | _ =>
      simp only [InPlace, MigrationState.goTo, MigrationState.modify_sessions_self] at h ⊢
      exact h

theorem nextInPlace_goTo {files : List Migration} {s : MigrationState} {id : Nat} {next : Next}
    {life : SessionLife} (h : NextInPlace files s id next) :
    NextInPlace files (s.goTo id life) id next := by
  cases next with
  | ask r =>
      refine ⟨fun hlive => inPlace_goTo (h.1 ?_), h.2⟩
      simpa [MigrationState.goTo] using hlive
  | connected => exact h
  | raised rest => exact h

/-- A step of one session: the others keep what they have. -/
theorem MigrationsKept.of_session {d : Dialect} {files : List Migration} {s s' : MigrationState}
    {id : Nat} (hkept : MigrationsKept d files s) (hleaves : LeavesOthers s s' id)
    (hrecord : RecordKept files s') (hown : SessionKept d files s' id) :
    MigrationsKept d files s' where
  record := hrecord
  sessions id' := by
    by_cases hid : id' = id
    · rw [hid]
      exact hown
    · exact hleaves.sessionKept hid (hkept.sessions id')

theorem leavesOthers_goTo (s : MigrationState) (id : Nat) (life : SessionLife) :
    LeavesOthers s (s.goTo id life) id :=
  leavesOthers_modify s id _

/-- What unwinds does not commit. -/
theorem not_commit_mem_unwind (sdk : Sdk) (r : Request) (i : Nat) : .commit i ∉ unwind sdk r := by
  cases r with
  | commit j => cases sdk <;> simp [unwind]
  | _ => simp [unwind]

/-- The database keeps the record, whatever is asked of it in its place or is no commit. -/
theorem recordKept_of_serve {d : Dialect} {files : List Migration} {s s' : MigrationState}
    {id : Nat} {r : Request} {a : MigrationReply} (hrecord : RecordKept files s)
    (hcommit : ∀ i, r = .commit i → InPlace files s id r)
    (h : serve d files s id r = some (s', a)) :
    LeavesOthers s s' id ∧ (s'.sessions id).sdk = (s.sessions id).sdk ∧ RecordKept files s' := by
  by_cases hnot : ∀ i, r ≠ .commit i
  · rcases serve_of_not_commit hnot h with ⟨hleaves, hsdk, hrecorded, happlied⟩
    refine ⟨hleaves, hsdk, ?_⟩
    constructor
    · rw [hrecorded]
      exact hrecord.bounded
    · rw [hrecorded]
      exact hrecord.recorded
    · rw [hrecorded, happlied]
      exact hrecord.applied
  · push Not at hnot
    rcases hnot with ⟨i, rfl⟩
    rcases serve_commit hrecord (hcommit i rfl) h with ⟨hleaves, hsdk, hrecord', -⟩
    exact ⟨hleaves, hsdk, hrecord'⟩

theorem reaches_cases {session : Session} {d : Dialect} {r : Request}
    (h : session.reaches d r = true) : session.live = true ∨ r.opens = true := by
  rw [Session.reaches, Bool.or_eq_true, Bool.and_eq_true] at h
  exact h.imp_right fun h => h.2

/-- What is left of the requests of a process that has raised, after the first. -/
theorem commit_notMem_rest {r : Request} {rest : List Request}
    (h : ∀ i, .commit i ∈ r :: rest → r :: rest = [.commit i]) (i : Nat) : .commit i ∉ rest := by
  intro hi
  have hone := h i (List.mem_cons_of_mem r hi)
  rw [List.cons.injEq] at hone
  rw [hone.2] at hi
  cases hi

/-- A script that fails leaves the record and the others alone. -/
theorem serveFailing_spec (files : List Migration) (s : MigrationState) (id ran : Nat)
    (r : Request) :
    LeavesOthers s (serveFailing files s id ran r) id ∧
      (RecordKept files s → RecordKept files (serveFailing files s id ran r)) := by
  cases r with
  | script i =>
      simp only [serveFailing]
      split
      · exact ⟨leavesOthers_modify s id _, fun h => ⟨h.bounded, h.recorded, h.applied⟩⟩
      · exact ⟨.refl s id, fun h => h⟩
  | _ => exact ⟨.refl s id, fun h => h⟩

/-- A step of one session that takes it somewhere. -/
theorem MigrationsKept.goTo {d : Dialect} {files : List Migration} {s s' : MigrationState}
    {id : Nat} {life : SessionLife} (hkept : MigrationsKept d files s)
    (hleaves : LeavesOthers s s' id) (hrecord : RecordKept files s')
    (hlife : LifeKept d files s' id life) : MigrationsKept d files (s'.goTo id life) := by
  refine hkept.of_session (hleaves.trans (leavesOthers_goTo s' id life))
    ⟨hrecord.bounded, hrecord.recorded, hrecord.applied⟩ ?_
  simp only [SessionKept, MigrationState.goTo, MigrationState.modify_sessions_self]
  cases life with
  | fresh => simpa [LifeKept] using hlife
  | awaiting r =>
      have hask : NextInPlace files s' id (.ask r) := hlife
      exact nextInPlace_goTo hask
  | answered r a =>
      simp only [LifeKept, MigrationState.modify_sessions_self] at hlife ⊢
      exact ⟨nextInPlace_goTo hlife.1, hlife.2⟩
  | unwinding rest =>
      intro i hi
      rcases hlife i hi with ⟨hrest, hplace⟩
      exact ⟨hrest, fun hlive => inPlace_goTo (hplace (by simpa using hlive))⟩
  | connected => exact hlife

/-- A request that is executed for a process that still runs. -/
theorem MigrationsKept.served {d : Dialect} {files : List Migration} {s s' : MigrationState}
    {id : Nat} {r : Request} {a a' : MigrationReply} (hdistinct : (files.map Migration.name).Nodup)
    (hkept : MigrationsKept d files s) (hlife : LifeKept d files s id (.awaiting r))
    (hreaches : (s.sessions id).reaches d r = true) (hserve : serve d files s id r = some (s', a))
    (ha : a' = a ∨ a' = .failed) : MigrationsKept d files (s'.goTo id (.answered r a')) := by
  have hplace := hlife.1 (reaches_cases hreaches)
  rcases recordKept_of_serve hkept.record (fun _ _ => hplace) hserve with ⟨hleaves, hsdk, hrecord⟩
  refine hkept.goTo hleaves hrecord ⟨?_, hlife.2.grows hleaves.grows⟩
  rw [hsdk]
  rcases ha with rfl | rfl
  · exact serve_position _ hdistinct hkept.record hplace hserve
  · exact not_commit_mem_unwind _ r

/-- And one for a process that has raised. -/
theorem MigrationsKept.servedLate {d : Dialect} {files : List Migration} {s s' : MigrationState}
    {id : Nat} {r : Request} {rest : List Request} {a : MigrationReply}
    (hkept : MigrationsKept d files s)
    (hlife : LifeKept d files s id (.unwinding (r :: rest)))
    (hreaches : (s.sessions id).reaches d r = true)
    (hserve : serve d files s id r = some (s', a)) :
    MigrationsKept d files (s'.goTo id (.unwinding rest)) := by
  have hplace : ∀ i, r = .commit i → InPlace files s id r := by
    rintro i rfl
    refine (hlife i List.mem_cons_self).2 ((reaches_cases hreaches).resolve_right ?_)
    simp [Request.opens]
  rcases recordKept_of_serve hkept.record hplace hserve with ⟨hleaves, -, hrecord⟩
  exact hkept.goTo hleaves hrecord fun i hi =>
    absurd hi (commit_notMem_rest (fun j hj => (hlife j hj).1) i)

/-- Without its connection and its transaction a session still has what it needs. -/
theorem sessionKept_sever {d : Dialect} {files : List Migration} {s : MigrationState} {id : Nat}
    (h : SessionKept d files s id) :
    SessionKept d files
      ((s.endTx id).modify id fun session => { session with live := false }) id := by
  have hask : ∀ r, NextInPlace files s id (.ask r) → NextInPlace files
      ((s.endTx id).modify id fun session => { session with live := false }) id (.ask r) := by
    rintro r ⟨hplace, hrange⟩
    refine ⟨fun hlive => ?_, hrange⟩
    have hopens : r.opens = true := by simpa using hlive
    have hplace' := hplace (Or.inr hopens)
    cases r with
    | createLedger => simpa [InPlace] using MigrationState.endTx_tx
    | openTx i => exact ⟨by simpa using MigrationState.endTx_tx, hplace'.2⟩
    | _ => cases hopens
  unfold SessionKept at h ⊢
  have hlife : (((s.endTx id).modify id fun session =>
      { session with live := false }).sessions id).life = (s.sessions id).life := by
    simp [MigrationState.endTx, MigrationState.release, MigrationState.setTx]
  have hsdk : (((s.endTx id).modify id fun session =>
      { session with live := false }).sessions id).sdk = (s.sessions id).sdk := by
    simp [MigrationState.endTx, MigrationState.release, MigrationState.setTx]
  rw [hlife]
  cases hwhere : (s.sessions id).life with
  | fresh => simpa [LifeKept] using MigrationState.endTx_tx
  | awaiting r =>
      rw [hwhere] at h
      exact hask r h
  | answered r a =>
      rw [hwhere] at h
      rcases h with ⟨hnext, hrange⟩
      simp only [LifeKept, hsdk]
      refine ⟨?_, hrange⟩
      generalize nextRequest d (s.sessions id).sdk files r a = next at hnext
      cases next with
      | ask r' => exact hask r' hnext
      | connected => exact hnext
      | raised rest => exact hnext
  | unwinding rest =>
      rw [hwhere] at h
      exact fun i hi => ⟨(h i hi).1, fun hlive => absurd hlive (by simp)⟩
  | connected =>
      rw [hwhere] at h
      exact h

/-- What every step keeps. -/
theorem migrationsKept_of_step {d : Dialect} {files : List Migration} {s s' : MigrationState}
    {l : MigrationStep} (hdistinct : (files.map Migration.name).Nodup)
    (hkept : MigrationsKept d files s) (hstep : migrating d files s l = some s') :
    MigrationsKept d files s' := by
  have hrecord := hkept.record
  cases l with
  | start id sdk =>
      have hown := hkept.sessions id
      unfold SessionKept at hown
      simp only [migrating] at hstep
      split at hstep
      · rename_i hlife
        cases hstep
        rw [hlife] at hown
        refine hkept.of_session (leavesOthers_modify s id _)
          ⟨hrecord.bounded, hrecord.recorded, hrecord.applied⟩ ?_
        simp only [SessionKept, MigrationState.modify_sessions_self]
        have htx : (s.sessions id).tx = none := hown
        exact ask_inPlace (by simpa [InPlace] using htx)
      · cases hstep
  | execute id =>
      have hown := hkept.sessions id
      unfold SessionKept at hown
      simp only [migrating] at hstep
      split at hstep
      · rename_i r hlife
        rw [hlife] at hown
        split at hstep
        · rename_i hreaches
          simp only [Option.bind_eq_bind, Option.bind_eq_some_iff] at hstep
          rcases hstep with ⟨⟨s₁, a⟩, hserve, hstep⟩
          cases hstep
          exact hkept.served hdistinct hown hreaches hserve (Or.inl rfl)
        · cases hstep
      · rename_i r rest hlife
        rw [hlife] at hown
        split at hstep
        · rename_i hreaches
          simp only [Option.bind_eq_bind, Option.bind_eq_some_iff] at hstep
          rcases hstep with ⟨⟨s₁, a⟩, hserve, hstep⟩
          cases hstep
          exact hkept.servedLate hown hreaches hserve
        · cases hstep
      · cases hstep
  | refuse id ran =>
      have hown := hkept.sessions id
      unfold SessionKept at hown
      simp only [migrating] at hstep
      split at hstep
      · rename_i r hlife
        rw [hlife] at hown
        cases hstep
        rcases serveFailing_spec files s id ran r with ⟨hleaves, hrecord'⟩
        exact hkept.goTo hleaves (hrecord' hrecord)
          ⟨not_commit_mem_unwind _ r, hown.2.grows hleaves.grows⟩
      · rename_i r rest hlife
        rw [hlife] at hown
        cases hstep
        rcases serveFailing_spec files s id ran r with ⟨hleaves, hrecord'⟩
        exact hkept.goTo hleaves (hrecord' hrecord) fun i hi =>
          absurd hi (commit_notMem_rest (fun j hj => (hown j hj).1) i)
      · cases hstep
  | loseAnswer id =>
      have hown := hkept.sessions id
      unfold SessionKept at hown
      simp only [migrating] at hstep
      split at hstep
      · rename_i r hlife
        rw [hlife] at hown
        split at hstep
        · rename_i hreaches
          simp only [Option.bind_eq_bind, Option.bind_eq_some_iff] at hstep
          rcases hstep with ⟨⟨s₁, a⟩, hserve, hstep⟩
          cases hstep
          exact hkept.served hdistinct hown hreaches hserve (Or.inr rfl)
        · cases hstep
      · cases hstep
  | resume id =>
      have hown := hkept.sessions id
      unfold SessionKept at hown
      simp only [migrating] at hstep
      split at hstep
      · rename_i r a hlife
        rw [hlife] at hown
        cases hstep
        refine hkept.goTo (.refl s id) hrecord ?_
        have hnext := hown.1
        generalize nextRequest d (s.sessions id).sdk files r a = next at hnext
        cases next with
        | ask r' => exact hnext
        | connected => exact hnext
        | raised rest => exact fun i hi => absurd hi (hnext i)
      · cases hstep
  | cancel id =>
      have hown := hkept.sessions id
      unfold SessionKept at hown
      simp only [migrating] at hstep
      split at hstep
      · rename_i r _ hlife
        rw [hlife] at hown
        cases hstep
        refine hkept.goTo (.refl s id) hrecord fun i hi => ?_
        rcases List.mem_cons.mp hi with hr | hunwind
        · rw [← hr] at hown ⊢
          exact ⟨rfl, fun hlive => hown.1 (Or.inl hlive)⟩
        · exact absurd hunwind (not_commit_mem_unwind .python r i)
      · cases hstep
        exact hkept.goTo (.refl s id) hrecord fun i hi =>
          absurd hi (not_commit_mem_unwind .python _ i)
      · cases hstep
  | crash id =>
      have hown := hkept.sessions id
      unfold SessionKept at hown
      simp only [migrating] at hstep
      split at hstep
      · rename_i r hlife
        rw [hlife] at hown
        cases hstep
        refine hkept.goTo (.refl s id) hrecord fun i hi => ?_
        rw [← List.mem_singleton.mp hi] at hown ⊢
        exact ⟨rfl, fun hlive => hown.1 (Or.inl hlive)⟩
      · cases hstep
        exact hkept.goTo (.refl s id) hrecord fun i hi => absurd hi List.not_mem_nil
      · rename_i rest hlife
        rw [hlife] at hown
        cases hstep
        refine hkept.goTo (.refl s id) hrecord fun i hi => ?_
        rcases hown i (List.mem_of_mem_take hi) with ⟨hrest, hplace⟩
        rw [hrest]
        exact ⟨rfl, hplace⟩
      · cases hstep
      · cases hstep
  | sever id =>
      have hown := hkept.sessions id
      simp only [migrating] at hstep
      cases hstep
      refine hkept.of_session ((leavesOthers_endTx s id).trans (leavesOthers_modify _ id _))
        ⟨hrecord.bounded, hrecord.recorded, hrecord.applied⟩ ?_
      exact sessionKept_sever hown
  | replay id =>
      have hown := hkept.sessions id
      unfold SessionKept at hown
      simp only [migrating] at hstep
      split at hstep
      · rename_i r _ hlife
        rw [hlife] at hown
        rcases Option.map_eq_some_iff.mp hstep with ⟨i, hi, rfl⟩
        have hrange := hown.2 i hi
        refine hkept.goTo (leavesOthers_endTx s id)
          ⟨hrecord.bounded, hrecord.recorded, hrecord.applied⟩ (ask_inPlace ?_)
        exact ⟨MigrationState.endTx_tx, hrange⟩
      · cases hstep

/-! ## The result -/

/-- The statements of one file among those of files without a second one of its name. -/
theorem filter_flatMap_effects {l : List Migration} (hdistinct : (l.map Migration.name).Nodup)
    (name : String) :
    (l.flatMap Migration.effects).filter (fun e => decide (e.1 = name)) =
      ((l.find? fun m => decide (m.name = name)).map Migration.effects).getD [] := by
  induction l with
  | nil => rfl
  | cons m rest ih =>
      rw [List.map_cons, List.nodup_cons] at hdistinct
      rw [List.flatMap_cons, List.filter_append, ih hdistinct.2]
      by_cases hname : m.name = name
      · have hown : m.effects.filter (fun e => decide (e.1 = name)) = m.effects := by
          refine List.filter_eq_self.mpr fun e he => ?_
          rcases List.mem_map.mp he with ⟨st, -, rfl⟩
          exact decide_eq_true hname
        have hrest : rest.find? (fun m => decide (m.name = name)) = none := by
          refine List.find?_eq_none.mpr fun m' hm' hsame => hdistinct.1 ?_
          rw [hname, ← of_decide_eq_true hsame]
          exact List.mem_map_of_mem hm'
        simp [hown, hrest, hname]
      · have hown : m.effects.filter (fun e => decide (e.1 = name)) = [] := by
          refine List.filter_eq_nil_iff.mpr fun e he => ?_
          rcases List.mem_map.mp he with ⟨st, -, rfl⟩
          simpa using hname
        simp [hown, hname]

/-- What is promised of a database while processes connect to it. -/
structure MigrationsApplied (files : List Migration) (s : MigrationState) : Prop where
  ordered : files.Pairwise fun a b => a.name < b.name
  recorded : ∃ n ≤ files.length, s.recorded = (files.take n).map Migration.name ∧
    s.applied = (files.take n).flatMap Migration.effects
  /-- the statements of a file that is recorded are there once, of any other not at all -/
  once : ∀ m ∈ files, s.applied.filter (fun e => decide (e.1 = m.name)) =
    if m.name ∈ s.recorded then m.effects else []
  connected : ∀ id, (s.sessions id).life = .connected → s.recorded = files.map Migration.name

theorem distinct_loadMigrations (dir : MigrationDir) :
    ((loadMigrations dir).map Migration.name).Nodup := by
  have hperm := List.mergeSort_perm (dir.files.filter fun m => m.name.endsWith ".sql")
    fun a b => decide (a.name ≤ b.name)
  refine (hperm.map Migration.name).nodup_iff.mpr ?_
  exact dir.distinct.sublist (List.filter_sublist.map Migration.name)

theorem ordered_loadMigrations (dir : MigrationDir) :
    (loadMigrations dir).Pairwise fun a b => a.name < b.name := by
  have hle : (loadMigrations dir).Pairwise fun a b => a.name ≤ b.name := by
    refine (List.pairwise_mergeSort (fun a b c hab hbc => ?_) (fun a b => ?_) _).imp
      fun h => of_decide_eq_true h
    · exact decide_eq_true (le_trans (of_decide_eq_true hab) (of_decide_eq_true hbc))
    · simpa using le_total a.name b.name
  have hne : (loadMigrations dir).Pairwise fun a b => a.name ≠ b.name :=
    List.pairwise_map.mp (distinct_loadMigrations dir)
  exact hle.imp₂ (fun a b h h' => lt_of_le_of_ne h h') hne

/-- Two files. -/
def twoFiles : MigrationDir where
  files := [⟨"0002_purge_index.sql", ["create index", "update"]⟩,
    ⟨"0001_init.sql", ["create table"]⟩]
  distinct := by decide

/-- Two processes race on SQLite; one of them crashes with a statement on the way, the other waits
until its connection is dropped. -/
def racingRun : List MigrationStep :=
  [.start 0 .python, .start 1 .node, .execute 0, .resume 0, .execute 1, .resume 1, .execute 0,
    .execute 1, .resume 0, .execute 0, .resume 0, .execute 0, .crash 0, .execute 0, .sever 0,
    .execute 1, .resume 1, .execute 1, .resume 1, .execute 1, .resume 1, .execute 1, .resume 1,
    .execute 1]

end CairnQ
