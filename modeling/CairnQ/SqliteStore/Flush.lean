import CairnQ.Protocol.Execution
import CairnQ.Transition.Machine
import CairnQ.Transition.History

/-!
# Group commit on the SQLite stores

The pending queue of the SQLite stores and the flusher that drains it.  A write is
queued with the future of its caller; a turn on the store lock runs a lone write by
itself and several writes in one transaction, and every member is resolved only
after the commit.  The error of every statement, also of {lit}`BEGIN` and
{lit}`COMMIT`, is a choice of the run, and so is every arrival and every commit of
another connection.

The two stores differ in when a write can arrive: the Python flush suspends at every
statement, the TypeScript flush runs in one piece.  They differ also in where an
error of {lit}`BEGIN` is delivered.

Main results:

- Theorem `flushStep_cases`: what one step can do, in both stores.
-/

namespace CairnQ

open Transition

/-! ## Errors -/

/-- What the stores look at in an error of SQLite: whether it is an operational error,
its symbolic code if the driver gives one, and its message. -/
structure SqliteError where
  operational : Bool
  code : Option String
  message : String
  deriving DecidableEq, Repr

/-- Whether a text starts with the given one. -/
def startsWith (text start : String) : Bool :=
  start.toList.isPrefixOf text.toList

/-- `_is_busy`, `isBusy`: SQLite refused to wait for the write lock. -/
def Sdk.isBusy : Sdk → SqliteError → Bool
  | .python, e =>
      e.operational && match e.code with
        | some name => startsWith name "SQLITE_BUSY"
        | none => startsWith e.message "database is locked"
  | .node, e =>
      match e.code with
      | some code => startsWith code "SQLITE_BUSY"
      | none => false

/-- Whether the event loop may run something else while a statement of `flush` runs. -/
def Sdk.suspends : Sdk → Bool
  | .python => true
  | .node => false

/-! ## The store -/

section

variable {D W R : Type}

/-- `_Pending`: a write waiting for its turn on the connection.  Its future is the one of the
caller, who is numbered by arrival. -/
structure Pending (W : Type) where
  id : Nat
  write : W

/-- What a future is resolved with: the rows of its statement, the error of its statement, or
the error that ended the whole turn. -/
inductive Outcome (R : Type)
  | rows (rows : R)
  | failed (e : SqliteError)
  | aborted (e : SqliteError)

/-- A call of `resolve` or `reject`, with the turn that made it. -/
structure Resolution (R : Type) where
  id : Nat
  turn : Nat
  outcome : Outcome R

/-- Where the flusher is. -/
inductive FlushPhase (apply : Int → W → D → D × R) (start : D)
  /-- between two turns: no flusher, waiting for the lock, or backing off -/
  | between
  /-- the lone write is handed to the connection; afterwards, with its rows -/
  | single (only : Pending W) (rows : Option R)
  /-- `BEGIN IMMEDIATE` is handed to the connection -/
  | beginning
  /-- the transaction is open: the batch taken, the results so far, and the state the
  transaction sees -/
  | running (batch : List (Pending W)) (out : List (Except SqliteError R))
      (working : History apply start)
  /-- the transaction is committed -/
  | committed (batch : List (Pending W)) (out : List (Except SqliteError R))
  /-- `flush` raised the error to `_with_lock`, `withLock` -/
  | raised (e : SqliteError)

/-- The store, its queue and its flusher.  Ghost state: every write accepted so far, and the
number of the turn. -/
structure FlushState (apply : Int → W → D → D × R) (start : D) where
  accepted : List W
  pending : List (Pending W)
  phase : FlushPhase apply start
  turn : Nat
  store : History apply start
  resolutions : List (Resolution R)

/-- Steps of the store: a write arrives, another connection commits a change, a turn starts,
the statement handed to the connection succeeds or fails, the flusher goes on after the
answer, and what becomes of an error that `flush` raised. -/
inductive FlushStep (D W : Type)
  | fetch (write : W)
  | external (change : D → D)
  | turn
  | succeed (nowMs : Int)
  | fail (e : SqliteError) (inTransaction : Bool)
  | resume
  | retry
  | strand

variable {apply : Int → W → D → D × R} {start : D}

/-- Nothing of the flush is under way. -/
def FlushPhase.isBetween : FlushPhase apply start → Bool
  | .between => true
  | .raised _ => true
  | _ => false

/-- The transaction of the batch is open. -/
def FlushPhase.inTransaction : FlushPhase apply start → Bool
  | .running _ _ _ => true
  | _ => false

namespace FlushState

/-- A store before its first write. -/
def fresh (apply : Int → W → D → D × R) (start : D) : FlushState apply start where
  accepted := []
  pending := []
  phase := .between
  turn := 0
  store := .empty
  resolutions := []

variable (s : FlushState apply start)

/-- `_fetch`, `fetch`: a write is accepted and queued. -/
def fetch (write : W) : FlushState apply start :=
  { s with
    accepted := s.accepted ++ [write]
    pending := s.pending ++ [⟨s.accepted.length, write⟩] }

/-- Resolve every member of a batch with its own result. -/
def resolveEach (batch : List (Pending W)) (out : List (Except SqliteError R)) :
    FlushState apply start :=
  { s with
    phase := .between
    resolutions := s.resolutions ++ (batch.zip out).map fun member =>
      ⟨member.1.id, s.turn, match member.2 with
        | .ok rows => .rows rows
        | .error e => .failed e⟩ }

/-- Reject every given write with the error that ended the turn. -/
def rejectAll (writes : List (Pending W)) (e : SqliteError) : FlushState apply start :=
  { s with
    phase := .between
    resolutions := s.resolutions ++ writes.map fun w => ⟨w.id, s.turn, .aborted e⟩ }

/-- Reject everything that is queued. -/
def rejectPending (e : SqliteError) : FlushState apply start :=
  { s with pending := [] }.rejectAll s.pending e

/-- The transaction is rolled back: on a lost write lock the batch goes back to the head of the
queue, on any other error every member is rejected. -/
def rollback (sdk : Sdk) (batch : List (Pending W)) (e : SqliteError) : FlushState apply start :=
  if sdk.isBusy e then { s with pending := batch ++ s.pending, phase := .raised e }
  else s.rejectAll batch e

/-- `flush`: a lone write runs by itself, several share a transaction. -/
def startTurn : Option (FlushState apply start) :=
  match s.phase, s.pending with
  | .between, [only] => some { s with phase := .single only none, turn := s.turn + 1 }
  | .between, _ :: _ :: _ => some { s with phase := .beginning, turn := s.turn + 1 }
  | _, _ => none

/-- The statement handed to the connection succeeds. -/
def succeed (nowMs : Int) : Option (FlushState apply start) :=
  match s.phase with
  | .single only none =>
      some { s with
        store := s.store.perform only.id only.write nowMs
        phase := .single only (some (s.store.answer only.write nowMs)) }
  | .beginning => some { s with pending := [], phase := .running s.pending [] s.store }
  | .running batch out working =>
      match batch[out.length]? with
      | some member =>
          some { s with
            phase := .running batch (out ++ [.ok (working.answer member.write nowMs)])
              (working.perform member.id member.write nowMs) }
      | none => some { s with store := working, phase := .committed batch out }
  | _ => none

/-- The statement handed to the connection fails, and leaves a transaction open or not. -/
def fail (sdk : Sdk) (e : SqliteError) (inTransaction : Bool) : Option (FlushState apply start) :=
  match s.phase with
  | .single only none =>
      if sdk.isBusy e then some { s with phase := .raised e }
      else some ({ s with pending := s.pending.tail }.resolveEach [only] [.error e])
  | .beginning =>
      match sdk with
      | .python => some ({ s with pending := [] }.rollback .python s.pending e)
      | .node => some { s with phase := .raised e }
  | .running batch out working =>
      match batch[out.length]? with
      | some _ =>
          if inTransaction then some { s with phase := .running batch (out ++ [.error e]) working }
          else some (s.rollback sdk batch e)
      | none => some (s.rollback sdk batch e)
  | _ => none

/-- The flusher goes on after the lone write or after the commit. -/
def resume : Option (FlushState apply start) :=
  match s.phase with
  | .single only (some rows) =>
      some ({ s with pending := s.pending.tail }.resolveEach [only] [.ok rows])
  | .committed batch out => some (s.resolveEach batch out)
  | _ => none

/-- Back off and try again: only on a lost write lock. -/
def retry (sdk : Sdk) : Option (FlushState apply start) :=
  match s.phase with
  | .raised e => if sdk.isBusy e then some { s with phase := .between } else none
  | _ => none

/-- `_flush_loop`, `drain`: the error is not retried, and everything queued is rejected. -/
def strand : Option (FlushState apply start) :=
  match s.phase with
  | .raised e => some (s.rejectPending e)
  | _ => none

end FlushState

/-- The store under group commit. -/
def flushing (sdk : Sdk) (apply : Int → W → D → D × R) (start : D) :
    Machine (FlushState apply start) (FlushStep D W)
  | s, .fetch write => if sdk.suspends || s.phase.isBetween then some (s.fetch write) else none
  | s, .external change =>
      if s.phase.inTransaction then none else some { s with store := s.store.external change }
  | s, .turn => s.startTurn
  | s, .succeed nowMs => s.succeed nowMs
  | s, .fail e inTransaction => s.fail sdk e inTransaction
  | s, .resume => s.resume
  | s, .retry => s.retry sdk
  | s, .strand => s.strand

/-! ## What one step can do -/

/-- The writes without an outcome, in the order of arrival. -/
def FlushState.unanswered (s : FlushState apply start) : List (Pending W) :=
  match s.phase with
  | .running batch _ _ => batch ++ s.pending
  | .committed batch _ => batch ++ s.pending
  | _ => s.pending

/-- The phases in which an error can end the turn. -/
inductive FlushPhase.Abortable : FlushPhase apply start → Prop
  | single (only : Pending W) : Abortable (.single only none)
  | beginning : Abortable .beginning
  | running (batch : List (Pending W)) (out : List (Except SqliteError R))
      (working : History apply start) : Abortable (.running batch out working)
  | raised (e : SqliteError) : Abortable (.raised e)

/-- The cases of one step, with the state it leads to. -/
inductive FlushCase (s : FlushState apply start) : FlushState apply start → Prop
  | accepted (write : W) : FlushCase s (s.fetch write)
  | external (change : D → D) (hphase : s.phase.inTransaction = false) :
      FlushCase s { s with store := s.store.external change }
  | startedSingle (only : Pending W) (hphase : s.phase = .between) (hpending : s.pending = [only]) :
      FlushCase s { s with phase := .single only none, turn := s.turn + 1 }
  | startedBatch (hphase : s.phase = .between) :
      FlushCase s { s with phase := .beginning, turn := s.turn + 1 }
  | executedSingle (only : Pending W) (nowMs : Int) (hphase : s.phase = .single only none) :
      FlushCase s { s with
        store := s.store.perform only.id only.write nowMs
        phase := .single only (some (s.store.answer only.write nowMs)) }
  | began (hphase : s.phase = .beginning) :
      FlushCase s { s with pending := [], phase := .running s.pending [] s.store }
  | executed (batch : List (Pending W)) (out : List (Except SqliteError R))
      (working : History apply start) (member : Pending W) (nowMs : Int)
      (hphase : s.phase = .running batch out working) (hmember : batch[out.length]? = some member) :
      FlushCase s { s with
        phase := .running batch (out ++ [.ok (working.answer member.write nowMs)])
          (working.perform member.id member.write nowMs) }
  | failed (batch : List (Pending W)) (out : List (Except SqliteError R))
      (working : History apply start) (member : Pending W) (e : SqliteError)
      (hphase : s.phase = .running batch out working) (hmember : batch[out.length]? = some member) :
      FlushCase s { s with phase := .running batch (out ++ [.error e]) working }
  | committed (batch : List (Pending W)) (out : List (Except SqliteError R))
      (working : History apply start) (hphase : s.phase = .running batch out working)
      (hall : batch.length ≤ out.length) :
      FlushCase s { s with store := working, phase := .committed batch out }
  | putBack (e : SqliteError) (hphase : s.phase.Abortable) :
      FlushCase s { s with pending := s.unanswered, phase := .raised e }
  | rejectedSingle (only : Pending W) (e : SqliteError) (hphase : s.phase = .single only none) :
      FlushCase s ({ s with pending := s.pending.tail }.resolveEach [only] [.error e])
  | rejectedAll (writes rest : List (Pending W)) (e : SqliteError) (hphase : s.phase.Abortable)
      (hwrites : s.unanswered = writes ++ rest) :
      FlushCase s ({ s with pending := rest }.rejectAll writes e)
  | resolvedSingle (only : Pending W) (rows : R) (hphase : s.phase = .single only (some rows)) :
      FlushCase s ({ s with pending := s.pending.tail }.resolveEach [only] [.ok rows])
  | resolvedBatch (batch : List (Pending W)) (out : List (Except SqliteError R))
      (hphase : s.phase = .committed batch out) : FlushCase s (s.resolveEach batch out)
  | retried (e : SqliteError) (hphase : s.phase = .raised e) :
      FlushCase s { s with phase := .between }

/-- A rollback puts the batch back or rejects it. -/
theorem rollback_cases {s : FlushState apply start} (sdk : Sdk) {batch rest : List (Pending W)}
    (e : SqliteError) (hphase : s.phase.Abortable) (hwrites : s.unanswered = batch ++ rest) :
    FlushCase s ({ s with pending := rest }.rollback sdk batch e) := by
  unfold FlushState.rollback
  split
  · rw [← hwrites]
    exact .putBack e hphase
  · exact .rejectedAll batch rest e hphase hwrites

theorem startTurn_cases {s s' : FlushState apply start} (h : s.startTurn = some s') :
    FlushCase s s' := by
  unfold FlushState.startTurn at h
  split at h
  · rename_i only hphase hpending
    cases h
    exact .startedSingle only hphase hpending
  · rename_i hphase hpending
    cases h
    exact .startedBatch hphase
  · cases h

theorem succeed_cases {s s' : FlushState apply start} {nowMs : Int}
    (h : s.succeed nowMs = some s') : FlushCase s s' := by
  unfold FlushState.succeed at h
  split at h
  · rename_i only hphase
    cases h
    exact .executedSingle only nowMs hphase
  · rename_i hphase
    cases h
    exact .began hphase
  · rename_i batch out working hphase
    split at h
    · rename_i member hmember
      cases h
      exact .executed batch out working member nowMs hphase hmember
    · rename_i hall
      cases h
      exact .committed batch out working hphase (List.getElem?_eq_none_iff.mp hall)
  · cases h

theorem fail_cases {sdk : Sdk} {s s' : FlushState apply start} {e : SqliteError}
    {inTransaction : Bool} (h : s.fail sdk e inTransaction = some s') : FlushCase s s' := by
  unfold FlushState.fail at h
  split at h
  · rename_i only hphase
    split at h
    · cases h
      have := FlushCase.putBack (s := s) e (by rw [hphase]; exact .single only)
      simpa only [FlushState.unanswered, hphase] using this
    · cases h
      exact .rejectedSingle only e hphase
  · rename_i hphase
    have habort : s.phase.Abortable := by
      rw [hphase]
      exact .beginning
    have hwrites : s.unanswered = s.pending ++ [] := by
      simp only [FlushState.unanswered, hphase, List.append_nil]
    split at h
    · cases h
      exact rollback_cases .python e habort hwrites
    · cases h
      have := FlushCase.putBack (s := s) e habort
      simpa only [FlushState.unanswered, hphase] using this
  · rename_i batch out working hphase
    have habort : s.phase.Abortable := by
      rw [hphase]
      exact .running batch out working
    have hwrites : s.unanswered = batch ++ s.pending := by
      simp only [FlushState.unanswered, hphase]
    split at h
    · rename_i member hmember
      split at h
      · cases h
        exact .failed batch out working member e hphase hmember
      · cases h
        exact rollback_cases sdk e habort hwrites
    · cases h
      exact rollback_cases sdk e habort hwrites
  · cases h

theorem resume_cases {s s' : FlushState apply start} (h : s.resume = some s') :
    FlushCase s s' := by
  unfold FlushState.resume at h
  split at h
  · rename_i only rows hphase
    cases h
    exact .resolvedSingle only rows hphase
  · rename_i batch out hphase
    cases h
    exact .resolvedBatch batch out hphase
  · cases h

/-- Every step of the store is one of the cases. -/
theorem flushStep_cases {sdk : Sdk} {s s' : FlushState apply start} {l : FlushStep D W}
    (h : flushing sdk apply start s l = some s') : FlushCase s s' := by
  cases l with
  | fetch write =>
      simp only [flushing] at h
      split at h
      · cases h
        exact .accepted write
      · cases h
  | external change =>
      simp only [flushing] at h
      split at h
      · cases h
      · rename_i hphase
        cases h
        exact .external change (by simpa using hphase)
  | turn => exact startTurn_cases h
  | succeed nowMs => exact succeed_cases h
  | fail e inTransaction => exact fail_cases h
  | resume => exact resume_cases h
  | retry =>
      simp only [flushing, FlushState.retry] at h
      split at h
      · rename_i e hphase
        split at h
        · cases h
          exact .retried e hphase
        · cases h
      · cases h
  | strand =>
      simp only [flushing, FlushState.strand] at h
      split at h
      · rename_i e hphase
        cases h
        refine .rejectedAll s.pending [] e (by rw [hphase]; exact .raised e) ?_
        simp only [FlushState.unanswered, hphase, List.append_nil]
      · cases h

end

end CairnQ
