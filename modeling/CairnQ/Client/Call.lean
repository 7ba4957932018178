import CairnQ.Client.Waiting
import CairnQ.Protocol.Provenance

/-!
# Calling a task

`call` submits a task, waits for it and turns the row it is handed into a value or an error.  Here
the call runs beside everybody else on the database: between any two of its steps others may
execute any statements.  What the caller gets is then traced to the worker whose report it is.

Main results:

- Theorem `callInvariant_of_reachable`: the rows a call reads are those of the protocol's own run.
- Theorem `call_explained`: a value is what a worker reported that had been handed the submitted
  payload and still held its lease; an error is what its worker failed it with for good, or that
  of its last lost lease; and a cancellation was asked for.
-/

namespace CairnQ

open Relational Transition

variable {J : Type}

/-! ## The call -/

/-- What `call` makes of the task it waited for. -/
inductive CallOutcome (J : Type)
  | result (result : Option J)
  | taskFailed (error : Option J)
  | taskCanceled (id : String)

/-- The end of `call`. -/
def callOutcome (final : Task J) : CallOutcome J :=
  if final.status = .succeeded then .result final.result
  else if final.status = .failed then .taskFailed final.error
  else .taskCanceled final.id

/-- Where a call stands: before its insertion, refused by it, or in its wait. -/
inductive CallerPhase (J : Type)
  | submitting
  | refused
  | waiting (taskId : String) (wait : WaitState J)

/-- The database with the statements executed on it so far, and the call. -/
structure CallerState (J : Type) where
  world : ProtocolState J
  log : List (Execution J)
  phase : CallerPhase J

/-- What comes next: somebody's statement, the call's own insertion, or a step of its wait. -/
inductive CallerEvent (J : Type)
  | elsewhere (e : Execution J)
  | submit (nowMs entryMs : Int)
  | wait (e : WaitEvent J)

/-- A statement is executed; a wait finds the database changed. -/
def CallerState.execute (d : Dialect) (s : CallerState J) (e : Execution J) :
    Option (CallerState J) :=
  (protocol d s.world e).map fun world =>
    { world := world
      log := s.log ++ [e]
      phase :=
        match s.phase with
        | .waiting taskId w => .waiting taskId { w with db := world.db }
        | phase => phase }

/-- The steps of the wait itself, and time passing in it. -/
def WaitEvent.own : WaitEvent J → Bool
  | .elsewhere _ => false
  | .probe | .measure | .read | .wake | .passes _ => true

/-- `call`, for a task submitted without a key. -/
def call (sdk : Sdk) (d : Dialect) (opts : PollOptions) (n : NewTask J) :
    Machine (CallerState J) (CallerEvent J)
  | s, .elsewhere e => s.execute d e
  | s, .submit nowMs entryMs =>
      match s.phase with
      | .submitting =>
          let e := Execution.alone nowMs (.insertTask n)
          (s.execute d e).map fun s' =>
            match (e.reply d s.world.db).rows with
            | [] => { s' with phase := .refused }
            | t :: _ =>
                { s' with phase := .waiting t.id (WaitState.entered opts s'.world.db entryMs) }
      | _ => none
  | s, .wait e =>
      match s.phase with
      | .waiting taskId w =>
          if e.own then
            (poll sdk opts (.id taskId) w e).map fun w' => { s with phase := .waiting taskId w' }
          else none
      | _ => none

/-- Ids are drawn afresh: nobody else submits under the one of the call. -/
def AloneUnderId (n : NewTask J) (_ : CallerState J) : CallerEvent J → Prop
  | .elsewhere e => ∀ n', e.statement = .insertTask n' → n'.id ≠ n.id
  | .submit _ _ | .wait _ => True

/-! ## What a call reads -/

/-- A row that was in the database after some part of the run, and was over. -/
def ReadOver (d : Dialect) (clockMs : Int) (id : String) (t : Task J)
    (log : List (Execution J)) : Prop :=
  t.status.isTerminal = true ∧ ∃ before after u, log = before ++ after ∧
    (protocol d).Steps anyStep (ProtocolState.fresh clockMs) before u ∧ u.db.get id = some t

theorem ReadOver.append {d : Dialect} {clockMs : Int} {id : String} {t : Task J}
    {log : List (Execution J)} (h : ReadOver d clockMs id t log) (e : Execution J) :
    ReadOver d clockMs id t (log ++ [e]) := by
  rcases h with ⟨hterminal, before, after, u, rfl, hbefore, ht⟩
  exact ⟨hterminal, before, after ++ [e], u, by rw [List.append_assoc], hbefore, ht⟩

/-- What every state of a call keeps. -/
structure CallInvariant (d : Dialect) (clockMs : Int) (n : NewTask J) (s : CallerState J) :
    Prop where
  run : (protocol d).Steps anyStep (ProtocolState.fresh clockMs) s.log s.world
  own : ∀ e ∈ s.log, ∀ n', e.statement = .insertTask n' → n'.id = n.id → n' = n
  current : ∀ taskId w, s.phase = .waiting taskId w → taskId = n.id ∧ w.db = s.world.db
  read : ∀ taskId w t, s.phase = .waiting taskId w → w.phase = .returned t →
    ReadOver d clockMs n.id t s.log

/-- The call before its first step, on a fresh database. -/
def CallerState.fresh (clockMs : Int) : CallerState J where
  world := ProtocolState.fresh clockMs
  log := []
  phase := .submitting

/-- A step of the wait's own leaves the database alone. -/
theorem poll_db {sdk : Sdk} {opts : PollOptions} {subject : WaitSubject} {w w' : WaitState J}
    {e : WaitEvent J} (hown : e.own = true) (hstep : poll sdk opts subject w e = some w') :
    w'.db = w.db := by
  cases pollStep_of_step hstep with
  | elsewhere db => cases hown
  | probe _ | finished _ _ | unread _ _ | read _ | wake _ | passes _ => rfl

/-- A wait that returns a row has just read it, and it was over. -/
theorem poll_returned {sdk : Sdk} {opts : PollOptions} {subject : WaitSubject}
    {w w' : WaitState J} {e : WaitEvent J} {t : Task J}
    (hstep : poll sdk opts subject w e = some w') (hreturned : w'.phase = .returned t) :
    w.phase = .returned t ∨ (subject.read w.db = some t ∧ t.status.isTerminal = true) := by
  cases pollStep_of_step hstep with
  | unread _ _ =>
      dsimp only at hreturned
      cases (of_finishBeat_eq_returned hreturned).1
  | read _ => exact Or.inr (of_finishBeat_eq_returned hreturned)
  | elsewhere _ | passes _ => exact Or.inl hreturned
  | probe _ | finished _ _ | wake _ => cases hreturned

section Step

variable {sdk : Sdk} {d : Dialect} {opts : PollOptions} {n : NewTask J} {clockMs : Int}
  {s s' : CallerState J}

theorem callInvariant_fresh : CallInvariant d clockMs n (CallerState.fresh clockMs) where
  run := Machine.Steps.nil _
  own e he := by cases he
  current taskId w h := by cases h
  read taskId w t h := by cases h

/-- A statement of anybody's. -/
theorem CallInvariant.execute (hinv : CallInvariant d clockMs n s) {e : Execution J}
    (hown : ∀ n', e.statement = .insertTask n' → n'.id = n.id → n' = n)
    (hstep : s.execute d e = some s') : CallInvariant d clockMs n s' := by
  rcases Option.map_eq_some_iff.mp hstep with ⟨world, hworld, rfl⟩
  refine ⟨hinv.run.append (Machine.Steps.single trivial hworld), fun e' he' => ?_, ?_, ?_⟩
  · rcases List.mem_append.mp he' with h | h
    · exact hinv.own e' h
    · rw [List.mem_singleton.mp h]
      exact hown
  · intro taskId w hphase
    cases hs : s.phase with
    | waiting taskId' w' =>
        rw [hs] at hphase
        cases hphase
        exact ⟨(hinv.current _ _ hs).1, rfl⟩
    | submitting | refused =>
        rw [hs] at hphase
        cases hphase
  · intro taskId w t hphase hreturned
    cases hs : s.phase with
    | waiting taskId' w' =>
        rw [hs] at hphase
        cases hphase
        exact (hinv.read _ _ t hs hreturned).append e
    | submitting | refused =>
        rw [hs] at hphase
        cases hphase

/-- The insertion returns the row of the submitted task. -/
theorem id_of_mem_rows_insert {u : ProtocolState J} {nowMs : Int} {t : Task J}
    (ht : t ∈ ((Execution.alone nowMs (.insertTask n)).reply d u.db).rows) : t.id = n.id := by
  rw [Execution.reply, exec_eq] at ht
  rcases (Postgres.exec_rows ht).2 with ⟨r, -, -, heff⟩ | ⟨-, n', hst, rfl⟩
  · cases heff
  · cases hst
    rfl

theorem callInvariant_step {e : CallerEvent J} (hinv : CallInvariant d clockMs n s)
    (halone : AloneUnderId n s e) (hstep : call sdk d opts n s e = some s') :
    CallInvariant d clockMs n s' := by
  cases e with
  | elsewhere e => exact hinv.execute (fun n' hst hid => absurd hid (halone n' hst)) hstep
  | submit nowMs entryMs =>
      simp only [call] at hstep
      split at hstep
      · rcases Option.map_eq_some_iff.mp hstep with ⟨mid, hmid, hs'⟩
        have hmid' : CallInvariant d clockMs n mid := by
          refine hinv.execute (fun n' hst _ => ?_) hmid
          cases hst
          rfl
        split at hs'
        · rw [← hs']
          exact ⟨hmid'.run, hmid'.own, fun _ _ h => (by cases h), fun _ _ _ h => (by cases h)⟩
        · next t rest hrows =>
          rw [← hs']
          refine ⟨hmid'.run, hmid'.own, fun _ _ h => ?_, fun _ _ _ h hreturned => ?_⟩
          · cases h
            exact ⟨id_of_mem_rows_insert (by rw [hrows]; exact List.mem_cons_self), rfl⟩
          · cases h
            cases hreturned
      · cases hstep
  | wait e =>
      simp only [call] at hstep
      split at hstep
      · next taskId w hphase =>
        split at hstep
        · next howned =>
          rcases Option.map_eq_some_iff.mp hstep with ⟨w', hw', rfl⟩
          rcases hinv.current taskId w hphase with ⟨rfl, hdb⟩
          refine ⟨hinv.run, hinv.own, fun _ _ h => ?_, fun _ _ t h hreturned => ?_⟩
          · cases h
            exact ⟨rfl, (poll_db howned hw').trans hdb⟩
          · cases h
            rcases poll_returned hw' hreturned with hbefore | ⟨hread, hterminal⟩
            · exact hinv.read _ _ t hphase hbefore
            · rw [hdb] at hread
              exact ⟨hterminal, s.log, [], s.world, by rw [List.append_nil], hinv.run, hread⟩
        · cases hstep
      · cases hstep

end Step

/-- Whatever others do meanwhile, the call's wait reads the rows of the protocol's own run. -/
theorem callInvariant_of_reachable {sdk : Sdk} {d : Dialect} {opts : PollOptions} {n : NewTask J}
    {clockMs : Int} {s : CallerState J}
    (hreach : (call sdk d opts n).Reachable (AloneUnderId n) (CallerState.fresh clockMs) s) :
    CallInvariant d clockMs n s :=
  hreach.invariant (fun _ _ _ hinv halone hstep => callInvariant_step hinv halone hstep)
    callInvariant_fresh

/-! ## What a call answers -/

/-- Somebody answers for the outcome of a call: its value was reported, or its error written, by
the worker that had been handed the submitted task and still held its lease, or by the recovery
of its last lease; its cancellation was asked for. -/
def CallOutcome.Explained (d : Dialect) (start : ProtocolState J) (id : String) (t : Task J)
    (log : List (Execution J)) (outcome : CallOutcome J) : Prop :=
  let had (workerId : String) (before : List (Execution J)) := (protocol d).Since start
    (fun _ u e _ => HandsOver d workerId t u e) (RunsAs workerId t) before
  match outcome with
  | .result value => (protocol d).Since start
      (fun before _ e _ => ∃ workerId write, had workerId before ∧ write.Reports value ∧
        e.statement = .owned id workerId write)
      (Stored id fun r => r = t) log
  | .taskFailed error => (protocol d).Since start
      (fun before _ e _ => ∃ workerId reason, had workerId before ∧ error = some reason ∧
        ((∃ retryable delayMs, e.statement = .owned id workerId (.fail reason retryable delayMs) ∧
            (retryable = false ∨ t.maxAttempts ≤ t.attempt)) ∨
          (e.statement = .recoverLeases reason ∧ t.maxAttempts ≤ t.attempt)))
      (Stored id fun r => r = t) log
  | .taskCanceled canceled => canceled = id ∧ (protocol d).Since start
      (fun _ u e _ => Cancels d id u e) (CancelAsked id) log

theorem explained_callOutcome {d : Dialect} {clockMs : Int} {u : ProtocolState J}
    {log : List (Execution J)}
    (hrun : (protocol d).Steps anyStep (ProtocolState.fresh clockMs) log u) {id : String}
    {t : Task J} (ht : u.db.get id = some t) (hterminal : t.status.isTerminal = true) :
    (callOutcome t).Explained d (ProtocolState.fresh clockMs) id t log := by
  have hid := Database.id_of_get ht
  have hsettled := settled_since hrun ht hterminal
  cases hstatus : t.status with
  | succeeded =>
      rw [callOutcome, if_pos hstatus]
      unfold CallOutcome.Explained
      refine hsettled.imp (fun before u' e v _ _ h => ?_) fun _ h => h
      simp only [SettledBy, hstatus, hid] at h
      exact h
  | failed =>
      rw [callOutcome, if_neg (by simp [hstatus]), if_pos hstatus]
      unfold CallOutcome.Explained
      refine hsettled.imp (fun before u' e v _ _ h => ?_) fun _ h => h
      simp only [SettledBy, hstatus, hid] at h
      exact h
  | canceled =>
      rw [callOutcome, if_neg (by simp [hstatus]), if_neg (by simp [hstatus])]
      exact ⟨hid, canceled_since hrun ⟨t, ht, Or.inl hstatus⟩⟩
  | queued | running =>
      rw [hstatus] at hterminal
      cases hterminal

/-- A call whose task is done between two of its probes. -/
def promptCall : List (CallerEvent Nat) :=
  [.submit 0 0, .wait .probe, .wait .measure,
    .elsewhere (.alone 1 (.claim (.claimOneQueue "default" none) "w" 10 1)),
    .elsewhere (.alone 2 (.owned "t" "w" (.complete (some 5)))),
    .wait (.passes 100), .wait .wake, .wait .probe, .wait .measure, .wait .read]

/-- The state of that call at its end. -/
def promptCallState : CallerState Nat :=
  (call .python .sqlite { timeoutMs := 1000, pollMs := 100, maxPollMs := 500 }
    (.plain "t" "work" 3 0)).drive (CallerState.fresh 0) promptCall

end CairnQ
