import CairnQ.Protocol.Execution
import CairnQ.Transition.Machine

/-!
# Waiting for a task

The loop of `wait` and `wait_by_key`: probe the status, read the whole row when the probe
says finished or on the timeout beat, nap, and again with a longer interval.  The probe,
the read and the nap are awaited, so the database may be anything at each of them and the
clock may have advanced; the rest of a beat runs without a pause.  A statement that
fails ends the wait with its own error and is left out.

Main results:

- Theorem `nextPollMs_lt` and `nextPollMs_max`: the interval grows to its ceiling, whatever
  becomes of the product by 1.5.
- Theorem `wait_sound`: what a wait returns was read terminal, what it reports as a
  timeout was not, naps fit the time that remains, and the first late beat is the last.
-/

namespace CairnQ

open Relational Transition

variable {J : Type}

/-! ## The interval -/

/-- `int(current * _GROWTH)` and `Math.floor(current * GROWTH)`, with a growth of 1.5. -/
def grown (sdk : Sdk) (current : Int) : Int :=
  match sdk with
  | .python => (current * 3).tdiv 2
  | .node => (current * 3).fdiv 2

/-- `next_poll_ms`. -/
def nextPollMs (sdk : Sdk) (current maxMs : Int) : Int :=
  min maxMs (max (current + 1) (grown sdk current))

theorem nextPollMs_le (sdk : Sdk) (current maxMs : Int) : nextPollMs sdk current maxMs ≤ maxMs :=
  Int.min_le_left ..

/-- One more is in reach however the product is rounded. -/
theorem nextPollMs_lt (sdk : Sdk) {current maxMs : Int} (h : current < maxMs) :
    current < nextPollMs sdk current maxMs := by
  have hnext : current + 1 ≤ max (current + 1) (grown sdk current) := Int.le_max_left ..
  unfold nextPollMs
  omega

/-- The ceiling is kept. -/
theorem nextPollMs_max (sdk : Sdk) (maxMs : Int) : nextPollMs sdk maxMs maxMs = maxMs := by
  have hnext : maxMs + 1 ≤ max (maxMs + 1) (grown sdk maxMs) := Int.le_max_left ..
  unfold nextPollMs
  omega

/-! ## What is waited on -/

/-- `TaskRef`: the two columns of the status probe. -/
structure TaskRef where
  id : String
  status : TaskStatus
deriving DecidableEq, Repr

/-- What a wait follows: a task, or whatever task is current under a key. -/
inductive WaitSubject
  | id (taskId : String)
  | key (key : String)
deriving DecidableEq, Repr

/-- `get.sql` and `get_by_key.sql`. -/
def WaitSubject.read (subject : WaitSubject) (db : Database J) : Option (Task J) :=
  match subject with
  | .id taskId => db.get taskId
  | .key k => (db.getKey k).bind db.get

/-- `get_status.sql` and `get_status_by_key.sql`. -/
def WaitSubject.probe (subject : WaitSubject) (db : Database J) : Option TaskRef :=
  (subject.read db).map fun t => { id := t.id, status := t.status }

/-- The text a timeout names when no row was found. -/
def WaitSubject.text : WaitSubject → String
  | .id taskId => taskId
  | .key k => k

/-- The key a timeout reports. -/
def WaitSubject.key? : WaitSubject → Option String
  | .id _ => none
  | .key k => some k

/-- What a nap subscribes to: a key that points at nothing is slept on plainly. -/
def WaitSubject.wakeOn (subject : WaitSubject) (ref : Option TaskRef) : Option String :=
  match subject with
  | .id taskId => some taskId
  | .key _ => ref.map TaskRef.id

/-! ## The loop -/

/-- `PollOptions`. -/
structure PollOptions where
  timeoutMs : Int
  pollMs : Int
  maxPollMs : Int
deriving DecidableEq, Repr

/-- `TaskTimeout`. -/
structure TaskTimeout (J : Type) where
  taskId : String
  timeoutMs : Int
  task : Option (Task J)
  key : Option String

/-- Where the loop stands: before a probe, after it, before the full read, in a nap it asked
for, or at its end. -/
inductive WaitPhase (J : Type)
  | probing
  | probed (ref : Option TaskRef)
  | reading (ref : TaskRef) (remaining : Int)
  | napping (on : Option String) (ms remaining : Int)
  | returned (task : Task J)
  | timedOut (error : TaskTimeout J)

/-- A wait under way, with the clock reading of its current beat and the number of its naps
so far. -/
structure WaitState (J : Type) where
  db : Database J
  clockMs : Int
  deadline : Int
  interval : Int
  beatMs : Int
  naps : Nat
  phase : WaitPhase J

/-- The loop entered at a clock reading. -/
def WaitState.entered (opts : PollOptions) (db : Database J) (nowMs : Int) : WaitState J where
  db := db
  clockMs := nowMs
  deadline := nowMs + opts.timeoutMs
  interval := opts.pollMs
  beatMs := nowMs
  naps := 0
  phase := .probing

/-- What comes next: the loop's own steps, any change of the database, and time passing. -/
inductive WaitEvent (J : Type)
  | probe
  | measure
  | read
  | wake
  | elsewhere (db : Database J)
  | passes (nowMs : Int)

/-- The rest of a beat, once the full read is done or skipped. -/
def finishBeat (opts : PollOptions) (subject : WaitSubject) (interval : Int)
    (ref : Option TaskRef) (remaining : Int) (task : Option (Task J)) : WaitPhase J :=
  match task.filter fun t => t.status.isTerminal with
  | some t => .returned t
  | none =>
      if remaining ≤ 0 then
        .timedOut
          { taskId := (ref.map TaskRef.id).getD subject.text
            timeoutMs := opts.timeoutMs
            task := task
            key := subject.key? }
      else .napping (subject.wakeOn ref) (min interval remaining) remaining

/-- `_poll`. -/
def poll (sdk : Sdk) (opts : PollOptions) (subject : WaitSubject) :
    Machine (WaitState J) (WaitEvent J)
  | s, .probe =>
      match s.phase with
      | .probing => some { s with phase := .probed (subject.probe s.db) }
      | _ => none
  | s, .measure =>
      match s.phase with
      | .probed none =>
          let remaining := s.deadline - s.clockMs
          some { s with
            beatMs := s.clockMs
            phase := finishBeat opts subject s.interval none remaining none }
      | .probed (some ref) =>
          let remaining := s.deadline - s.clockMs
          if ref.status.isTerminal ∨ remaining ≤ 0 then
            some { s with beatMs := s.clockMs, phase := .reading ref remaining }
          else
            some { s with
              beatMs := s.clockMs
              phase := finishBeat opts subject s.interval (some ref) remaining none }
      | _ => none
  | s, .read =>
      match s.phase with
      | .reading ref remaining =>
          let task := subject.read s.db
          some { s with phase := finishBeat opts subject s.interval (some ref) remaining task }
      | _ => none
  | s, .wake =>
      match s.phase with
      | .napping _ _ _ =>
          some { s with
            interval := nextPollMs sdk s.interval opts.maxPollMs
            naps := s.naps + 1
            phase := .probing }
      | _ => none
  | s, .elsewhere db => some { s with db := db }
  | s, .passes nowMs => if s.clockMs ≤ nowMs then some { s with clockMs := nowMs } else none

/-! ## One step -/

/-- What one step does, event by event. -/
inductive PollStep (sdk : Sdk) (opts : PollOptions) (subject : WaitSubject) (s : WaitState J) :
    WaitEvent J → WaitState J → Prop
  | probe (hphase : s.phase = .probing) :
      PollStep sdk opts subject s .probe { s with phase := .probed (subject.probe s.db) }
  | finished {ref : TaskRef} (hphase : s.phase = .probed (some ref))
      (hread : ref.status.isTerminal = true ∨ s.deadline - s.clockMs ≤ 0) :
      PollStep sdk opts subject s .measure
        { s with beatMs := s.clockMs, phase := .reading ref (s.deadline - s.clockMs) }
  | unread {ref : Option TaskRef} (hphase : s.phase = .probed ref)
      (hskip : ∀ r, ref = some r → r.status.isTerminal = false ∧ 0 < s.deadline - s.clockMs) :
      PollStep sdk opts subject s .measure
        { s with
          beatMs := s.clockMs
          phase := finishBeat opts subject s.interval ref (s.deadline - s.clockMs) none }
  | read {ref : TaskRef} {remaining : Int} (hphase : s.phase = .reading ref remaining) :
      PollStep sdk opts subject s .read
        { s with
          phase := finishBeat opts subject s.interval (some ref) remaining (subject.read s.db) }
  | wake {on : Option String} {ms remaining : Int} (hphase : s.phase = .napping on ms remaining) :
      PollStep sdk opts subject s .wake
        { s with
          interval := nextPollMs sdk s.interval opts.maxPollMs
          naps := s.naps + 1
          phase := .probing }
  | elsewhere (db : Database J) :
      PollStep sdk opts subject s (.elsewhere db) { s with db := db }
  | passes {nowMs : Int} (hnow : s.clockMs ≤ nowMs) :
      PollStep sdk opts subject s (.passes nowMs) { s with clockMs := nowMs }

section Step

variable {sdk : Sdk} {opts : PollOptions} {subject : WaitSubject} {s s' : WaitState J}
  {e : WaitEvent J}

theorem pollStep_of_step (hstep : poll sdk opts subject s e = some s') :
    PollStep sdk opts subject s e s' := by
  cases e with
  | probe =>
      simp only [poll] at hstep
      split at hstep
      · rename_i hphase
        cases hstep
        exact .probe hphase
      · cases hstep
  | measure =>
      simp only [poll] at hstep
      split at hstep
      · rename_i hphase
        cases hstep
        exact .unread hphase (by simp)
      · rename_i ref hphase
        split at hstep
        · rename_i hread
          cases hstep
          exact .finished hphase hread
        · rename_i hread
          cases hstep
          refine .unread hphase fun r hr => ?_
          cases hr
          rw [not_or, Bool.not_eq_true, Int.not_le] at hread
          exact hread
      · cases hstep
  | read =>
      simp only [poll] at hstep
      split at hstep
      · rename_i hphase
        cases hstep
        exact .read hphase
      · cases hstep
  | wake =>
      simp only [poll] at hstep
      split at hstep
      · rename_i hphase
        cases hstep
        exact .wake hphase
      · cases hstep
  | elsewhere db =>
      cases hstep
      exact .elsewhere db
  | passes nowMs =>
      simp only [poll, Option.ite_none_right_eq_some, Option.some.injEq] at hstep
      rcases hstep with ⟨hnow, rfl⟩
      exact .passes hnow

/-- How a beat can end. -/
theorem finishBeat_cases (opts : PollOptions) (subject : WaitSubject) (interval : Int)
    (ref : Option TaskRef) (remaining : Int) (task : Option (Task J)) :
    (∃ t, task = some t ∧ t.status.isTerminal = true ∧
      finishBeat opts subject interval ref remaining task = .returned t) ∨
      ((∀ t, task = some t → t.status.isTerminal = false) ∧ remaining ≤ 0 ∧
        ∃ error, finishBeat opts subject interval ref remaining task = .timedOut error ∧
          error.task = task) ∨
      ((∀ t, task = some t → t.status.isTerminal = false) ∧ 0 < remaining ∧
        finishBeat opts subject interval ref remaining task =
          .napping (subject.wakeOn ref) (min interval remaining) remaining) := by
  unfold finishBeat
  cases hfilter : task.filter fun t => t.status.isTerminal with
  | some t =>
      rw [Option.filter_eq_some_iff] at hfilter
      exact Or.inl ⟨t, hfilter.1, hfilter.2, rfl⟩
  | none =>
      have hlive : ∀ t, task = some t → t.status.isTerminal = false := by
        rw [Option.filter_eq_none_iff] at hfilter
        exact fun t ht => by simpa using hfilter t ht
      by_cases hlate : remaining ≤ 0
      · exact Or.inr (Or.inl ⟨hlive, hlate, _, if_pos hlate, rfl⟩)
      · exact Or.inr (Or.inr ⟨hlive, by omega, if_neg hlate⟩)

section FinishBeat

variable {interval remaining : Int} {ref : Option TaskRef} {task : Option (Task J)}

/-- A terminal row is returned, however late it is read. -/
theorem finishBeat_of_terminal {t : Task J} (hterminal : t.status.isTerminal = true) :
    finishBeat opts subject interval ref remaining (some t) = .returned t := by
  have hfilter : (some t).filter (fun t => t.status.isTerminal) = some t :=
    Option.filter_some_pos hterminal
  rw [finishBeat, hfilter]

/-- Only a terminal row is returned. -/
theorem of_finishBeat_eq_returned {t : Task J}
    (h : finishBeat opts subject interval ref remaining task = .returned t) :
    task = some t ∧ t.status.isTerminal = true := by
  rcases finishBeat_cases opts subject interval ref remaining task with
    ⟨u, hu, hterminal, hend⟩ | ⟨-, -, error, hend, -⟩ | ⟨-, -, hend⟩
  · rw [hend] at h
    cases h
    exact ⟨hu, hterminal⟩
  · rw [hend] at h
    cases h
  · rw [hend] at h
    cases h

/-- Only a late beat without a terminal row is a timeout. -/
theorem of_finishBeat_eq_timedOut {error : TaskTimeout J}
    (h : finishBeat opts subject interval ref remaining task = .timedOut error) :
    remaining ≤ 0 ∧ error.task = task ∧ ∀ t, task = some t → t.status.isTerminal = false := by
  rcases finishBeat_cases opts subject interval ref remaining task with
    ⟨u, -, -, hend⟩ | ⟨hlive, hlate, error', hend, htask⟩ | ⟨-, -, hend⟩
  · rw [hend] at h
    cases h
  · rw [hend] at h
    cases h
    exact ⟨hlate, htask, hlive⟩
  · rw [hend] at h
    cases h

/-- A nap is asked for while time remains, and for no longer. -/
theorem of_finishBeat_eq_napping {on : Option String} {ms left : Int}
    (h : finishBeat opts subject interval ref remaining task = .napping on ms left) :
    0 < remaining ∧ ms ≤ remaining ∧ left = remaining := by
  rcases finishBeat_cases opts subject interval ref remaining task with
    ⟨u, -, -, hend⟩ | ⟨-, -, error, hend, -⟩ | ⟨-, hearly, hend⟩
  · rw [hend] at h
    cases h
  · rw [hend] at h
    cases h
  · rw [hend] at h
    cases h
    exact ⟨hearly, Int.min_le_right .., rfl⟩

/-- A beat that ends is not read again. -/
theorem finishBeat_ne_reading (r : TaskRef) (left : Int) :
    finishBeat opts subject interval ref remaining task ≠ .reading r left := by
  rcases finishBeat_cases opts subject interval ref remaining task with
    ⟨t, -, -, h⟩ | ⟨-, -, error, h, -⟩ | ⟨-, -, h⟩ <;> simp [h]

end FinishBeat

/-- What every step keeps to: what it returns was just read terminal, a timeout is late and was
not, a nap fits the time that remained, and the interval grows to its ceiling. -/
structure BeatSound (opts : PollOptions) (subject : WaitSubject) (s : WaitState J)
    (e : WaitEvent J) (s' : WaitState J) : Prop where
  returned : ∀ t, s'.phase = .returned t → s.phase = .returned t ∨
    (e = .read ∧ subject.read s.db = some t ∧ t.status.isTerminal = true)
  timedOut : ∀ error, s'.phase = .timedOut error → s.phase = .timedOut error ∨
    (s.deadline ≤ s'.beatMs ∧
      ((e = .measure ∧ s.phase = .probed none ∧ error.task = none) ∨
        (e = .read ∧ error.task = subject.read s.db ∧
          ∀ t, subject.read s.db = some t → t.status.isTerminal = false)))
  asked : ∀ on ms remaining, s'.phase = .napping on ms remaining →
    s.phase = .napping on ms remaining ∨ (ms ≤ remaining ∧ remaining = s.deadline - s'.beatMs)
  grows : e = .wake → s.interval < opts.maxPollMs →
    s.interval < s'.interval ∧ s'.interval ≤ opts.maxPollMs
  stays : e = .wake → s.interval = opts.maxPollMs → s'.interval = opts.maxPollMs
  keeps : e ≠ .wake → s'.interval = s.interval

/-- What every state of a wait keeps. -/
structure WaitInvariant (opts : PollOptions) (nowMs : Int) (s : WaitState J) : Prop where
  deadline : s.deadline = nowMs + opts.timeoutMs
  reading : ∀ ref remaining, s.phase = .reading ref remaining → remaining = s.deadline - s.beatMs
  interval : opts.pollMs ≤ opts.maxPollMs →
    min opts.maxPollMs (opts.pollMs + s.naps) ≤ s.interval ∧ s.interval ≤ opts.maxPollMs

theorem waitInvariant_entered (opts : PollOptions) (db : Database J) (nowMs : Int) :
    WaitInvariant opts nowMs (WaitState.entered opts db nowMs) where
  deadline := rfl
  reading ref remaining h := by cases h
  interval h := by
    simp only [WaitState.entered]
    omega

theorem waitInvariant_step {nowMs : Int} (hinv : WaitInvariant opts nowMs s)
    (hstep : poll sdk opts subject s e = some s') : WaitInvariant opts nowMs s' := by
  cases pollStep_of_step hstep with
  | probe hphase => exact ⟨hinv.deadline, fun ref remaining h => (by cases h), hinv.interval⟩
  | finished hphase hread =>
      refine ⟨hinv.deadline, fun ref remaining h => ?_, hinv.interval⟩
      cases h
      rfl
  | unread hphase hskip =>
      refine ⟨hinv.deadline, fun r left h => ?_, hinv.interval⟩
      dsimp only at h
      exact (finishBeat_ne_reading r left h).elim
  | read hphase =>
      refine ⟨hinv.deadline, fun r left h => ?_, hinv.interval⟩
      dsimp only at h
      exact (finishBeat_ne_reading r left h).elim
  | wake hphase =>
      refine ⟨hinv.deadline, fun ref remaining h => (by cases h), fun hpoll => ?_⟩
      rcases hinv.interval hpoll with ⟨hlow, hhigh⟩
      refine ⟨?_, nextPollMs_le ..⟩
      -- Below the ceiling one more nap is one more millisecond at least.
      rcases Int.lt_or_eq_of_le hhigh with hlt | heq
      · have hgrows := nextPollMs_lt sdk hlt
        push_cast
        omega
      · have hstays := nextPollMs_max sdk opts.maxPollMs
        simp only [heq, hstays]
        omega
  | elsewhere db => exact ⟨hinv.deadline, hinv.reading, hinv.interval⟩
  | passes hnow => exact ⟨hinv.deadline, hinv.reading, hinv.interval⟩

theorem beatSound_of_step {nowMs : Int} (hinv : WaitInvariant opts nowMs s)
    (hstep : poll sdk opts subject s e = some s') : BeatSound opts subject s e s' := by
  cases pollStep_of_step hstep with
  | probe hphase =>
      refine ⟨fun t h => (by cases h), fun error h => (by cases h),
        fun on ms left h => (by cases h), fun h => (by cases h), fun h => (by cases h),
        fun _ => rfl⟩
  | finished hphase hread =>
      refine ⟨fun t h => (by cases h), fun error h => (by cases h),
        fun on ms left h => (by cases h), fun h => (by cases h), fun h => (by cases h),
        fun _ => rfl⟩
  | @unread ref hphase hskip =>
      refine ⟨fun t h => ?_, fun error h => ?_, fun on ms left h => ?_, fun h => (by cases h),
        fun h => (by cases h), fun _ => rfl⟩
      · dsimp only at h
        cases (of_finishBeat_eq_returned h).1
      · dsimp only at h
        rcases of_finishBeat_eq_timedOut h with ⟨hlate, htask, -⟩
        refine Or.inr ⟨by show s.deadline ≤ s.clockMs; omega, Or.inl ⟨rfl, ?_, htask⟩⟩
        cases ref with
        | none => exact hphase
        | some r =>
            have hearly := (hskip r rfl).2
            omega
      · dsimp only at h
        rcases of_finishBeat_eq_napping h with ⟨-, hms, hleft⟩
        exact Or.inr ⟨by omega, hleft⟩
  | @read ref remaining hphase =>
      have hremaining := hinv.reading ref remaining hphase
      refine ⟨fun t h => ?_, fun error h => ?_, fun on ms left h => ?_, fun h => (by cases h),
        fun h => (by cases h), fun _ => rfl⟩
      · dsimp only at h
        rcases of_finishBeat_eq_returned h with ⟨hread, hterminal⟩
        exact Or.inr ⟨rfl, hread, hterminal⟩
      · dsimp only at h
        rcases of_finishBeat_eq_timedOut h with ⟨hlate, htask, hlive⟩
        exact Or.inr ⟨by show s.deadline ≤ s.beatMs; omega, Or.inr ⟨rfl, htask, hlive⟩⟩
      · dsimp only at h
        rcases of_finishBeat_eq_napping h with ⟨-, hms, hleft⟩
        exact Or.inr ⟨by omega, by show left = s.deadline - s.beatMs; omega⟩
  | wake hphase =>
      refine ⟨fun t h => (by cases h), fun error h => (by cases h),
        fun on ms left h => (by cases h),
        fun _ hlt => ⟨nextPollMs_lt sdk hlt, nextPollMs_le ..⟩, fun _ heq => ?_,
        fun h => absurd rfl h⟩
      show nextPollMs sdk s.interval opts.maxPollMs = opts.maxPollMs
      rw [heq]
      exact nextPollMs_max sdk opts.maxPollMs
  | elsewhere db =>
      exact ⟨fun _ h => Or.inl h, fun _ h => Or.inl h, fun _ _ _ h => Or.inl h,
        fun h => (by cases h), fun h => (by cases h), fun _ => rfl⟩
  | passes hnow =>
      exact ⟨fun _ h => Or.inl h, fun _ h => Or.inl h, fun _ _ _ h => Or.inl h,
        fun h => (by cases h), fun h => (by cases h), fun _ => rfl⟩

end Step

/-! ## Whole waits -/

/-- The subject leads to a terminal row. -/
def Finished (subject : WaitSubject) (db : Database J) : Prop :=
  ∃ t, subject.read db = some t ∧ t.status.isTerminal = true

/-- A beat whose probe found a terminal row. -/
def WaitPhase.finishing : WaitPhase J → Bool
  | .probed (some ref) => ref.status.isTerminal
  | .reading _ _ | .returned _ => true
  | .probed none | .probing | .napping _ _ _ | .timedOut _ => false

/-- The last beat past its probe. -/
def WaitPhase.last : WaitPhase J → Bool
  | .reading _ remaining => decide (remaining ≤ 0)
  | .returned _ | .timedOut _ => true
  | .probing | .probed _ | .napping _ _ _ => false

/-- The loop has ended. -/
def WaitPhase.over : WaitPhase J → Bool
  | .returned _ | .timedOut _ => true
  | .probing | .probed _ | .reading _ _ | .napping _ _ _ => false

section Run

variable {sdk : Sdk} {opts : PollOptions} {subject : WaitSubject} {s s' : WaitState J}
  {e : WaitEvent J}

/-- While the row stays terminal, a beat that found it so only moves on towards returning it. -/
theorem finishing_step (hfinishing : s.phase.finishing = true) (hrow : Finished subject s.db)
    (hstep : poll sdk opts subject s e = some s') : s'.phase.finishing = true := by
  cases pollStep_of_step hstep with
  | probe hphase =>
      rw [hphase] at hfinishing
      cases hfinishing
  | finished hphase hread => rfl
  | @unread ref hphase hskip =>
      rw [hphase] at hfinishing
      cases ref with
      | none => cases hfinishing
      | some r =>
          rw [WaitPhase.finishing, (hskip r rfl).1] at hfinishing
          cases hfinishing
  | read hphase =>
      rcases hrow with ⟨t, ht, hterminal⟩
      dsimp only
      rw [ht, finishBeat_of_terminal hterminal]
      rfl
  | wake hphase =>
      rw [hphase] at hfinishing
      cases hfinishing
  | elsewhere db => exact hfinishing
  | passes hnow => exact hfinishing

/-- Two of the loop's own steps return the row. -/
theorem drive_finishing (hfinishing : s.phase.finishing = true) (hrow : Finished subject s.db) :
    ∃ t, ((poll sdk opts subject).drive s [.measure, .read]).phase = .returned t := by
  rcases hrow with ⟨t, ht, hterminal⟩
  cases hphase : s.phase with
  | probing =>
      rw [hphase] at hfinishing
      cases hfinishing
  | probed ref =>
      rw [hphase] at hfinishing
      cases ref with
      | none => cases hfinishing
      | some r =>
          have hdone : r.status.isTerminal = true := hfinishing
          refine ⟨t, ?_⟩
          simp [Machine.drive, poll, hphase, hdone, ht, finishBeat_of_terminal hterminal]
  | reading r remaining =>
      refine ⟨t, ?_⟩
      simp [Machine.drive, poll, hphase, ht, finishBeat_of_terminal hterminal]
  | napping on ms remaining =>
      rw [hphase] at hfinishing
      cases hfinishing
  | returned u => exact ⟨u, by simp [Machine.drive, poll, hphase]⟩
  | timedOut error =>
      rw [hphase] at hfinishing
      cases hfinishing

/-- A probe that completes at the deadline or after it begins the last beat. -/
theorem last_of_late (hlate : s.deadline ≤ s.clockMs)
    (hstep : poll sdk opts subject s .measure = some s') : s'.phase.last = true := by
  cases pollStep_of_step hstep with
  | finished hprobed hread =>
      simp only [WaitPhase.last, decide_eq_true_eq]
      omega
  | unread hprobed hskip =>
      dsimp only
      rcases finishBeat_cases (J := J) opts subject s.interval _ (s.deadline - s.clockMs) none with
        ⟨t, ht, -⟩ | ⟨-, -, error, hend, -⟩ | ⟨-, hearly, -⟩
      · cases ht
      · rw [hend]
        rfl
      · omega

/-- The last beat ends the loop. -/
theorem last_step (hlast : s.phase.last = true)
    (hstep : poll sdk opts subject s e = some s') :
    s'.phase.last = true ∧ (e = .read → s'.phase.over = true) := by
  cases pollStep_of_step hstep with
  | probe hphase =>
      rw [hphase] at hlast
      cases hlast
  | finished hphase hread =>
      rw [hphase] at hlast
      cases hlast
  | unread hphase hskip =>
      rw [hphase] at hlast
      cases hlast
  | @read ref remaining hphase =>
      rw [hphase] at hlast
      have hlate : remaining ≤ 0 := of_decide_eq_true hlast
      rcases finishBeat_cases opts subject s.interval (some ref) remaining (subject.read s.db) with
        ⟨t, -, -, hend⟩ | ⟨-, -, error, hend, -⟩ | ⟨-, hearly, -⟩
      · simp [hend, WaitPhase.last, WaitPhase.over]
      · simp [hend, WaitPhase.last, WaitPhase.over]
      · omega
  | wake hphase =>
      rw [hphase] at hlast
      cases hlast
  | elsewhere db => exact ⟨hlast, fun h => (by cases h)⟩
  | passes hnow => exact ⟨hlast, fun h => (by cases h)⟩

theorem drive_last (hlast : s.phase.last = true) :
    ((poll sdk opts subject).drive s [.read]).phase.over = true := by
  cases hstep : poll sdk opts subject s .read with
  | some s' =>
      rw [Machine.drive, hstep]
      exact (last_step hlast hstep).2 rfl
  | none =>
      rw [Machine.drive, hstep]
      show s.phase.over = true
      cases hphase : s.phase with
      | reading r remaining => simp [poll, hphase] at hstep
      | returned t => rfl
      | timedOut error => rfl
      | probing =>
          rw [hphase] at hlast
          cases hlast
      | probed ref =>
          rw [hphase] at hlast
          cases hlast
      | napping on ms remaining =>
          rw [hphase] at hlast
          cases hlast

end Run

/-- A wait for a key that points at nothing, one nap later. -/
def patientWait : WaitState Nat :=
  (poll .python { timeoutMs := 1000, pollMs := 100, maxPollMs := 500 } (.key "k")).drive
    (WaitState.entered { timeoutMs := 1000, pollMs := 100, maxPollMs := 500 } Database.empty 0)
    [.probe, .measure, .passes 100, .wake]

end CairnQ
