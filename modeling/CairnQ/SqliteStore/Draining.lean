import CairnQ.SqliteStore.ClosingTurns

/-!
# Closing drains

Which operations `close()` waits for.  It takes the connection after the flusher it found
and after those before it in the queue of the lock; an operation that is still in neither,
or behind it, meets a connection that is gone.

Main results:

- Theorem `close_drains`: when nothing else waits as `close()` takes the connection, every
  operation ends with its own effect and rows or with neither, and `close()` ends.
- Theorem `not_drained`: when something else waits then, it never gets its rows.
- Theorem `takenQuietly_of_joinsLast`: nothing else waits then if `close()` joined the queue
  of the lock behind the own turn of every operation and none goes back to sleep.
-/

namespace CairnQ

open Transition Transition.Machine

variable {D W R : Type} {apply : Int → W → D → D × R} {start : D}

/-! ## What a step does to one operation -/

/-- What a step makes of an operation, by whether there is a connection and whether the check is
open.  An operation that comes to the check, or comes out of {lit}`connect()`, is refused or
passes; one that passed goes on, gets an answer of the connection, or finds the connection
gone. -/
inductive Advances (conn comes : Bool) : Option (AccessPhase R) → AccessPhase R → Prop
  | refused {was : Option (AccessPhase R)} (hout : was = none ∨ was = some .connecting) :
      Advances conn comes was (.ended .storeClosed)
  | passed {was : Option (AccessPhase R)} {now : AccessPhase R}
      (hout : was = none ∨ was = some .connecting) (hcomes : comes = true) (hconn : conn = true)
      (hnow : now.unfinished = true) : Advances conn comes was now
  | goesOn {was now : AccessPhase R} (hwas : was.unfinished = true)
      (hnow : now.unfinished = true) : Advances conn comes (some was) now
  | answered {was : AccessPhase R} {outcome : AccessOutcome R} (hwas : was.unfinished = true)
      (hconn : conn = true) (houtcome : outcome ≠ .connectionGone) :
      Advances conn comes (some was) (.ended outcome)
  | lost {was : AccessPhase R} (hwas : was.unfinished = true) (hconn : conn = false) :
      Advances conn comes (some was) (.ended .connectionGone)

/-- The step lets an operation past the check. -/
def CloseStep.comes (s : ClosingStore apply start) : CloseStep D W → Bool
  | .access _ _ _ => !s.closing
  | .connected _ _ => true
  | _ => false

theorem AccessPhase.unfinished_of_inQueue {phase : AccessPhase R} (h : phase.inQueue = true) :
    phase.unfinished = true := by
  cases phase <;> first | rfl | cases h

namespace ClosingStore

variable {s s' : ClosingStore apply start} {sdk : Sdk} {i : Nat} {a : Access W R}
  {l : CloseStep D W} {phase : AccessPhase R} {comes : Bool}

/-- The checks of the flusher touch neither the operations nor the connection. -/
theorem frame_check (sdk : Sdk) (s : ClosingStore apply start) :
    (s.check sdk).accesses = s.accesses ∧ (s.check sdk).conn = s.conn := by
  unfold check
  split <;> exact ⟨rfl, rfl⟩

theorem phaseOf_check (sdk : Sdk) (s : ClosingStore apply start) (j : Nat) :
    (s.check sdk).phaseOf j = s.phaseOf j := by
  rw [phaseOf, (frame_check sdk s).1, phaseOf]

theorem frame_afterFlush (sdk : Sdk) (s : ClosingStore apply start) :
    (s.afterFlush sdk).accesses = s.accesses ∧ (s.afterFlush sdk).conn = s.conn := by
  cases sdk with
  | python => exact frame_check .python s
  | node => exact ⟨rfl, rfl⟩

theorem frame_scheduleFlush (sdk : Sdk) (s : ClosingStore apply start) :
    (s.scheduleFlush sdk).accesses = s.accesses ∧ (s.scheduleFlush sdk).conn = s.conn := by
  unfold scheduleFlush
  split <;> exact ⟨rfl, rfl⟩

/-- An operation past its refresh waits for its turn or for the flusher. -/
theorem phaseOf_join (sdk : Sdk) (hi : s.accesses[i]? = some a) :
    (s.join sdk i a).conn = s.conn ∧ ∃ phase : AccessPhase R, phase.unfinished = true ∧
      ∀ j, (s.join sdk i a).phaseOf j = if j = i then some phase else s.phaseOf j := by
  unfold join
  split
  · have hframe := frame_scheduleFlush sdk ((s.setPhase i a .pending).queueWrite i)
    refine ⟨hframe.2, .pending, rfl, fun j => ?_⟩
    rw [phaseOf, hframe.1]
    exact phaseOf_setPhase hi .pending j
  · exact ⟨rfl, .queued, rfl, phaseOf_setPhase hi .queued⟩

theorem phaseOf_pass (sdk : Sdk) (hi : s.accesses[i]? = some a) (due : Bool) :
    (s.pass sdk i a due).conn = s.conn ∧ ∃ phase : AccessPhase R, phase.unfinished = true ∧
      ∀ j, (s.pass sdk i a due).phaseOf j = if j = i then some phase else s.phaseOf j := by
  unfold pass
  split
  · exact ⟨rfl, .refreshing, rfl, phaseOf_setPhase hi .refreshing⟩
  · exact phaseOf_join sdk hi

/-- An operation that comes to the check is behind all others. -/
theorem phaseOf_arrive (s : ClosingStore apply start) (new : Access W R) (j : Nat) :
    phaseOf { s with accesses := s.accesses ++ [new] } j =
      if j = s.accesses.length then some new.phase else s.phaseOf j := by
  rw [phaseOf, List.getElem?_append]
  split
  · rename_i hlt
    rw [if_neg (by omega)]
    rfl
  · rename_i hle
    by_cases hj : j = s.accesses.length
    · subst hj
      simp
    · rw [if_neg hj, List.getElem?_singleton, if_neg (by omega), phaseOf,
        List.getElem?_eq_none (by omega)]

/-- An operation leaves the queue of the lock in another phase. -/
theorem phaseOf_leave (hi : s.accesses[i]? = some a) (rest : List Ticket) (phase : AccessPhase R)
    (j : Nat) :
    (({ s with queue := rest } : ClosingStore apply start).setPhase i a phase).phaseOf j =
      if j = i then some phase else s.phaseOf j :=
  phaseOf_setPhase (s := { s with queue := rest }) hi phase j

/-- A turn on the lock answers the operation, unless the connection is gone. -/
theorem advances_of_turned {rest : List Ticket} {verdict : TurnVerdict}
    (hi : s.accesses[i]? = some a) (hin : a.phase.inQueue = true)
    (hturn : s.Turned rest i a verdict s') :
    ∃ phase, (∀ j, s'.phaseOf j = if j = i then some phase else s.phaseOf j) ∧
      Advances s.conn comes (some a.phase) phase := by
  have hwas := AccessPhase.unfinished_of_inQueue hin
  have hset := phaseOf_leave hi rest
  cases hturn with
  | gone _ hconn => exact ⟨_, hset _, .lost hwas hconn⟩
  | refreshed _ hconn hphase => exact ⟨_, hset _, .goesOn hwas rfl⟩
  | failed _ hconn => exact ⟨_, hset _, .answered hwas hconn (by simp)⟩
  | backedOff hconn => exact ⟨_, hset _, .goesOn hwas rfl⟩
  | began nowMs hconn hphase => exact ⟨_, phaseOf_setPhase hi .inside, .goesOn hwas rfl⟩
  | performed nowMs hconn => exact ⟨_, hset _, .answered hwas hconn (by simp)⟩

/-- An answer the flusher can give: the failure, or rows where the statement succeeded. -/
def Answers (failure : AccessOutcome R) (results : List (Option Int))
    (outcome : AccessOutcome R) : Prop :=
  outcome = failure ∨ ∃ nowMs rows, some nowMs ∈ results ∧ outcome = .rows rows

theorem phaseOf_settleNext (h : s.Books) (failure : AccessOutcome R) (result : Option Int)
    (j : Nat) :
    (s.settleNext failure result).phaseOf j = s.phaseOf j ∨
      s.phaseOf j = some .pending ∧ ∃ outcome, Answers failure [result] outcome ∧
        (s.settleNext failure result).phaseOf j = some (.ended outcome) := by
  cases hpending : s.pending with
  | nil => exact Or.inl (by simp [settleNext, hpending])
  | cons i rest =>
      rcases h.pending_of_mem (i := i) (by simp [hpending]) with ⟨a, hi, hphase⟩
      have hwas : s.phaseOf i = some .pending := by rw [phaseOf_of_getElem? hi, hphase]
      simp only [settleNext, hpending, hi]
      by_cases hji : j = i
      · subst hji
        refine Or.inr ⟨hwas, ?_⟩
        cases result with
        | some nowMs =>
            refine ⟨.rows (s.store.answer a.work nowMs), Or.inr ⟨nowMs, _, by simp, rfl⟩, ?_⟩
            exact (phaseOf_setPhase hi _ j).trans (if_pos rfl)
        | none => exact ⟨failure, Or.inl rfl, (phaseOf_setPhase hi _ j).trans (if_pos rfl)⟩
      · refine Or.inl ?_
        cases result with
        | some nowMs => exact (phaseOf_setPhase hi _ j).trans (if_neg hji)
        | none => exact (phaseOf_setPhase hi _ j).trans (if_neg hji)

/-- The answers of the flusher end operations of the pending queue and no others. -/
theorem phaseOf_settle (h : s.Books) {failure : AccessOutcome R}
    (hfailure : (AccessPhase.ended failure).returned = false) (results : List (Option Int))
    (j : Nat) :
    (s.settle failure results).phaseOf j = s.phaseOf j ∨
      s.phaseOf j = some .pending ∧ ∃ outcome, Answers failure results outcome ∧
        (s.settle failure results).phaseOf j = some (.ended outcome) := by
  induction results generalizing s with
  | nil => exact Or.inl rfl
  | cons result results ih =>
      have hcons : s.settle failure (result :: results) =
          (s.settleNext failure result).settle failure results := rfl
      have hmono : ∀ {some' outcome}, (∀ x ∈ some', x ∈ result :: results) →
          Answers failure some' outcome → Answers failure (result :: results) outcome := by
        intro some' outcome hsub hanswer
        rcases hanswer with hfail | ⟨nowMs, rows, hmem, hrows⟩
        · exact Or.inl hfail
        · exact Or.inr ⟨nowMs, rows, hsub _ hmem, hrows⟩
      rw [hcons]
      have hfirst := phaseOf_settleNext h failure result j
      rcases ih (h.settleNext hfailure result) with hsame | ⟨hwas, outcome, hanswer, hended⟩
      · rw [hsame]
        rcases hfirst with hkept | ⟨hwas, outcome, hanswer, hended⟩
        · exact Or.inl hkept
        · exact Or.inr ⟨hwas, outcome, hmono (by simp) hanswer, hended⟩
      · rcases hfirst with hkept | ⟨-, first, -, hgone⟩
        · exact Or.inr ⟨hkept ▸ hwas, outcome, hmono (by simp_all) hanswer, hended⟩
        · rw [hgone] at hwas
          cases hwas

/-- A turn of the flusher answers writes of the pending queue, with an answer of the connection
as long as there is one. -/
theorem advances_of_flushed (h : s.Books) {rest : List Ticket} (hqueue : s.queue = .flush :: rest)
    {verdict : TurnVerdict} (hturn : Flushed sdk s rest verdict s') (j : Nat) :
    s'.phaseOf j = s.phaseOf j ∨
      ∃ phase, s'.phaseOf j = some phase ∧ Advances s.conn comes (s.phaseOf j) phase := by
  have hleft : Books ({ s with queue := rest } : ClosingStore apply start) :=
    h.congr rfl (fun i => by simp [hqueue]) rfl rfl
  -- while there is a connection a write ends with rows or with an SQL error
  have hanswered : ∀ results, s.conn = true →
      (({ s with queue := rest } : ClosingStore apply start).settle .sqlError results).phaseOf j =
          s.phaseOf j ∨
        ∃ phase, (({ s with queue := rest } : ClosingStore apply start).settle .sqlError
            results).phaseOf j = some phase ∧ Advances s.conn comes (s.phaseOf j) phase := by
    intro results hconn
    have hfailure : (AccessPhase.ended (.sqlError : AccessOutcome R)).returned = false := rfl
    rcases phaseOf_settle hleft hfailure results j with
      hsame | ⟨hwas, outcome, hanswer, hended⟩
    · exact Or.inl hsame
    · have hwas' : s.phaseOf j = some .pending := hwas
      refine Or.inr ⟨_, hended, ?_⟩
      rw [hwas']
      refine .answered rfl hconn ?_
      rcases hanswer with rfl | ⟨nowMs, rows, -, rfl⟩ <;> simp
  cases hturn with
  | gone _ hconn =>
      rw [phaseOf_check]
      have hfailure : (AccessPhase.ended (.connectionGone : AccessOutcome R)).returned = false :=
        rfl
      rcases phaseOf_settle hleft hfailure
          (List.replicate s.pending.length none) j with hsame | ⟨hwas, outcome, hanswer, hended⟩
      · exact Or.inl hsame
      · have hwas' : s.phaseOf j = some .pending := hwas
        refine Or.inr ⟨_, hended, ?_⟩
        rw [hwas']
        rcases hanswer with rfl | ⟨nowMs, rows, hmem, -⟩
        · exact .lost rfl hconn
        · simp at hmem
  | committed results hconn hsome hle =>
      rw [phaseOf, (frame_afterFlush sdk _).1]
      exact hanswered results hconn
  | backedOff hconn => exact Or.inl rfl
  | stranded hconn =>
      rw [phaseOf_check]
      exact hanswered _ hconn

theorem phaseOf_length (s : ClosingStore apply start) : s.phaseOf s.accesses.length = none := by
  rw [phaseOf, List.getElem?_eq_none (Nat.le_refl _)]
  rfl

/-- What a step does to an operation. -/
theorem advances_of_moves (hbooks : s.Books) (hmoves : s.Moves sdk l s') (j : Nat) :
    s'.phaseOf j = s.phaseOf j ∨
      ∃ phase, s'.phaseOf j = some phase ∧ Advances s.conn (l.comes s) (s.phaseOf j) phase := by
  -- one operation goes to another phase, and the others stay where they are
  have hone : ∀ {i : Nat} {phase : AccessPhase R},
      s'.phaseOf j = (if j = i then some phase else s.phaseOf j) →
      Advances s.conn (l.comes s) (s.phaseOf i) phase →
      s'.phaseOf j = s.phaseOf j ∨
        ∃ phase, s'.phaseOf j = some phase ∧ Advances s.conn (l.comes s) (s.phaseOf j) phase := by
    intro i phase hafter hadvances
    by_cases hji : j = i
    · subst hji
      rw [if_pos rfl] at hafter
      exact Or.inr ⟨phase, hafter, hadvances⟩
    · rw [if_neg hji] at hafter
      exact Or.inl hafter
  cases hmoves with
  | refused kind work due hclosing =>
      refine hone (phaseOf_arrive s _ j) ?_
      exact .refused (Or.inl (phaseOf_length s))
  | arrived kind work due hclosing hconn =>
      have hnew : (s.accesses ++ [⟨kind, work, .connecting⟩])[s.accesses.length]? =
          some ⟨kind, work, .connecting⟩ := by simp
      rcases phaseOf_pass (s := { s with accesses := s.accesses ++ [⟨kind, work, .connecting⟩] })
        sdk hnew due with ⟨-, phase, hphase, hafter⟩
      have hj : (({ s with accesses := s.accesses ++ [⟨kind, work, .connecting⟩] } :
          ClosingStore apply start).pass sdk s.accesses.length ⟨kind, work, .connecting⟩
            due).phaseOf j = if j = s.accesses.length then some phase else s.phaseOf j := by
        rw [hafter j, phaseOf_arrive]
        split <;> rfl
      have hcomes : (CloseStep.access (D := D) kind work due).comes s = true := by
        simp [CloseStep.comes, hclosing]
      exact hone hj (.passed (Or.inl (phaseOf_length s)) hcomes hconn hphase)
  | connected i a due hi hphase hconn =>
      rcases phaseOf_pass sdk hi due with ⟨-, phase, hunfinished, hafter⟩
      refine hone (hafter j) (.passed (Or.inr ?_) rfl hconn hunfinished)
      rw [phaseOf_of_getElem? hi, hphase]
  | turnedAway i a due hi hphase =>
      refine hone (phaseOf_setPhase hi _ j) (.refused (Or.inr ?_))
      rw [phaseOf_of_getElem? hi, hphase]
  | turned i a rest verdict hqueue hi hturn =>
      rcases advances_of_turned hi (hbooks.inQueue_of_head hqueue hi) hturn with
        ⟨phase, hafter, hadvances⟩
      rw [← phaseOf_of_getElem? hi] at hadvances
      exact hone (hafter j) hadvances
  | flushed rest verdict hqueue hturn => exact advances_of_flushed hbooks hqueue hturn j
  | resumed i a hi hphase =>
      rcases phaseOf_join sdk hi with ⟨-, phase, hunfinished, hafter⟩
      refine hone (hafter j) ?_
      rw [phaseOf_of_getElem? hi, hphase]
      exact .goesOn rfl hunfinished
  | woken i a hi hphase =>
      refine hone (phaseOf_setPhase hi .queued j) ?_
      rw [phaseOf_of_getElem? hi, hphase]
      exact .goesOn rfl rfl
  | closeCalled hclose => cases sdk <;> exact Or.inl rfl
  | closeBegan hclose =>
      unfold beginClose
      split <;> exact Or.inl rfl
  | checked hflusher => exact Or.inl (phaseOf_check sdk s j)
  | _ => exact Or.inl rfl

end ClosingStore

/-- The step takes the connection away: the turn of the Python {lit}`close()` on the lock, and
what the TypeScript one does after its own. -/
def CloseStep.takes (sdk : Sdk) (s : ClosingStore apply start) : CloseStep D W → Bool
  | .turn _ => decide (sdk = .python) && decide (s.queue.head? = some .close)
  | .shut => decide (s.close = .released)
  | _ => false

namespace ClosingStore

variable {s s' : ClosingStore apply start} {sdk : Sdk} {i : Nat} {a : Access W R}
  {l : CloseStep D W}

/-- Nothing but `close()` waits: the queue of the lock holds no operation and no flusher, no write
is pending, and no operation sleeps or stands between its refresh and its turn. -/
def quiet (s : ClosingStore apply start) : Prop :=
  (∀ ticket ∈ s.queue, ticket = .close) ∧ s.pending = [] ∧
    ∀ a ∈ s.accesses, a.phase.parked = false

instance (s : ClosingStore apply start) : Decidable s.quiet :=
  inferInstanceAs (Decidable (_ ∧ _ ∧ _))

/-- The guard of a run in which nothing else waits as `close()` takes the connection. -/
def TakenQuietly (sdk : Sdk) (s : ClosingStore apply start) (l : CloseStep D W) : Prop :=
  l.takes sdk s = true → s.quiet

instance (sdk : Sdk) (s : ClosingStore apply start) (l : CloseStep D W) :
    Decidable (TakenQuietly sdk s l) :=
  inferInstanceAs (Decidable (_ → _))

/-- The connection goes with the step that takes it, and with no other. -/
theorem conn_of_moves (hmoves : s.Moves sdk l s') :
    s'.conn = if l.takes sdk s then false else s.conn := by
  cases hmoves with
  | arrived kind work due hclosing hconn =>
      have hnew : (s.accesses ++ [⟨kind, work, .connecting⟩])[s.accesses.length]? =
          some ⟨kind, work, .connecting⟩ := by simp
      exact (phaseOf_pass (s := { s with accesses := s.accesses ++ [⟨kind, work, .connecting⟩] })
        sdk hnew due).1
  | connected i a due hi hphase hconn => exact (phaseOf_pass sdk hi due).1
  | closeCalled hclose => cases sdk <;> rfl
  | closeBegan hclose =>
      unfold beginClose
      split <;> rfl
  | turned i a rest verdict hqueue hi hturn =>
      have hnot : (CloseStep.turn (D := D) (W := W) verdict).takes sdk s = false := by
        simp [CloseStep.takes, hqueue]
      rw [hnot]
      cases hturn <;> rfl
  | flushed rest verdict hqueue hturn =>
      have hnot : (CloseStep.turn (D := D) (W := W) verdict).takes sdk s = false := by
        simp [CloseStep.takes, hqueue]
      rw [hnot]
      cases hturn with
      | gone _ hconn => exact (frame_check sdk _).2.trans (frame_settle _ _ _).2.2.2
      | committed results hconn hsome hle =>
          exact (frame_afterFlush sdk _).2.trans (frame_settle _ _ _).2.2.2
      | backedOff hconn => rfl
      | stranded hconn => exact (frame_check sdk _).2.trans (frame_settle _ _ _).2.2.2
  | taken rest verdict hqueue hclose hsdk => simp [CloseStep.takes, hsdk, hqueue]
  | released rest verdict hqueue hclose hsdk => simp [CloseStep.takes, hsdk]
  | shut rest hqueue hclose => simp [CloseStep.takes, hclose]
  | dropped hclose => simp [CloseStep.takes, hclose]
  | resumed i a hi hphase => exact (phaseOf_join sdk hi).1
  | checked hflusher => exact (frame_check sdk s).2
  | _ => rfl

/-- `close()` has taken the connection and is at or past closing it. -/
def past (s : ClosingStore apply start) : Prop :=
  s.close = .shutting ∨ s.close = .done

theorem close_finishFlusher (s : ClosingStore apply start) :
    s.finishFlusher.close = s.close ∨ s.finishFlusher.close = .flushing true := by
  rcases s with ⟨conn, queue, pending, flusher, close, accesses, store⟩
  cases close with
  | flushing ended => exact Or.inr rfl
  | _ => exact Or.inl rfl

theorem close_check (sdk : Sdk) (s : ClosingStore apply start) :
    (s.check sdk).close = s.close ∨ (s.check sdk).close = .flushing true := by
  unfold check
  split
  · exact close_finishFlusher s
  · exact Or.inl rfl
  · exact Or.inl rfl

theorem close_join (sdk : Sdk) (s : ClosingStore apply start) (i : Nat) (a : Access W R) :
    (s.join sdk i a).close = s.close := by
  unfold join
  split
  · unfold scheduleFlush
    split <;> rfl
  · rfl

theorem close_pass (sdk : Sdk) (s : ClosingStore apply start) (i : Nat) (a : Access W R)
    (due : Bool) : (s.pass sdk i a due).close = s.close := by
  unfold pass
  split
  · rfl
  · exact close_join sdk s i a

/-- The answers of the flusher and its check leave `close()` where it is, or let it go on. -/
theorem close_flushed {rest : List Ticket} {verdict : TurnVerdict}
    (hturn : Flushed sdk s rest verdict s') :
    s'.close = s.close ∨ s'.close = .flushing true := by
  have hsettled : ∀ failure results,
      (({ s with queue := rest } : ClosingStore apply start).settle failure results).close =
        s.close := fun failure results => (frame_settle failure _ results).2.2.1
  cases hturn with
  | gone _ hconn =>
      have hclose := close_check sdk (({ s with queue := rest } : ClosingStore apply start).strand
        .connectionGone)
      rw [strand, hsettled] at hclose
      exact hclose
  | committed results hconn hsome hle =>
      cases sdk with
      | python =>
          have hclose := close_check .python (({ s with queue := rest } :
            ClosingStore apply start).settle .sqlError results)
          rw [hsettled] at hclose
          exact hclose
      | node => exact Or.inl (hsettled _ _)
  | backedOff hconn => exact Or.inl rfl
  | stranded hconn =>
      have hclose := close_check sdk (({ s with queue := rest } : ClosingStore apply start).strand
        .sqlError)
      rw [strand, hsettled] at hclose
      exact hclose

/-- What a step does to `close()`: nothing, it goes on before its turn, it has its turn, it takes
the connection, or it closes the one it took. -/
inductive CloseMoves (s s' : ClosingStore apply start) : Prop
  | stays (hclose : s'.close = s.close)
  | waits (hclose : s'.close = .scheduled ∨ (∃ ended, s'.close = .flushing ended) ∨
      s'.close = .locking)
  | hadTurn (rest : List Ticket) (hqueue : s.queue = .close :: rest) (hbefore : s.close = .locking)
      (hclose : s'.close = .released) (haccesses : s'.accesses = s.accesses)
  | took (hpast : s'.past) (hconn : s'.conn = false)
  | shut (hbefore : s.past) (hpast : s'.past)

theorem closeMoves_of_moves (hmoves : s.Moves sdk l s') : CloseMoves s s' := by
  have hor : s'.close = s.close ∨ s'.close = .flushing true → CloseMoves s s' := by
    intro hclose
    rcases hclose with hsame | hflushing
    · exact .stays hsame
    · exact .waits (Or.inr (Or.inl ⟨true, hflushing⟩))
  cases hmoves with
  | arrived kind work due hclosing hconn => exact .stays (close_pass sdk _ _ _ due)
  | connected i a due hi hphase hconn => exact .stays (close_pass sdk s i a due)
  | closeCalled hclose =>
      cases sdk with
      | python => exact .waits (Or.inl rfl)
      | node => exact .waits (Or.inr (Or.inl ⟨_, rfl⟩))
  | closeBegan hclose =>
      unfold beginClose
      split
      · exact .waits (Or.inr (Or.inr rfl))
      · exact .waits (Or.inr (Or.inl ⟨false, rfl⟩))
  | closeWaits hclose => exact .waits (Or.inr (Or.inr rfl))
  | turned i a rest verdict hqueue hi hturn => cases hturn <;> exact .stays rfl
  | flushed rest verdict hqueue hturn => exact hor (close_flushed hturn)
  | taken rest verdict hqueue hclose hsdk => exact .took (Or.inl rfl) rfl
  | released rest verdict hqueue hclose hsdk => exact .hadTurn rest hqueue hclose rfl rfl
  | shut rest hqueue hclose => exact .shut (Or.inl hclose) (Or.inr rfl)
  | dropped hclose => exact .took (Or.inr rfl) rfl
  | resumed i a hi hphase => exact .stays (close_join sdk s i a)
  | checked hflusher => exact hor (close_check sdk s)
  | cleared hflusher => exact hor (close_finishFlusher s)
  | _ => exact .stays rfl

/-- `close()` gets past taking the connection only by taking it. -/
theorem past_of_moves (hmoves : s.Moves sdk l s') (hpast : s'.past) : s.past ∨ s'.conn = false := by
  cases closeMoves_of_moves hmoves with
  | stays hclose =>
      rw [past, hclose] at hpast
      exact Or.inl hpast
  | waits hclose =>
      rcases hclose with hclose | ⟨ended, hclose⟩ | hclose <;> rw [past, hclose] at hpast <;>
        rcases hpast with hstage | hstage <;> cases hstage
  | hadTurn rest hqueue hbefore hclose haccesses =>
      rw [past, hclose] at hpast
      rcases hpast with hstage | hstage <;> cases hstage
  | took hpast hconn => exact Or.inr hconn
  | shut hbefore hpast => exact Or.inl hbefore

/-! ## The states of a run -/

/-- No operation that passed the check is left unfinished. -/
def AllOver (s : ClosingStore apply start) : Prop :=
  ∀ i phase, s.phaseOf i = some phase → phase.unfinished = false

/-- What holds of every state when the connection is taken quietly. -/
structure Sound (s : ClosingStore apply start) : Prop where
  books : s.Books
  waits : s.Waits
  finished : s.conn = false → s.AllOver
  intact : ∀ i, s.phaseOf i ≠ some (.ended .connectionGone)
  gone : s.past → s.conn = false

/-- When nothing else waits, every operation is over. -/
theorem allOver_of_quiet (h : s.Books) (hquiet : s.quiet) : s.AllOver := by
  rcases hquiet with ⟨hqueue, hpending, hparked⟩
  intro i phase hphase
  have hin : phase.inQueue = false := by
    have hcount := h.queue i
    have hnone : s.queue.count (.access i) = 0 := by
      rw [List.count_eq_zero]
      intro hmem
      cases hqueue _ hmem
    rw [hnone, hphase, Option.any_some] at hcount
    by_contra hin
    simp [hin] at hcount
  have hwrite : phase.isPending = false := by
    have hcount := h.pending i
    rw [hpending, hphase, Option.any_some] at hcount
    by_contra hwrite
    simp [hwrite] at hcount
  have hpark : phase.parked = false := by
    rcases Option.map_eq_some_iff.mp hphase with ⟨a, hi, rfl⟩
    exact hparked a (List.mem_of_getElem? hi)
  cases phase with
  | connecting => rfl
  | ended outcome => rfl
  | refreshing => cases hin
  | queued => cases hin
  | inside => cases hin
  | refreshed => cases hpark
  | backoff => cases hpark
  | pending => cases hwrite

/-- And the other way round: an operation that waits is in the queue, pending or parked. -/
theorem quiet_of_allOver (h : s.Books) (hwaits : s.Waits) (hover : s.AllOver) : s.quiet := by
  have hnot : ∀ (p : AccessPhase R → Bool), (∀ phase, p phase = true → phase.unfinished = true) →
      ∀ i, (s.phaseOf i).any p = false := by
    intro p hp i
    cases hphase : s.phaseOf i with
    | none => rfl
    | some phase =>
        rw [Option.any_some]
        by_contra hpos
        have hlive := hp phase (by simpa using hpos)
        rw [hover i phase hphase] at hlive
        cases hlive
  have hpending : s.pending = [] := by
    refine List.eq_nil_iff_forall_not_mem.mpr fun i hmem => ?_
    have hcount := h.pending i
    rw [hnot AccessPhase.isPending (by intro phase hp; cases phase <;> first | rfl | cases hp) i]
      at hcount
    exact List.count_eq_zero.mp hcount hmem
  refine ⟨fun ticket hmem => ?_, hpending, fun a ha => ?_⟩
  · cases ticket with
    | close => rfl
    | access i =>
        have hcount := h.queue i
        rw [hnot AccessPhase.inQueue (fun phase => AccessPhase.unfinished_of_inQueue) i] at hcount
        exact absurd hmem (List.count_eq_zero.mp hcount)
    | flush =>
        have hflush := hwaits.flush
        by_cases hwaiting : s.flusher = .waiting
        · exact absurd hpending (hwaits.stocked (Or.inl hwaiting))
        · rw [if_neg hwaiting] at hflush
          exact absurd hmem (List.count_eq_zero.mp hflush)
  · rcases List.mem_iff_getElem?.mp ha with ⟨i, hi⟩
    have hany := hnot AccessPhase.parked
      (by intro phase hp; cases phase <;> first | rfl | cases hp) i
    rw [phaseOf_of_getElem? hi, Option.any_some] at hany
    exact hany

/-- The step that takes the connection touches no operation. -/
theorem accesses_of_takes (hmoves : s.Moves sdk l s') (htakes : l.takes sdk s = true) :
    s'.accesses = s.accesses := by
  cases hmoves with
  | turned i a rest verdict hqueue hi hturn => simp [CloseStep.takes, hqueue] at htakes
  | flushed rest verdict hqueue hturn => simp [CloseStep.takes, hqueue] at htakes
  | taken rest verdict hqueue hclose hsdk => rfl
  | released rest verdict hqueue hclose hsdk => rfl
  | shut rest hqueue hclose => rfl
  | dropped hclose => rfl
  | _ => cases htakes

/-- When every operation is over, only one that passes the check can come to wait. -/
theorem AllOver.of_moves (h : s.AllOver) (hbooks : s.Books) (hmoves : s.Moves sdk l s')
    (hshut : l.comes s = false ∨ s.conn = false) : s'.AllOver := by
  intro i phase hphase
  rcases advances_of_moves hbooks hmoves i with hsame | ⟨now, hnow, hadvance⟩
  · exact h i phase (hsame ▸ hphase)
  · rw [hphase] at hnow
    cases hnow
    generalize hbefore : s.phaseOf i = before at hadvance
    cases hadvance with
    | refused hout => rfl
    | passed hout hcomes hconn hnow =>
        rw [hcomes, hconn] at hshut
        rcases hshut with hshut | hshut <;> cases hshut
    | goesOn hlive hnow =>
        rw [h i _ hbefore] at hlive
        cases hlive
    | answered hlive hconn houtcome => rfl
    | lost hlive hconn => rfl

/-- Nothing is left unfinished once the connection is taken quietly. -/
theorem Sound.over_of_moves (h : s.Sound) (hguard : TakenQuietly sdk s l)
    (hmoves : s.Moves sdk l s') (hgone : s'.conn = false) : s'.AllOver := by
  by_cases htakes : l.takes sdk s = true
  · have hover := allOver_of_quiet h.books (hguard htakes)
    intro i phase hphase
    rw [phaseOf, accesses_of_takes hmoves htakes] at hphase
    exact hover i phase hphase
  · have hwas : s.conn = false := by
      rw [conn_of_moves hmoves, if_neg htakes] at hgone
      exact hgone
    exact (h.finished hwas).of_moves h.books hmoves (Or.inr hwas)

/-- A step that takes the connection quietly, or does not take it, keeps what holds. -/
theorem Sound.of_moves (h : s.Sound) (hguard : TakenQuietly sdk s l)
    (hmoves : s.Moves sdk l s') : s'.Sound where
  books := h.books.of_moves hmoves
  waits := h.waits.of_moves hmoves
  finished := h.over_of_moves hguard hmoves
  intact i hlost := by
    rcases advances_of_moves h.books hmoves i with hsame | ⟨now, hnow, hadvance⟩
    · exact h.intact i (hsame ▸ hlost)
    · rw [hlost] at hnow
      cases hnow
      generalize hbefore : s.phaseOf i = before at hadvance
      cases hadvance with
      | passed hout hcomes hconn hnow => cases hnow
      | goesOn hlive hnow => cases hnow
      | answered hlive hconn houtcome => exact houtcome rfl
      | lost hlive hconn =>
          rw [h.finished hconn i _ hbefore] at hlive
          cases hlive
  gone hpast := by
    rcases past_of_moves hmoves hpast with hbefore | hgone
    · rw [conn_of_moves hmoves, h.gone hbefore]
      split <;> rfl
    · exact hgone

theorem Sound.opened (waiting : List (AccessKind × W)) :
    (ClosingStore.opened apply start waiting).Sound where
  books := Books.opened waiting
  waits := Waits.opened waiting
  finished h := by cases h
  intact i h := by
    rw [phaseOf, ClosingStore.opened, List.getElem?_map, Option.map_map] at h
    rcases Option.map_eq_some_iff.mp h with ⟨w, -, hw⟩
    cases hw
  gone h := by rcases h with hclose | hclose <;> cases hclose

/-! ## Progress -/

/-- The head of the queue of the lock has a turn to take. -/
theorem exists_turn (sdk : Sdk) (hbooks : s.Books) (hwaits : s.Waits) (hshut : s.close ≠ .shutting)
    (hqueue : s.queue ≠ []) :
    ∃ verdict s', verdict ≠ .busy true ∧
      closingStore sdk apply start s (.turn verdict) = some s' := by
  cases hhead : s.queue with
  | nil => exact absurd hhead hqueue
  | cons ticket rest =>
      cases ticket with
      | access i =>
          have hcount := hbooks.queue i
          rw [hhead, List.count_cons_self] at hcount
          cases hi : s.accesses[i]? with
          | none =>
              rw [phaseOf, hi] at hcount
              simp at hcount
          | some a =>
              have hin := hbooks.inQueue_of_head hhead hi
              have hturn : ∃ s', s.turnAccess sdk rest i a .fails = some s' := by
                unfold turnAccess
                split
                · cases hphase : a.phase <;> rw [hphase] at hin <;>
                    first | exact ⟨_, rfl⟩ | cases hin
                · exact ⟨_, rfl⟩
              rcases hturn with ⟨s', hturn⟩
              refine ⟨.fails, s', by simp, ?_⟩
              simp only [closingStore, hhead, hi]
              exact hturn
      | flush =>
          have hwaiting := hwaits.waiting_of_head hhead
          have hpending := hwaits.stocked (Or.inl hwaiting)
          have hsome : 1 ≤ s.pending.length := List.length_pos_iff.mpr hpending
          have hturn : ∃ s', s.turnFlush sdk rest (.commits [none]) = some s' := by
            unfold turnFlush
            split
            · exact ⟨_, if_pos ⟨Nat.one_pos, hsome⟩⟩
            · exact ⟨_, rfl⟩
          rcases hturn with ⟨s', hturn⟩
          refine ⟨.commits [none], s', by simp, ?_⟩
          simp only [closingStore, hhead]
          exact hturn
      | close =>
          have hcount := hwaits.close.count
          rw [hhead, List.count_cons_self] at hcount
          have hlocking : s.close = .locking := by
            by_contra hnot
            rw [if_neg (by simp [hnot, hshut])] at hcount
            omega
          have hturn : ∃ s', s.turnClose sdk rest = some s' := by
            unfold turnClose
            rw [hlocking]
            cases sdk <;> exact ⟨_, rfl⟩
          rcases hturn with ⟨s', hturn⟩
          refine ⟨.fails, s', by simp, ?_⟩
          simp only [closingStore, hhead]
          exact hturn

/-- While `close()` runs the store has a step to take that is no retry. -/
theorem exists_internal (hbooks : s.Books) (hwaits : s.Waits) (hclosing : s.closing = true) :
    ∃ l s', l.internal = true ∧ l.retries = false ∧ closingStore sdk apply start s l = some s' := by
  have hturn : s.queue ≠ [] → s.close ≠ .shutting → ∃ (l : CloseStep D W) (s' : _),
      l.internal = true ∧ l.retries = false ∧ closingStore sdk apply start s l = some s' := by
    intro hqueue hshut
    rcases exists_turn sdk hbooks hwaits hshut hqueue with ⟨verdict, s', hverdict, hstep⟩
    refine ⟨.turn verdict, s', rfl, ?_, hstep⟩
    cases verdict with
    | busy again =>
        cases again with
        | true => exact absurd rfl hverdict
        | false => rfl
    | _ => rfl
  cases hclose : s.close with
  | uncalled => simp [closing, hclose] at hclosing
  | done => simp [closing, hclose] at hclosing
  | scheduled => exact ⟨.begin, s.beginClose, rfl, rfl, by simp [closingStore, hclose]⟩
  | flushing ended =>
      cases ended with
      | true => exact ⟨.flushed, s.lockClose, rfl, rfl, by simp [closingStore, hclose]⟩
      | false =>
          cases hflusher : s.flusher with
          | none => exact absurd hflusher (hwaits.awaited hclose)
          | scheduled => exact ⟨.check, s.check sdk, rfl, rfl, by simp [closingStore, hflusher]⟩
          | settling => exact ⟨.check, s.check sdk, rfl, rfl, by simp [closingStore, hflusher]⟩
          | backoff =>
              exact ⟨.wakeFlusher, s.queueFlusher, rfl, rfl, by simp [closingStore, hflusher]⟩
          | drained => exact ⟨.clear, s.finishFlusher, rfl, rfl, by simp [closingStore, hflusher]⟩
          | waiting =>
              refine hturn ?_ (by simp [hclose])
              intro hnil
              have hflush := hwaits.flush
              rw [hnil, hflusher, if_pos rfl] at hflush
              cases hflush
  | locking =>
      refine hturn ?_ (by simp [hclose])
      intro hnil
      have hcount := hwaits.close.count
      rw [hnil, if_pos (Or.inl hclose)] at hcount
      cases hcount
  | shutting =>
      rcases hwaits.close.head hclose with ⟨rest, hrest⟩
      exact ⟨.shut, _, rfl, rfl, by simp only [closingStore, hclose, hrest]; rfl⟩
  | released => exact ⟨.shut, _, rfl, rfl, by simp only [closingStore, hclose]; rfl⟩

/-- Without retries the store comes to rest. -/
theorem length_le_rank {ls : List (CloseStep D W)}
    (hsteps : (closingStore sdk apply start).Steps
      (fun _ l => l.internal = true ∧ l.retries = false) s ls s')
    (hbooks : s.Books) (hwaits : s.Waits) : ls.length ≤ s.rank := by
  induction hsteps with
  | nil s => exact Nat.zero_le _
  | cons hguard hstep hrest ih =>
      have hmoves := moves_of_step hstep
      have hlength := ih (hbooks.of_moves hmoves) (hwaits.of_moves hmoves)
      have hless := rank_lt hbooks hwaits hmoves hguard.1 hguard.2
      rw [List.length_cons]
      omega

end ClosingStore

/-! ## Draining -/

/-- How an operation stands to the log: one that ended with rows took effect once and the log has
its own work with these rows, any other took no effect, and none met a connection that is
gone. -/
def Access.Settled (i : Nat) (a : Access W R) (log : List (LogEntry D W R Int)) : Prop :=
  match a.phase with
  | .ended (.rows rows) =>
      (∃ nowMs, .operation i a.work nowMs rows ∈ log) ∧ (operationIds log).count i = 1
  | .ended .connectionGone => False
  | _ => i ∉ operationIds log

namespace ClosingStore

variable {s s' : ClosingStore apply start} {sdk : Sdk} {i : Nat} {a : Access W R}
  {l : CloseStep D W}

/-- `close()` drains: the operations stand to the log as they should, none that passed the check
is unfinished when `close()` is over, and until then the store has a step to take and comes to
rest without retries. -/
structure Drained (sdk : Sdk) (s : ClosingStore apply start) : Prop where
  ends : ∀ i (a : Access W R), s.accesses[i]? = some a → a.Settled i s.store.log
  finished : s.close = .done → ∀ a ∈ s.accesses, a.phase.unfinished = false
  live : s.closing = true → ∃ l s', l.internal = true ∧ l.retries = false ∧
    closingStore sdk apply start s l = some s'
  bounded : ∀ ls s', (closingStore sdk apply start).Steps
    (fun _ l => l.internal = true ∧ l.retries = false) s ls s' → ls.length ≤ s.rank

theorem Sound.settled (h : s.Sound) (hi : s.accesses[i]? = some a) :
    a.Settled i s.store.log := by
  have hlog := h.books.log i
  have hphase := phaseOf_of_getElem? hi
  rw [hphase, Option.any_some] at hlog
  have hnone : a.phase.returned = false → i ∉ operationIds s.store.log := by
    intro hnot
    rw [hnot] at hlog
    exact List.count_eq_zero.mp hlog
  unfold Access.Settled
  split
  · rename_i rows hrows
    rw [hrows] at hlog
    exact ⟨h.books.rows i a rows hi hrows, hlog⟩
  · rename_i hlost
    exact h.intact i (by rw [hphase, hlost])
  · rename_i hother hlost
    refine hnone ?_
    cases hended : a.phase with
    | ended outcome =>
        cases outcome with
        | rows rows => exact absurd hended (hother rows)
        | _ => rfl
    | _ => rfl

theorem Sound.drained (h : s.Sound) (sdk : Sdk) : s.Drained sdk where
  ends i a hi := h.settled hi
  finished hdone a ha := by
    rcases List.mem_iff_getElem?.mp ha with ⟨i, hi⟩
    exact h.finished (h.gone (Or.inr hdone)) i a.phase (phaseOf_of_getElem? hi)
  live hclosing := exists_internal h.books h.waits hclosing
  bounded ls s' hsteps := length_le_rank hsteps h.books h.waits

end ClosingStore

open ClosingStore

/-- What holds of every state of a run in which the connection is taken quietly. -/
theorem sound_of_reachable {s : ClosingStore apply start} {sdk : Sdk}
    {waiting : List (AccessKind × W)}
    (hrun : (closingStore sdk apply start).Reachable (TakenQuietly sdk)
      (opened apply start waiting) s) : s.Sound :=
  hrun.invariant (fun _ _ _ h hguard hstep => h.of_moves hguard (moves_of_step hstep))
    (Sound.opened waiting)

/-- `close()` drains when nothing else waits as it takes the connection. -/
theorem close_drains (sdk : Sdk) (apply : Int → W → D → D × R) (start : D)
    (waiting : List (AccessKind × W)) (s : ClosingStore apply start)
    (hrun : (closingStore sdk apply start).Reachable (TakenQuietly sdk)
      (opened apply start waiting) s) : s.Drained sdk := by
  have hsound := sound_of_reachable hrun
  exact hsound.drained sdk

/-- A counter: every operation adds its work and answers the sum. -/
def tally : Int → Nat → Nat → Nat × Nat := fun _ n sum => (sum + n, sum + n)

/-- A transaction between two attempts and a write in the pending queue, both served while
`close()` waits. -/
def servedLabels (sdk : Sdk) : List (CloseStep Nat Nat) :=
  [.access .transaction 5 false, .turn (.busy true), .access .write 3 false] ++
    (match sdk with
      | .python => [.check]
      | .node => []) ++
    [.wake 0, .close] ++
    (match sdk with
      | .python => [.begin, .turn (.commits [some 1])]
      | .node => [.turn (.commits [some 1]), .check, .clear]) ++
    [.flushed, .turn (.succeeds 2), .turn (.succeeds 2), .turn .fails, .shut]

/-- A transaction that lost the write lock sleeps while `close()` takes the connection. -/
def lostLabels (sdk : Sdk) : List (CloseStep Nat Nat) :=
  [.access .transaction 5 false, .turn (.busy true), .close] ++
    (match sdk with
      | .python => [.begin]
      | .node => [.flushed]) ++
    [.turn .fails, .shut, .wake 0, .turn (.succeeds 1)]

/-- The transaction and the write are served, `close()` ends, and it has drained. -/
theorem close_drains_served :
    (((closingStore .python tally 0).drive (opened tally 0 []) (servedLabels .python)).Drained
        .python ∧
      ((closingStore .python tally 0).drive (opened tally 0 []) (servedLabels .python)).close =
        .done) ∧
    ((closingStore .node tally 0).drive (opened tally 0 []) (servedLabels .node)).Drained .node ∧
      ((closingStore .node tally 0).drive (opened tally 0 []) (servedLabels .node)).close =
        .done :=
  ⟨⟨close_drains .python tally 0 [] _ (reachable_of_admits (by decide)), by decide⟩,
    close_drains .node tally 0 [] _ (reachable_of_admits (by decide)), by decide⟩

/-- Otherwise it does not: the transaction meets a connection that is gone, in both stores. -/
theorem close_drains_fails :
    (∃ s, (closingStore .python tally 0).Reachable anyStep (opened tally 0 []) s ∧
      ¬ s.Drained .python) ∧
    ∃ s, (closingStore .node tally 0).Reachable anyStep (opened tally 0 []) s ∧
      ¬ s.Drained .node := by
  have hlost : ∀ {sdk : Sdk} {s : ClosingStore tally 0},
      s.accesses = [⟨.transaction, 5, .ended .connectionGone⟩] → ¬ s.Drained sdk := by
    intro sdk s haccesses hdrained
    exact hdrained.ends 0 ⟨.transaction, 5, .ended .connectionGone⟩ (by rw [haccesses]; rfl)
  exact ⟨⟨_, reachable_drive _ _ (lostLabels .python) (fun _ _ _ => trivial), hlost (by decide)⟩,
    ⟨_, reachable_drive _ _ (lostLabels .node) (fun _ _ _ => trivial), hlost (by decide)⟩⟩

/-! ## When something else waits -/

/-- Once the connection is gone, an operation that waits goes on waiting or meets that. -/
theorem lost_of_unfinished {s s' : ClosingStore apply start} {sdk : Sdk} {i : Nat}
    {phase : AccessPhase R} (hbooks : s.Books) (hconn : s.conn = false)
    (hphase : s.phaseOf i = some phase)
    (hlost : phase.unfinished = true ∨ phase = .ended .connectionGone)
    (hrest : (closingStore sdk apply start).Reachable anyStep s s') :
    ∃ phase', s'.phaseOf i = some phase' ∧
      (phase'.unfinished = true ∨ phase' = .ended .connectionGone) := by
  have hkept : s'.Books ∧ s'.conn = false ∧ ∃ phase', s'.phaseOf i = some phase' ∧
      (phase'.unfinished = true ∨ phase' = .ended .connectionGone) := by
    refine hrest.invariant (I := fun t => t.Books ∧ t.conn = false ∧
      ∃ phase', t.phaseOf i = some phase' ∧
        (phase'.unfinished = true ∨ phase' = .ended .connectionGone))
      (fun t l t' h _ hstep => ?_) ⟨hbooks, hconn, phase, hphase, hlost⟩
    rcases h with ⟨hbooks, hconn, phase, hphase, hlost⟩
    have hmoves := moves_of_step hstep
    have hgone : t'.conn = false := by
      rw [conn_of_moves hmoves, hconn]
      split <;> rfl
    refine ⟨hbooks.of_moves hmoves, hgone, ?_⟩
    rcases advances_of_moves hbooks hmoves i with hsame | ⟨now, hnow, hadvance⟩
    · exact ⟨phase, hsame.trans hphase, hlost⟩
    · refine ⟨now, hnow, ?_⟩
      rw [hphase] at hadvance
      cases hadvance with
      | refused hout =>
          rcases hout with hout | hout
          · cases hout
          · cases hout
            rcases hlost with hlive | hended
            · cases hlive
            · cases hended
      | passed hout hcomes hopen hnow => exact Or.inl hnow
      | goesOn hwas hnow => exact Or.inl hnow
      | answered hwas hopen houtcome =>
          rw [hconn] at hopen
          cases hopen
      | lost hwas hopen => exact Or.inr rfl
  exact hkept.2.2

/-- The condition is exact: when something else waits as the connection is taken, `close()` has
not drained once it is over. -/
theorem not_drained {s t s' : ClosingStore apply start} {sdk : Sdk} {l : CloseStep D W}
    {waiting : List (AccessKind × W)}
    (hrun : (closingStore sdk apply start).Reachable anyStep (opened apply start waiting) s)
    (hstep : closingStore sdk apply start s l = some t) (hguard : ¬ TakenQuietly sdk s l)
    (hrest : (closingStore sdk apply start).Reachable anyStep t s') (hdone : s'.close = .done) :
    ¬ s'.Drained sdk := by
  intro hdrained
  have hkept : s.Books ∧ s.Waits :=
    hrun.invariant (I := fun s => s.Books ∧ s.Waits)
      (fun s l s' h _ hstep =>
        ⟨h.1.of_moves (moves_of_step hstep), h.2.of_moves (moves_of_step hstep)⟩)
      ⟨Books.opened waiting, Waits.opened waiting⟩
  have hmoves := moves_of_step hstep
  rcases Classical.not_imp.mp hguard with ⟨htakes, hloud⟩
  have hconn : t.conn = false := by rw [conn_of_moves hmoves, if_pos htakes]
  have hwaits : ¬ s.AllOver := fun hover => hloud (quiet_of_allOver hkept.1 hkept.2 hover)
  simp only [AllOver, not_forall] at hwaits
  rcases hwaits with ⟨i, phase, hphase, hlive⟩
  have hsame : t.phaseOf i = some phase := by
    rw [phaseOf, accesses_of_takes hmoves htakes]
    exact hphase
  rcases lost_of_unfinished (hkept.1.of_moves hmoves) hconn hsame (Or.inl (by simpa using hlive))
    hrest with ⟨phase', hphase', hlost⟩
  rcases Option.map_eq_some_iff.mp hphase' with ⟨a, hi, rfl⟩
  rcases hlost with hlive' | hended
  · have hover := hdrained.finished hdone a (List.mem_of_getElem? hi)
    rw [hover] at hlive'
    cases hlive'
  · have hends := hdrained.ends i a hi
    rw [Access.Settled, hended] at hends
    exact hends

/-! ## The turn of `close()` -/

namespace ClosingStore

variable {s s' : ClosingStore apply start} {sdk : Sdk} {i : Nat} {a : Access W R}
  {l : CloseStep D W}

/-- Every operation that passed the check is over or has its own turn in the queue. -/
def Served (s : ClosingStore apply start) : Prop :=
  ∀ i phase, s.phaseOf i = some phase → phase.unfinished = true →
    phase = .queued ∨ phase = .inside

/-- `close()` is in the queue of the lock, or had its turn there. -/
def awaitsTurn (s : ClosingStore apply start) : Prop :=
  s.close = .locking ∨ s.close = .released

/-- The guard of a run in which `close()` joins the queue of the lock behind the own turn of every
operation, and from then on none of them loses the write lock and goes back to sleep, and none
comes out of {lit}`connect()`. -/
def JoinsLast (s : ClosingStore apply start) : CloseStep D W → Prop
  | .begin => s.flusher = .none → s.Served
  | .flushed => s.Served
  | .connected _ _ => ¬ s.awaitsTurn
  | .turn verdict => verdict = .busy true → ¬ s.awaitsTurn
  | _ => True

/-- What waits with `close()` is ahead of it, and nothing waits once it had its turn. -/
structure Last (s : ClosingStore apply start) : Prop where
  books : s.Books
  waits : s.Waits
  queue : s.close = .locking → (∃ ahead, s.queue = ahead ++ [.close]) ∧ s.Served
  finished : s.close = .released → s.AllOver

theorem Served.pending (h : s.Served) (hbooks : s.Books) : s.pending = [] := by
  refine List.eq_nil_iff_forall_not_mem.mpr fun i hmem => ?_
  rcases hbooks.pending_of_mem hmem with ⟨a, hi, hphase⟩
  rcases h i a.phase (phaseOf_of_getElem? hi) (by rw [hphase]; rfl) with hq | hq <;>
    rw [hphase] at hq <;> cases hq

theorem Served.congr (h : s.Served) (hphase : ∀ i, s'.phaseOf i = s.phaseOf i) : s'.Served := by
  intro i phase hi
  rw [hphase] at hi
  exact h i phase hi

/-- A step that changes one operation keeps the others served. -/
theorem Served.set (h : s.Served) {phase : AccessPhase R}
    (hafter : ∀ j, s'.phaseOf j = if j = i then some phase else s.phaseOf j)
    (hphase : phase.unfinished = true → phase = .queued ∨ phase = .inside) : s'.Served := by
  intro j now hj hlive
  rw [hafter] at hj
  split at hj
  · cases hj
    exact hphase hlive
  · exact h j now hj hlive

/-- The turn of `close()` with nothing behind it finds nothing ahead of it either. -/
theorem Last.allOver (h : s.Last) (hclose : s.close = .locking) {rest : List Ticket}
    (hqueue : s.queue = .close :: rest) : rest = [] ∧ s.AllOver := by
  rcases h.queue hclose with ⟨⟨ahead, hahead⟩, hserved⟩
  have hrest : rest = [] := by
    cases ahead with
    | nil =>
        rw [hqueue] at hahead
        exact (List.cons.inj hahead).2
    | cons ticket ahead =>
        have hcount := h.waits.close.count
        rw [if_pos (Or.inl hclose), hqueue, List.count_cons_self] at hcount
        rw [hqueue] at hahead
        have hsplit : rest = ahead ++ [.close] := (List.cons.inj hahead).2
        rw [hsplit, List.count_append, List.count_singleton_self] at hcount
        omega
  refine ⟨hrest, fun i phase hphase => ?_⟩
  by_contra hlive
  have hnone : s.queue.count (.access i) = 0 := by rw [hqueue, hrest]; rfl
  have hcount := h.books.queue i
  rw [hnone, hphase, Option.any_some] at hcount
  rcases hserved i phase hphase (by simpa using hlive) with rfl | rfl <;> cases hcount

/-- With nothing pending the check leaves the queue alone. -/
theorem queue_check (h : s.pending = []) : (s.check sdk).queue = s.queue := by
  unfold check
  split
  · rfl
  · rfl
  · rename_i hpending
    rw [h] at hpending
    cases hpending

/-- What waits with `close()` stays ahead of it. -/
theorem Last.queue_of_moves (h : s.Last) (hguard : s.JoinsLast l) (hmoves : s.Moves sdk l s')
    (hlocking : s'.close = .locking) :
    (∃ ahead, s'.queue = ahead ++ [.close]) ∧ s'.Served := by
  have hnot : s.Served → ∀ {j : Nat} {b : Access W R}, s.accesses[j]? = some b →
      b.phase.unfinished = true → b.phase ≠ .queued → b.phase ≠ .inside → False := by
    intro hserved j b hj hlive hqueued hinside
    rcases hserved j b.phase (phaseOf_of_getElem? hj) hlive with hq | hq
    · exact hqueued hq
    · exact hinside hq
  cases hmoves with
  | refused kind work due hclosing =>
      have hbefore := h.queue hlocking
      refine ⟨hbefore.1, hbefore.2.set (phaseOf_arrive s _) fun hlive => by cases hlive⟩
  | arrived kind work due hclosing hconn =>
      rw [close_pass] at hlocking
      have hsame : s.close = .locking := hlocking
      simp [closing, hsame] at hclosing
  | connected i a due hi hphase hconn =>
      rw [close_pass] at hlocking
      exact absurd (Or.inl hlocking) hguard
  | turnedAway i a due hi hphase =>
      have hbefore := h.queue hlocking
      exact ⟨hbefore.1, hbefore.2.set (phaseOf_setPhase hi _) fun hlive => by cases hlive⟩
  | external change => exact h.queue hlocking
  | closeCalled hclose => cases sdk <;> cases hlocking
  | closeBegan hclose =>
      unfold beginClose at hlocking ⊢
      split at hlocking
      · rename_i hflusher
        rw [if_pos hflusher]
        exact ⟨⟨s.queue, rfl⟩, hguard hflusher⟩
      · cases hlocking
  | closeWaits hclose => exact ⟨⟨s.queue, rfl⟩, hguard⟩
  | turned i a rest verdict hqueue hi hturn =>
      have hclose : s.close = .locking := by cases hturn <;> exact hlocking
      have hbefore := h.queue hclose
      have hrest : ∃ ahead, rest = ahead ++ [.close] := by
        rcases hbefore.1 with ⟨ahead, hahead⟩
        rw [hqueue] at hahead
        cases ahead with
        | nil => cases (List.cons.inj hahead).1
        | cons ticket ahead => exact ⟨ahead, (List.cons.inj hahead).2⟩
      have hset := phaseOf_leave hi rest
      cases hturn with
      | gone _ hconn => exact ⟨hrest, hbefore.2.set (hset _) fun hlive => by cases hlive⟩
      | refreshed _ hconn hphase =>
          have hlive : a.phase.unfinished = true := by rw [hphase]; rfl
          exact (hnot hbefore.2 hi hlive (by simp [hphase]) (by simp [hphase])).elim
      | failed _ hconn => exact ⟨hrest, hbefore.2.set (hset _) fun hlive => by cases hlive⟩
      | backedOff hconn => exact absurd (Or.inl hclose) (hguard rfl)
      | began nowMs hconn hphase =>
          exact ⟨hbefore.1, hbefore.2.set (phaseOf_setPhase hi .inside) fun _ => Or.inr rfl⟩
      | performed nowMs hconn => exact ⟨hrest, hbefore.2.set (hset _) fun hlive => by cases hlive⟩
  | flushed rest verdict hqueue hturn =>
      rcases close_flushed hturn with hclose | hclose
      · have hbefore := h.queue (hclose ▸ hlocking)
        have hwaiting := h.waits.waiting_of_head hqueue
        exact absurd (hbefore.2.pending h.books) (h.waits.stocked (Or.inl hwaiting))
      · rw [hclose] at hlocking
        cases hlocking
  | taken rest verdict hqueue hclose hsdk => cases hlocking
  | released rest verdict hqueue hclose hsdk => cases hlocking
  | shut rest hqueue hclose => cases hlocking
  | dropped hclose => cases hlocking
  | resumed i a hi hphase =>
      rw [close_join] at hlocking
      have hlive : a.phase.unfinished = true := by rw [hphase]; rfl
      exact (hnot (h.queue hlocking).2 hi hlive (by simp [hphase]) (by simp [hphase])).elim
  | woken i a hi hphase =>
      have hbefore : s.close = .locking := hlocking
      have hlive : a.phase.unfinished = true := by rw [hphase]; rfl
      exact (hnot (h.queue hbefore).2 hi hlive (by simp [hphase]) (by simp [hphase])).elim
  | checked hflusher =>
      rcases close_check sdk s with hclose | hclose
      · have hbefore := h.queue (hclose ▸ hlocking)
        rw [queue_check (hbefore.2.pending h.books)]
        exact ⟨hbefore.1, hbefore.2.congr (phaseOf_check sdk s)⟩
      · rw [hclose] at hlocking
        cases hlocking
  | cleared hflusher =>
      rcases close_finishFlusher s with hclose | hclose
      · have hbefore := h.queue (hclose ▸ hlocking)
        exact ⟨hbefore.1, hbefore.2⟩
      · rw [hclose] at hlocking
        cases hlocking
  | flusherWoken hflusher =>
      have hbefore := h.queue hlocking
      exact absurd (hbefore.2.pending h.books) (h.waits.stocked (Or.inr hflusher))

/-- Nothing comes to wait after the turn of `close()`. -/
theorem Last.over_of_moves (h : s.Last) (hguard : s.JoinsLast l) (hmoves : s.Moves sdk l s')
    (hreleased : s'.close = .released) : s'.AllOver := by
  by_cases hclose : s.close = .released
  · have hover := h.finished hclose
    have hcomes : l.comes s = false := by
      cases l with
      | access kind work due => simp [CloseStep.comes, closing, hclose]
      | connected i due => exact absurd (Or.inr hclose) hguard
      | _ => rfl
    exact hover.of_moves h.books hmoves (Or.inl hcomes)
  · cases closeMoves_of_moves hmoves with
    | stays hsame => exact absurd (hsame.symm.trans hreleased) hclose
    | waits hwaits =>
        rcases hwaits with hstage | ⟨ended, hstage⟩ | hstage <;> rw [hreleased] at hstage <;>
          cases hstage
    | hadTurn rest hqueue hbefore hafter haccesses =>
        intro i phase hphase
        rw [phaseOf, haccesses] at hphase
        exact (h.allOver hbefore hqueue).2 i phase hphase
    | took hpast hconn =>
        rw [past, hreleased] at hpast
        rcases hpast with hstage | hstage <;> cases hstage
    | shut hbefore hpast =>
        rw [past, hreleased] at hpast
        rcases hpast with hstage | hstage <;> cases hstage

theorem Last.of_moves (h : s.Last) (hguard : s.JoinsLast l) (hmoves : s.Moves sdk l s') :
    s'.Last where
  books := h.books.of_moves hmoves
  waits := h.waits.of_moves hmoves
  queue hlocking := h.queue_of_moves hguard hmoves hlocking
  finished hreleased := h.over_of_moves hguard hmoves hreleased

theorem Last.opened (waiting : List (AccessKind × W)) :
    (ClosingStore.opened apply start waiting).Last where
  books := Books.opened waiting
  waits := Waits.opened waiting
  queue h := by cases h
  finished h := by cases h

/-- What waits ahead of `close()` is served before it takes the connection: when its turn comes,
nothing else waits. -/
theorem takenQuietly_of_joinsLast {waiting : List (AccessKind × W)}
    (hrun : (closingStore sdk apply start).Reachable JoinsLast
      (ClosingStore.opened apply start waiting) s)
    (hstep : closingStore sdk apply start s l = some s') : TakenQuietly sdk s l := by
  have hlast : s.Last :=
    hrun.invariant (fun s l s' h hguard hstep => h.of_moves hguard (moves_of_step hstep))
      (Last.opened waiting)
  intro htakes
  refine quiet_of_allOver hlast.books hlast.waits ?_
  cases moves_of_step hstep with
  | turned i a rest verdict hqueue hi hturn => simp [CloseStep.takes, hqueue] at htakes
  | flushed rest verdict hqueue hturn => simp [CloseStep.takes, hqueue] at htakes
  | taken rest verdict hqueue hclose hsdk => exact (hlast.allOver hclose hqueue).2
  | released rest verdict hqueue hclose hsdk => exact (hlast.allOver hclose hqueue).2
  | shut rest hqueue hclose => simp [CloseStep.takes, hclose] at htakes
  | dropped hclose => exact hlast.finished hclose
  | _ => cases htakes

end ClosingStore

open ClosingStore

/-- So `close()` drains when it joins the queue behind the own turn of every operation and none of
them goes back to sleep. -/
theorem drained_of_joinsLast {s : ClosingStore apply start} {sdk : Sdk}
    {waiting : List (AccessKind × W)}
    (hrun : (closingStore sdk apply start).Reachable JoinsLast (opened apply start waiting) s) :
    s.Drained sdk := by
  have hquiet : (closingStore sdk apply start).Reachable (TakenQuietly sdk)
      (opened apply start waiting) s :=
    hrun.strengthen fun t l t' hreach _ hstep => takenQuietly_of_joinsLast hreach hstep
  exact (sound_of_reachable hquiet).drained sdk

end CairnQ
