import CairnQ.SqliteStore.Closing

/-!
# The turns of a closing store

What the flusher and `close()` wait for, and how many turns are left.  The flusher has one
entry in the queue of the lock while it waits there, and so has `close()`, which keeps its
entry while it closes the connection.

Main results:

- Theorem `Waits.of_moves`: the flusher and `close()` are in the queue of the lock when
  they say so, and neither waits for something that is over.
- Theorem `rank_lt`: every step of the store but a retry of a lost write lock leaves less to
  do.
-/

namespace CairnQ

open Transition Transition.Machine

variable {D W R : Type} {apply : Int → W → D → D × R} {start : D}

namespace ClosingStore

variable {s s' : ClosingStore apply start} {sdk : Sdk} {i : Nat} {a : Access W R}
  {l : CloseStep D W}

/-! ## The flusher and `close()` in the queue -/

/-- `close()` has its one entry in the queue of the lock while it waits there, and at the head
while it closes the connection. -/
structure CloseQueued (s : ClosingStore apply start) : Prop where
  count : s.queue.count .close = if s.close = .locking ∨ s.close = .shutting then 1 else 0
  head : s.close = .shutting → ∃ rest, s.queue = .close :: rest

/-- What the flusher and `close()` wait for. -/
structure Waits (s : ClosingStore apply start) : Prop where
  flush : s.queue.count .flush = if s.flusher = .waiting then 1 else 0
  close : s.CloseQueued
  stocked : s.flusher = .waiting ∨ s.flusher = .backoff → s.pending ≠ []
  awaited : s.close = .flushing false → s.flusher ≠ .none

theorem CloseQueued.congr (h : s.CloseQueued) (hclose : s'.close = s.close)
    (hqueue : s'.queue = s.queue) : s'.CloseQueued where
  count := by
    rw [hqueue, hclose]
    exact h.count
  head := by
    rw [hqueue, hclose]
    exact h.head

theorem Waits.congr (h : s.Waits) (hclose : s'.close = s.close) (hqueue : s'.queue = s.queue)
    (hflusher : s'.flusher = s.flusher) (hpending : s'.pending = s.pending) : s'.Waits where
  flush := by
    rw [hqueue, hflusher]
    exact h.flush
  close := h.close.congr hclose hqueue
  stocked := by
    rw [hflusher, hpending]
    exact h.stocked
  awaited := by
    rw [hclose, hflusher]
    exact h.awaited

theorem CloseQueued.enqueue (h : s.CloseQueued) {ticket : Ticket} (hticket : ticket ≠ .close) :
    (s.enqueue ticket).CloseQueued where
  count := by
    have hnone : [ticket].count Ticket.close = 0 := by simp [hticket]
    simp only [ClosingStore.enqueue, List.count_append, hnone, Nat.add_zero]
    exact h.count
  head hclose := by
    rcases h.head hclose with ⟨rest, hrest⟩
    exact ⟨rest ++ [ticket], by simp [ClosingStore.enqueue, hrest]⟩

/-- An operation joins the queue. -/
theorem Waits.enqueue (h : s.Waits) (i : Nat) : (s.enqueue (.access i)).Waits where
  flush := by
    have hnone : [Ticket.access i].count Ticket.flush = 0 := by simp
    show (s.queue ++ [Ticket.access i]).count Ticket.flush = if s.flusher = .waiting then 1 else 0
    rw [List.count_append, hnone]
    exact h.flush
  close := h.close.enqueue (by simp)
  stocked := h.stocked
  awaited := h.awaited

/-- The flusher queues again. -/
theorem Waits.queueFlusher (hflush : s.queue.count .flush = 0) (hclose : s.CloseQueued)
    (hpending : s.pending ≠ []) : s.queueFlusher.Waits where
  flush := by
    simp [ClosingStore.queueFlusher, ClosingStore.enqueue, hflush]
  close := by
    have hticket : Ticket.flush ≠ .close := by simp
    exact (hclose.enqueue hticket).congr rfl rfl
  stocked _ := hpending
  awaited _ := by simp [ClosingStore.queueFlusher]

theorem CloseQueued.finishFlusher (h : s.CloseQueued) : s.finishFlusher.CloseQueued := by
  rcases s with ⟨conn, queue, pending, flusher, close, accesses, store⟩
  cases close with
  | flushing ended => exact ⟨h.count, fun hshut => by cases hshut⟩
  | _ => exact ⟨h.count, h.head⟩

theorem Waits.finishFlusher (hflush : s.queue.count .flush = 0) (hclose : s.CloseQueued) :
    s.finishFlusher.Waits where
  flush := by simpa [ClosingStore.finishFlusher] using hflush
  close := hclose.finishFlusher
  stocked h := by simp [ClosingStore.finishFlusher] at h
  awaited h := by
    simp only [ClosingStore.finishFlusher] at h
    split at h
    · cases h
    · rename_i hnot
      exact absurd h (hnot false)

/-- The check of a flusher that is not in the queue. -/
theorem Waits.check (hflush : s.queue.count .flush = 0) (hclose : s.CloseQueued) :
    (s.check sdk).Waits := by
  unfold ClosingStore.check
  split
  · exact Waits.finishFlusher hflush hclose
  · exact ⟨by simpa using hflush, hclose.congr rfl rfl, by simp, by simp⟩
  · rename_i hpending
    exact Waits.queueFlusher hflush hclose (by simp [hpending])

theorem Waits.scheduleFlush (h : s.Waits) (hpending : s.pending ≠ []) :
    (s.scheduleFlush sdk).Waits := by
  unfold ClosingStore.scheduleFlush
  split
  · rename_i hflusher
    have hflush : s.queue.count .flush = 0 := by simpa [hflusher] using h.flush
    exact ⟨by simpa using hflush, h.close.congr rfl rfl, by simp, by simp⟩
  · rename_i hflusher
    exact Waits.queueFlusher (by simpa [hflusher] using h.flush) h.close hpending
  · exact h

theorem Waits.join (h : s.Waits) (i : Nat) (a : Access W R) : (s.join sdk i a).Waits := by
  unfold ClosingStore.join
  split
  · have hpending : s.pending ++ [i] ≠ [] := by simp
    refine Waits.scheduleFlush ?_ hpending
    exact ⟨h.flush, h.close.congr rfl rfl, fun _ => hpending, h.awaited⟩
  · exact (h.congr rfl rfl rfl rfl : (s.setPhase i a .queued).Waits).enqueue i

theorem Waits.pass (h : s.Waits) (i : Nat) (a : Access W R) (due : Bool) :
    (s.pass sdk i a due).Waits := by
  unfold ClosingStore.pass
  split
  · exact (h.congr rfl rfl rfl rfl : (s.setPhase i a .refreshing).Waits).enqueue i
  · exact h.join i a

/-- `close()` queues for the lock. -/
theorem Waits.lockClose (h : s.Waits) (hclose : s.close ≠ .locking ∧ s.close ≠ .shutting) :
    s.lockClose.Waits where
  flush := by
    have hnone : [Ticket.close].count Ticket.flush = 0 := by simp
    show (s.queue ++ [Ticket.close]).count Ticket.flush = if s.flusher = .waiting then 1 else 0
    rw [List.count_append, hnone]
    exact h.flush
  close := by
    have hnone : s.queue.count .close = 0 := by simpa [hclose.1, hclose.2] using h.close.count
    refine ⟨?_, fun hshut => by simp [ClosingStore.lockClose] at hshut⟩
    simp [ClosingStore.lockClose, ClosingStore.enqueue, hnone]
  stocked := h.stocked
  awaited hawaited := by simp [ClosingStore.lockClose] at hawaited

/-- The head of the queue leaves, and it is not `close()`. -/
theorem CloseQueued.tail (h : s.CloseQueued) {ticket : Ticket} {rest : List Ticket}
    (hqueue : s.queue = ticket :: rest) (hticket : ticket ≠ .close) :
    CloseQueued { s with queue := rest } where
  count := by
    have hcount := h.count
    rw [hqueue, List.count_cons_of_ne hticket] at hcount
    exact hcount
  head hclose := by
    rcases h.head hclose with ⟨rest', hrest⟩
    rw [hqueue] at hrest
    exact absurd (List.cons.inj hrest).1 hticket

/-- The answers of writes touch neither the queue nor the flusher nor `close()`. -/
theorem frame_settle (failure : AccessOutcome R) (s : ClosingStore apply start)
    (results : List (Option Int)) :
    (s.settle failure results).queue = s.queue ∧ (s.settle failure results).flusher = s.flusher ∧
      (s.settle failure results).close = s.close ∧ (s.settle failure results).conn = s.conn := by
  unfold ClosingStore.settle
  induction results generalizing s with
  | nil => exact ⟨rfl, rfl, rfl, rfl⟩
  | cons result results ih =>
      have hnext : (s.settleNext failure result).queue = s.queue ∧
          (s.settleNext failure result).flusher = s.flusher ∧
          (s.settleNext failure result).close = s.close ∧
          (s.settleNext failure result).conn = s.conn := by
        unfold ClosingStore.settleNext
        split
        · split
          · cases result <;> exact ⟨rfl, rfl, rfl, rfl⟩
          · exact ⟨rfl, rfl, rfl, rfl⟩
        · exact ⟨rfl, rfl, rfl, rfl⟩
      have hrest := ih (s.settleNext failure result)
      rw [hnext.1, hnext.2.1, hnext.2.2.1, hnext.2.2.2] at hrest
      exact hrest

/-- A flusher at the head of the queue waits for its turn. -/
theorem Waits.waiting_of_head (h : s.Waits) {rest : List Ticket}
    (hqueue : s.queue = .flush :: rest) : s.flusher = .waiting := by
  have hcount := h.flush
  by_contra hnot
  rw [hqueue, List.count_cons_self, if_neg hnot] at hcount
  omega

/-- `close()` leaves the head of the queue. -/
theorem Waits.leave (h : s.Waits) {rest : List Ticket} (hqueue : s.queue = .close :: rest)
    (hclose : s.close = .locking ∨ s.close = .shutting) :
    rest.count .flush = (if s.flusher = .waiting then 1 else 0) ∧ rest.count .close = 0 := by
  have hcount := h.close.count
  rw [hqueue, List.count_cons_self, if_pos hclose] at hcount
  have hflush := h.flush
  rw [hqueue, List.count_cons_of_ne (by simp)] at hflush
  exact ⟨hflush, by omega⟩

/-- Every step keeps what the flusher and `close()` wait for. -/
theorem Waits.of_moves (h : s.Waits) (hmoves : s.Moves sdk l s') : s'.Waits := by
  cases hmoves with
  | refused kind work due hclosing => exact h.congr rfl rfl rfl rfl
  | arrived kind work due hclosing hconn =>
      refine Waits.pass ?_ _ _ due
      exact h.congr rfl rfl rfl rfl
  | connected i a due hi hphase hconn => exact h.pass i a due
  | turnedAway i a due hi hphase => exact h.congr rfl rfl rfl rfl
  | external change => exact h.congr rfl rfl rfl rfl
  | closeCalled hclose =>
      have hnone : s.queue.count .close = 0 := by simpa [hclose] using h.close.count
      cases sdk with
      | python =>
          exact ⟨h.flush, ⟨by simpa [startClose] using hnone, by simp [startClose]⟩, h.stocked,
            by simp [startClose]⟩
      | node =>
          refine ⟨h.flush, ⟨by simpa [startClose] using hnone, by simp [startClose]⟩, h.stocked, ?_⟩
          simp [startClose]
  | closeBegan hclose =>
      unfold beginClose
      split
      · exact h.lockClose (by simp [hclose])
      · rename_i hflusher
        have hnone : s.queue.count .close = 0 := by simpa [hclose] using h.close.count
        exact ⟨h.flush, ⟨by simpa using hnone, by simp⟩, h.stocked, fun _ => hflusher⟩
  | closeWaits hclose => exact h.lockClose (by simp [hclose])
  | turned i a rest verdict hqueue hi hturn =>
      have hleft : Waits { s with queue := rest } := by
        refine ⟨?_, h.close.tail hqueue (by simp), h.stocked, h.awaited⟩
        have hflush := h.flush
        rw [hqueue, List.count_cons_of_ne (by simp)] at hflush
        exact hflush
      cases hturn with
      | began nowMs hconn hphase => exact h.congr rfl rfl rfl rfl
      | _ => exact hleft.congr rfl rfl rfl rfl
  | flushed rest verdict hqueue hturn =>
      have hcount := h.flush
      have hwaiting := h.waiting_of_head hqueue
      have hflush : rest.count .flush = 0 := by
        rw [hqueue, List.count_cons_self, if_pos hwaiting] at hcount
        omega
      have hclose := h.close.tail hqueue (by simp)
      have hsettled : ∀ failure results,
          (({ s with queue := rest } : ClosingStore apply start).settle failure
            results).queue.count .flush = 0 ∧
          (({ s with queue := rest } : ClosingStore apply start).settle failure
            results).CloseQueued := by
        intro failure results
        have hframe := frame_settle failure { s with queue := rest } results
        exact ⟨hframe.1 ▸ hflush, hclose.congr hframe.2.2.1 hframe.1⟩
      cases hturn with
      | gone hconn => exact Waits.check (hsettled _ _).1 (hsettled _ _).2
      | stranded hconn => exact Waits.check (hsettled _ _).1 (hsettled _ _).2
      | committed results hconn hsome hle =>
          cases sdk with
          | python => exact Waits.check (hsettled _ _).1 (hsettled _ _).2
          | node =>
              refine ⟨?_, (hsettled .sqlError results).2.congr rfl rfl, by simp [afterFlush],
                by simp [afterFlush]⟩
              simpa [afterFlush] using (hsettled .sqlError results).1
      | backedOff hconn =>
          exact ⟨by simpa using hflush, hclose.congr rfl rfl,
            fun _ => h.stocked (Or.inl hwaiting), by simp⟩
  | taken rest verdict hqueue hclose hsdk =>
      have hcount := h.close.count
      exact ⟨h.flush, ⟨by simpa [hclose] using hcount, fun _ => ⟨rest, hqueue⟩⟩, h.stocked, by simp⟩
  | released rest verdict hqueue hclose hsdk =>
      rcases h.leave hqueue (Or.inl hclose) with ⟨hflush, hnone⟩
      exact ⟨hflush, ⟨by simpa using hnone, by simp⟩, h.stocked, by simp⟩
  | shut rest hqueue hclose =>
      rcases h.leave hqueue (Or.inr hclose) with ⟨hflush, hnone⟩
      exact ⟨hflush, ⟨by simpa using hnone, by simp⟩, h.stocked, by simp⟩
  | dropped hclose =>
      have hnone : s.queue.count .close = 0 := by simpa [hclose] using h.close.count
      exact ⟨h.flush, ⟨by simpa using hnone, by simp⟩, h.stocked, by simp⟩
  | resumed i a hi hphase => exact h.join i a
  | woken i a hi hphase =>
      exact (h.congr rfl rfl rfl rfl : (s.setPhase i a .queued).Waits).enqueue i
  | checked hflusher =>
      have hflush : s.queue.count .flush = 0 := by
        rcases hflusher with hf | hf <;> simpa [hf] using h.flush
      exact Waits.check hflush h.close
  | cleared hflusher =>
      exact Waits.finishFlusher (by simpa [hflusher] using h.flush) h.close
  | flusherWoken hflusher =>
      exact Waits.queueFlusher (by simpa [hflusher] using h.flush) h.close
        (h.stocked (Or.inr hflusher))

theorem Waits.opened (waiting : List (AccessKind × W)) :
    (ClosingStore.opened apply start waiting).Waits where
  flush := rfl
  close := ⟨rfl, fun h => by cases h⟩
  stocked h := by simp [ClosingStore.opened] at h
  awaited h := by cases h

end ClosingStore

/-! ## What is left to do -/

/-- The turns an operation that passed the check may still need, and those it may give a
flusher. -/
def AccessPhase.turns : AccessPhase R → Nat
  | .connecting => 0
  | .refreshing => 21
  | .refreshed => 20
  | .queued => 10
  | .inside => 9
  | .backoff => 11
  | .pending => 8
  | .ended _ => 0

theorem AccessPhase.nine_le_turns {phase : AccessPhase R} (h : phase.inQueue = true) :
    9 ≤ phase.turns := by
  cases phase with
  | refreshing => exact (by omega : 9 ≤ 21)
  | queued => exact (by omega : 9 ≤ 10)
  | inside => exact Nat.le_refl 9
  | _ => cases h

/-- The turns of a flusher; {lit}`idle` says that the pending queue is empty. -/
def FlusherStage.turns (idle : Bool) : FlusherStage → Nat
  | .none => 0
  | .drained => 1
  | .settling => if idle then 2 else 5
  | .waiting => 4
  | .scheduled | .backoff => 5

theorem FlusherStage.turns_false_le (flusher : FlusherStage) (idle : Bool) :
    flusher.turns false ≤ flusher.turns idle + 3 := by
  cases flusher <;> cases idle <;> decide

/-- The turns of `close()`. -/
def CloseStage.turns : CloseStage → Nat
  | .uncalled => 0
  | .scheduled => 8
  | .flushing ended => if ended then 6 else 7
  | .locking => 5
  | .shutting => 4
  | .released => 4
  | .done => 0

/-- The store itself takes the step: it is no arrival, no change by another connection and not
the call of `close()`. -/
def CloseStep.internal : CloseStep D W → Bool
  | .access _ _ _ | .connected _ _ | .external _ | .close => false
  | _ => true

/-- A turn that loses the write lock and will be taken again. -/
def CloseStep.retries : CloseStep D W → Bool
  | .turn (.busy true) => true
  | _ => false

namespace ClosingStore

variable {s s' : ClosingStore apply start} {sdk : Sdk} {i : Nat} {a : Access W R}
  {l : CloseStep D W}

/-- The turns all operations may still need. -/
def work (s : ClosingStore apply start) : Nat :=
  (s.accesses.map fun a => a.phase.turns).sum

/-- What is left to do. -/
def rank (s : ClosingStore apply start) : Nat :=
  s.work + s.flusher.turns s.pending.isEmpty + s.close.turns

theorem work_setPhase (hi : s.accesses[i]? = some a) (phase : AccessPhase R) :
    (s.setPhase i a phase).work + a.phase.turns = s.work + phase.turns :=
  sum_map_set (fun a => a.phase.turns) hi { a with phase := phase }

/-- `close()` goes on and nothing else moves. -/
theorem rank_lt_of_close (hwork : s'.work = s.work) (hflusher : s'.flusher = s.flusher)
    (hpending : s'.pending = s.pending) {stage : CloseStage} (hclose : s.close = stage)
    (hless : s'.close.turns < stage.turns) : s'.rank < s.rank := by
  rw [rank, rank, hwork, hflusher, hpending, hclose]
  exact Nat.add_lt_add_left hless _

/-- The flusher that ends brings `close()` no further away. -/
theorem rank_finishFlusher_le (s : ClosingStore apply start) :
    s.finishFlusher.rank ≤ s.work + s.close.turns := by
  have hclose : s.finishFlusher.close.turns ≤ s.close.turns := by
    simp only [finishFlusher]
    split
    · rename_i ended hstage
      rw [hstage]
      cases ended <;> decide
    · exact Nat.le_refl _
  have hwork : s.finishFlusher.work = s.work := rfl
  have hflusher : s.finishFlusher.flusher.turns s.finishFlusher.pending.isEmpty = 0 := rfl
  rw [rank, hwork, hflusher]
  omega

/-- The flusher checks in at most four turns. -/
theorem rank_check_le (sdk : Sdk) (s : ClosingStore apply start) :
    (s.check sdk).rank ≤ s.work + s.close.turns + if s.pending.isEmpty then 1 else 4 := by
  unfold check
  split
  · rename_i hpending
    have hle := rank_finishFlusher_le s
    omega
  · rename_i hpending
    rw [hpending, List.isEmpty_nil, if_pos rfl]
    show s.work + 1 + s.close.turns ≤ _
    omega
  · rename_i hpending
    rw [hpending, List.isEmpty_cons, if_neg (by simp)]
    show s.work + 4 + s.close.turns ≤ _
    omega

theorem rank_scheduleFlush_le (sdk : Sdk) (s : ClosingStore apply start) :
    (s.scheduleFlush sdk).rank ≤ s.rank + 5 := by
  unfold scheduleFlush
  split
  · show s.work + 5 + s.close.turns ≤ s.work + _ + s.close.turns + 5
    omega
  · show s.work + 4 + s.close.turns ≤ s.work + _ + s.close.turns + 5
    omega
  · omega

/-- A write that queues may have a flusher to wait for. -/
theorem rank_join_lt (hi : s.accesses[i]? = some a) (hphase : a.phase = .refreshed) :
    (s.join sdk i a).rank < s.rank := by
  unfold join
  split
  · have hle := rank_scheduleFlush_le sdk ((s.setPhase i a .pending).queueWrite i)
    have hrank : ((s.setPhase i a .pending).queueWrite i).rank =
        (s.setPhase i a .pending).work + s.flusher.turns false + s.close.turns := by
      have hpending : (s.pending ++ [i]).isEmpty = false := by simp
      show _ + s.flusher.turns (s.pending ++ [i]).isEmpty + _ = _
      rw [hpending]
      rfl
    have hflusher := s.flusher.turns_false_le s.pending.isEmpty
    have hwork := work_setPhase hi .pending
    rw [hphase] at hwork
    simp only [AccessPhase.turns] at hwork
    rw [hrank] at hle
    refine Nat.lt_of_le_of_lt hle ?_
    rw [rank]
    omega
  · have hwork := work_setPhase hi .queued
    rw [hphase] at hwork
    have hrank : ((s.setPhase i a .queued).enqueue (.access i)).rank =
        (s.setPhase i a .queued).work + s.flusher.turns s.pending.isEmpty + s.close.turns := rfl
    simp only [AccessPhase.turns] at hwork
    rw [hrank, rank]
    omega

/-- The answer of a write is one write less to answer. -/
theorem work_settleNext (h : s.Books) (hpending : s.pending ≠ []) (failure : AccessOutcome R)
    (result : Option Int) : (s.settleNext failure result).work + 8 ≤ s.work := by
  cases hqueue : s.pending with
  | nil => exact absurd hqueue hpending
  | cons i rest =>
      rcases h.pending_of_mem (i := i) (by simp [hqueue]) with ⟨a, hi, hphase⟩
      simp only [settleNext, hqueue, hi]
      have hless : ∀ outcome, (s.setPhase i a (.ended outcome)).work + 8 ≤ s.work := by
        intro outcome
        have hwork := work_setPhase hi (.ended outcome)
        rw [hphase] at hwork
        simp only [AccessPhase.turns] at hwork
        omega
      cases result with
      | some nowMs => exact hless _
      | none => exact hless failure

theorem work_settleNext_le (h : s.Books) (failure : AccessOutcome R) (result : Option Int) :
    (s.settleNext failure result).work ≤ s.work := by
  by_cases hpending : s.pending = []
  · simp [settleNext, hpending]
  · have hless := work_settleNext h hpending failure result
    omega

theorem work_settle_le (h : s.Books) {failure : AccessOutcome R}
    (hfailure : (AccessPhase.ended failure).returned = false) (results : List (Option Int)) :
    (s.settle failure results).work ≤ s.work := by
  unfold settle
  induction results generalizing s with
  | nil => exact Nat.le_refl _
  | cons result results ih =>
      exact (ih (h.settleNext hfailure result)).trans (work_settleNext_le h failure result)

theorem work_settle_add_le (h : s.Books) {failure : AccessOutcome R}
    (hfailure : (AccessPhase.ended failure).returned = false) (hpending : s.pending ≠ [])
    {results : List (Option Int)} (hsome : 0 < results.length) :
    (s.settle failure results).work + 8 ≤ s.work := by
  cases results with
  | nil => cases hsome
  | cons result results =>
      have hrest : (s.settle failure (result :: results)).work ≤
          (s.settleNext failure result).work :=
        work_settle_le (h.settleNext hfailure result) hfailure results
      have hfirst := work_settleNext h hpending failure result
      omega

/-- Every step of the store but a retry of a lost write lock leaves less to do. -/
theorem rank_lt (hbooks : s.Books) (hwaits : s.Waits) (hmoves : s.Moves sdk l s')
    (hinternal : l.internal = true) (hretries : l.retries = false) : s'.rank < s.rank := by
  cases hmoves with
  | refused kind work due hclosing => cases hinternal
  | arrived kind work due hclosing hconn => cases hinternal
  | connected i a due hi hphase hconn => cases hinternal
  | turnedAway i a due hi hphase => cases hinternal
  | external change => cases hinternal
  | closeCalled hclose => cases hinternal
  | closeBegan hclose =>
      unfold beginClose
      split
      · exact rank_lt_of_close rfl rfl rfl hclose (by omega : 5 < 8)
      · exact rank_lt_of_close rfl rfl rfl hclose (by omega : 7 < 8)
  | closeWaits hclose => exact rank_lt_of_close rfl rfl rfl hclose (by omega : 5 < 6)
  | turned i a rest verdict hqueue hi hturn =>
      have hin := hbooks.inQueue_of_head hqueue hi
      have hless : ∀ phase : AccessPhase R, phase.turns < a.phase.turns →
          (s.setPhase i a phase).work < s.work := by
        intro phase hlt
        have hwork := work_setPhase hi phase
        omega
      have hrank : ∀ phase : AccessPhase R, phase.turns < a.phase.turns →
          (s.setPhase i a phase).work + s.flusher.turns s.pending.isEmpty + s.close.turns <
            s.rank := by
        intro phase hlt
        have hlt' := hless phase hlt
        rw [rank]
        omega
      have hleast := AccessPhase.nine_le_turns hin
      have hended : ∀ outcome : AccessOutcome R,
          (AccessPhase.ended outcome).turns < a.phase.turns := by
        intro outcome
        show 0 < a.phase.turns
        omega
      cases hturn with
      | gone hconn => exact hrank (.ended .connectionGone) (hended _)
      | refreshed _ hconn hphase => exact hrank .refreshed (by simp [hphase, AccessPhase.turns])
      | failed hconn => exact hrank (.ended .sqlError) (hended _)
      | backedOff hconn => cases hretries
      | began nowMs hconn hphase => exact hrank .inside (by simp [hphase, AccessPhase.turns])
      | performed nowMs hconn =>
          exact hrank (.ended (.rows (s.store.answer a.work nowMs))) (hended _)
  | flushed rest verdict hqueue hturn =>
      have hwaiting : s.flusher = .waiting := hwaits.waiting_of_head hqueue
      have hpending := hwaits.stocked (Or.inl hwaiting)
      have hsome : 0 < s.pending.length := List.length_pos_iff.mpr hpending
      have hleft : Books ({ s with queue := rest } : ClosingStore apply start) :=
        hbooks.congr rfl (fun i => by simp [hqueue]) rfl rfl
      have hrank : s.rank = s.work + 4 + s.close.turns := by rw [rank, hwaiting]; rfl
      have hcheck : ∀ {failure : AccessOutcome R} {results : List (Option Int)},
          (AccessPhase.ended failure).returned = false → 0 < results.length →
          ((({ s with queue := rest } : ClosingStore apply start).settle failure results).check
            sdk).rank < s.rank := by
        intro failure results hfailure hlength
        have hlt := work_settle_add_le hleft hfailure hpending hlength
        have hle := rank_check_le sdk
          (({ s with queue := rest } : ClosingStore apply start).settle failure results)
        rw [(frame_settle failure { s with queue := rest } results).2.2.1] at hle
        have hwork : ({ s with queue := rest } : ClosingStore apply start).work = s.work := rfl
        have hfour : (if (({ s with queue := rest } : ClosingStore apply start).settle failure
            results).pending.isEmpty then 1 else 4) ≤ 4 := by split <;> omega
        rw [hrank]
        simp only at hle
        omega
      cases hturn with
      | gone hconn => exact hcheck rfl (by simpa using hsome)
      | stranded hconn => exact hcheck rfl (by simpa using hsome)
      | backedOff hconn => cases hretries
      | committed results hconn hlength hle =>
          cases sdk with
          | python => exact hcheck rfl hlength
          | node =>
              have hfailure : (AccessPhase.ended (.sqlError : AccessOutcome R)).returned = false :=
                rfl
              have hlt := work_settle_add_le hleft hfailure hpending hlength
              have hclose := (frame_settle .sqlError { s with queue := rest } results).2.2.1
              have hfive : FlusherStage.turns (({ s with queue := rest } :
                  ClosingStore apply start).settle .sqlError results).pending.isEmpty .settling ≤
                    5 := by
                simp only [FlusherStage.turns]
                split <;> omega
              have hwork : ({ s with queue := rest } : ClosingStore apply start).work =
                s.work := rfl
              have hafter : ((({ s with queue := rest } : ClosingStore apply start).settle
                  .sqlError results).afterFlush .node).rank =
                  (({ s with queue := rest } : ClosingStore apply start).settle .sqlError
                    results).work + FlusherStage.turns (({ s with queue := rest } :
                  ClosingStore apply start).settle .sqlError results).pending.isEmpty .settling +
                    s.close.turns := by
                rw [rank]
                show _ + _ + CloseStage.turns (({ s with queue := rest } :
                  ClosingStore apply start).settle .sqlError results).close = _
                rw [hclose]
                rfl
              rw [hafter, hrank]
              omega
  | taken rest verdict hqueue hclose hsdk =>
      exact rank_lt_of_close rfl rfl rfl hclose (by omega : 4 < 5)
  | released rest verdict hqueue hclose hsdk =>
      exact rank_lt_of_close rfl rfl rfl hclose (by omega : 4 < 5)
  | shut rest hqueue hclose => exact rank_lt_of_close rfl rfl rfl hclose (by omega : 0 < 4)
  | dropped hclose => exact rank_lt_of_close rfl rfl rfl hclose (by omega : 0 < 4)
  | resumed i a hi hphase => exact rank_join_lt hi hphase
  | woken i a hi hphase =>
      have hwork := work_setPhase hi .queued
      rw [hphase] at hwork
      simp only [AccessPhase.turns] at hwork
      show (s.setPhase i a .queued).work + s.flusher.turns s.pending.isEmpty + s.close.turns <
        s.work + s.flusher.turns s.pending.isEmpty + s.close.turns
      omega
  | checked hflusher =>
      have hle := rank_check_le sdk s
      have hturns : (if s.pending.isEmpty then 1 else 4) < s.flusher.turns s.pending.isEmpty := by
        rcases hflusher with hf | hf <;> rw [hf] <;> cases s.pending.isEmpty <;> decide
      have hrank : s.rank = s.work + s.flusher.turns s.pending.isEmpty + s.close.turns := rfl
      omega
  | cleared hflusher =>
      have hle := rank_finishFlusher_le s
      have hrank : s.rank = s.work + 1 + s.close.turns := by
        rw [rank, hflusher]
        rfl
      omega
  | flusherWoken hflusher =>
      have hrank : s.rank = s.work + 5 + s.close.turns := by
        rw [rank, hflusher]
        rfl
      show s.work + 4 + s.close.turns < s.rank
      omega

end ClosingStore

end CairnQ
