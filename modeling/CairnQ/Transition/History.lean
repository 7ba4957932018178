import Mathlib.Data.List.Basic

/-!
# Serial histories

A datum that is changed by numbered operations and by its surroundings, together
with the log of all changes in the order they took effect.  Replaying the log from
the initial datum gives the datum, and every logged operation carries the answer
it gives at its place in the log; both facts are fields of the history, so that
whoever extends one by its two operations never re-proves them.

Main results:

- Theorem `History.answer_at`: an answer in the log is the one its operation gives
  on the replay of everything before it.
- Theorems `History.answers_perform` and `History.answers_external`: what the two
  operations add to the answers of the log.
-/

namespace Transition

variable {δ ω α γ : Type}

/-- A change of the datum: a numbered operation with its context and the answer it
gave, or a change by the surroundings. -/
inductive LogEntry (δ ω α γ : Type)
  | operation (id : Nat) (op : ω) (context : γ) (answer : α)
  | external (change : δ → δ)

namespace LogEntry

/-- What an entry does to the datum. -/
def effect (apply : γ → ω → δ → δ × α) : LogEntry δ ω α γ → δ → δ
  | .operation _ op context _, datum => (apply context op datum).1
  | .external change, datum => change datum

/-- The number and the answer of a logged operation. -/
def answer? : LogEntry δ ω α γ → Option (Nat × α)
  | .operation id _ _ answer => some (id, answer)
  | .external _ => none

end LogEntry

/-- The datum after the changes of a log. -/
def replay (apply : γ → ω → δ → δ × α) (datum : δ) (log : List (LogEntry δ ω α γ)) : δ :=
  log.foldl (fun datum entry => entry.effect apply datum) datum

theorem replay_concat (apply : γ → ω → δ → δ × α) (datum : δ) (log : List (LogEntry δ ω α γ))
    (entry : LogEntry δ ω α γ) :
    replay apply datum (log ++ [entry]) = entry.effect apply (replay apply datum log) := by
  rw [replay, List.foldl_append]
  rfl

/-- The numbered answers of a log, in order. -/
def answers (log : List (LogEntry δ ω α γ)) : List (Nat × α) :=
  log.filterMap LogEntry.answer?

/-- The numbers of the operations of a log, in order. -/
def operationIds (log : List (LogEntry δ ω α γ)) : List Nat :=
  (answers log).map Prod.fst

theorem operationIds_append (log log' : List (LogEntry δ ω α γ)) :
    operationIds (log ++ log') = operationIds log ++ operationIds log' := by
  rw [operationIds, answers, List.filterMap_append, List.map_append]
  rfl

/-- The numbers of a log are those of its operations. -/
theorem mem_operationIds {log : List (LogEntry δ ω α γ)} {id : Nat} :
    id ∈ operationIds log ↔ ∃ op context answer, .operation id op context answer ∈ log := by
  simp only [operationIds, answers, List.mem_map, List.mem_filterMap]
  constructor
  · rintro ⟨⟨id', answer⟩, ⟨entry, hmem, hanswer⟩, rfl⟩
    cases entry with
    | external change => cases hanswer
    | operation id' op context answer' =>
        cases hanswer
        exact ⟨op, context, answer, hmem⟩
  · rintro ⟨op, context, answer, hmem⟩
    exact ⟨(id, answer), ⟨_, hmem, rfl⟩, rfl⟩

/-- Every logged operation has the answer it gives at its place. -/
def Answered (apply : γ → ω → δ → δ × α) (start : δ) (log : List (LogEntry δ ω α γ)) : Prop :=
  ∀ before id op context answer after,
    log = before ++ .operation id op context answer :: after →
      answer = (apply context op (replay apply start before)).2

/-- The log of all changes since the start, with the datum they lead to. -/
structure History (apply : γ → ω → δ → δ × α) (start : δ) where
  log : List (LogEntry δ ω α γ)
  datum : δ
  replayed : datum = replay apply start log
  answered : Answered apply start log

/-- Appending one entry keeps the answers of the earlier ones. -/
theorem Answered.append {apply : γ → ω → δ → δ × α} {start : δ} {log : List (LogEntry δ ω α γ)}
    {entry : LogEntry δ ω α γ} (h : Answered apply start log)
    (hentry : ∀ id op context answer, entry = .operation id op context answer →
      answer = (apply context op (replay apply start log)).2) :
    Answered apply start (log ++ [entry]) := by
  intro before id op context answer after hsplit
  rcases List.eq_nil_or_concat after with rfl | ⟨after', last, rfl⟩
  · -- the entry is the appended one
    rcases List.append_inj' hsplit rfl with ⟨rfl, hlast⟩
    exact hentry id op context answer (List.cons.inj hlast).1
  · rw [List.concat_eq_append, ← List.cons_append, ← List.append_assoc] at hsplit
    exact h before id op context answer after' (List.append_inj' hsplit rfl).1

namespace History

variable {apply : γ → ω → δ → δ × α} {start : δ}

/-- The history before any change. -/
def empty : History apply start where
  log := []
  datum := start
  replayed := rfl
  answered := by
    intro before id op context answer after hsplit
    cases before <;> cases hsplit

/-- The answer an operation gives now. -/
def answer (h : History apply start) (op : ω) (context : γ) : α :=
  (apply context op h.datum).2

/-- An operation takes effect. -/
def perform (h : History apply start) (id : Nat) (op : ω) (context : γ) : History apply start where
  log := h.log ++ [.operation id op context (h.answer op context)]
  datum := (apply context op h.datum).1
  replayed := by
    rw [replay_concat, ← h.replayed]
    rfl
  answered := by
    refine h.answered.append fun id' op' context' answer' heq => ?_
    cases heq
    rw [← h.replayed]
    rfl

/-- The surroundings change the datum. -/
def external (h : History apply start) (change : δ → δ) : History apply start where
  log := h.log ++ [.external change]
  datum := change h.datum
  replayed := by
    rw [replay_concat, ← h.replayed]
    rfl
  answered := by
    refine h.answered.append fun id op context answer heq => ?_
    cases heq

@[simp]
theorem answers_perform (h : History apply start) (id : Nat) (op : ω) (context : γ) :
    answers (h.perform id op context).log = answers h.log ++ [(id, h.answer op context)] := by
  simp only [answers, perform, List.filterMap_append]
  rfl

@[simp]
theorem answers_external (h : History apply start) (change : δ → δ) :
    answers (h.external change).log = answers h.log := by
  simp only [answers, external, List.filterMap_append]
  exact List.append_nil _

/-- An answer in the log belongs to an operation, and is the one the operation gives on the
replay of everything before it. -/
theorem answer_at (h : History apply start) {id : Nat} {answer : α}
    (hanswer : (id, answer) ∈ answers h.log) :
    ∃ before op context after, h.log = before ++ .operation id op context answer :: after ∧
      answer = (apply context op (replay apply start before)).2 := by
  rcases List.mem_filterMap.mp hanswer with ⟨entry, hmem, hentry⟩
  cases entry with
  | external change => cases hentry
  | operation id' op context answer' =>
      cases hentry
      rcases List.append_of_mem hmem with ⟨before, after, hsplit⟩
      exact ⟨before, op, context, after, hsplit, h.answered _ _ _ _ _ _ hsplit⟩

end History

end Transition
