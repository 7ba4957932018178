import Mathlib.Logic.Basic

/-!
# Memo tables

A function whose answers are kept under a key of the argument.  Every entry is the answer for
some argument with its key, which is a field of the table; whether it is the answer for the
argument that is asked about depends on what the key tells apart.

Main results:

- Theorem `Memo.ask_fst`: when equal keys have equal answers, no history of questions shows.
-/

namespace Transition

variable {α κ β : Type} {key : α → κ} {f : α → β}

/-- The answers kept so far. -/
structure Memo (key : α → κ) (f : α → β) where
  entries : List (κ × β)
  sound : ∀ e ∈ entries, ∃ a, e.1 = key a ∧ e.2 = f a

namespace Memo

/-- Nothing has been asked. -/
def empty : Memo key f where
  entries := []
  sound := by
    intro e he
    cases he

/-- Keep an answer. -/
def keep (m : Memo key f) (a : α) : Memo key f where
  entries := (key a, f a) :: m.entries
  sound := by
    intro e he
    rcases List.mem_cons.mp he with rfl | he
    · exact ⟨a, rfl, rfl⟩
    · exact m.sound e he

variable [DecidableEq κ]

/-- The answer that is kept under a key. -/
def lookup (m : Memo key f) (k : κ) : Option β :=
  (m.entries.find? fun e => decide (e.1 = k)).map Prod.snd

/-- Answer from the table, or compute the answer and keep it. -/
def ask (m : Memo key f) (a : α) : β × Memo key f :=
  match m.lookup (key a) with
  | some b => (b, m)
  | none => (f a, m.keep a)

/-- The answer does not depend on what was asked before. -/
theorem ask_fst (hkey : ∀ a b, key a = key b → f a = f b) (m : Memo key f) (a : α) :
    (m.ask a).1 = f a := by
  cases hlookup : m.lookup (key a) with
  | none => simp only [ask, hlookup]
  | some b =>
      rcases Option.map_eq_some_iff.mp hlookup with ⟨e, hfind, rfl⟩
      rcases m.sound e (List.mem_of_find?_eq_some hfind) with ⟨a', hkey', hanswer⟩
      have hsame : e.1 = key a := by simpa using List.find?_some hfind
      simp only [ask, hlookup]
      rw [hanswer]
      exact hkey a' a (hkey'.symm.trans hsame)

end Memo

end Transition
