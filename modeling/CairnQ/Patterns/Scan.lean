import Mathlib.Data.List.Infix
import Mathlib.Data.Option.Basic

/-!
# Scanning with patterns

Regular expressions with groups, back-references and a look-behind of one character, matched
by backtracking: a pattern yields all its ways to match at a place in order of preference, and
the first one counts.  A scan finds the matches from left to right, each after the end of the
one before.  An empty match is passed over; the patterns it is meant for have none.

Main results:

- Theorems `scans_tokens` and `Scans.eq_tokens`: the scan is the one derivation of its rules.
- Theorem `tokens_append_of_avoids`: a text is scanned line by line when no match reaches over
  the end of a line.
- Theorems `Leads.seq`, `leads_many` and the like: the first way a pattern matches.
-/

namespace Patterns

variable {α : Type}

/-- A pattern over texts of some alphabet. -/
inductive Pattern (α : Type)
  /-- these characters -/
  | lit (word : List α)
  /-- one character of a class -/
  | one (ok : α → Bool)
  /-- as many characters of a class as there are, or fewer -/
  | many (ok : α → Bool)
  | seq (p q : Pattern α)
  /-- the pattern if it matches, or nothing -/
  | opt (p : Pattern α)
  /-- a group; groups are numbered in the order in which they close -/
  | group (p : Pattern α)
  /-- what a group has matched, once more -/
  | again (n : Nat)
  /-- there is no character of a class right before -/
  | notAfter (ok : α → Bool)

/-- At least one character of a class. -/
def Pattern.many1 (ok : α → Bool) : Pattern α :=
  .seq (.one ok) (.many ok)

/-- What a pattern has matched, and the groups closed so far. -/
abbrev Match (α : Type) := List α × List (List α)

/-- The character before the rest of a text, once part of it is read. -/
def lastOf (last : Option α) (read : List α) : Option α :=
  read.foldl (fun _ c => some c) last

@[simp]
theorem lastOf_nil (last : Option α) : lastOf last [] = last :=
  rfl

@[simp]
theorem lastOf_cons (last : Option α) (c : α) (read : List α) :
    lastOf last (c :: read) = lastOf (some c) read :=
  rfl

theorem lastOf_of_ne_nil {read : List α} (h : read ≠ []) (last last' : Option α) :
    lastOf last read = lastOf last' read := by
  cases read with
  | nil => exact absurd rfl h
  | cons c read => rfl

/-- What was read last is the last character. -/
theorem lastOf_eq_some_iff {read : List α} {c : α} {last : Option α} (h : read ≠ []) :
    lastOf last read = some c ↔ read.getLast? = some c := by
  induction read generalizing last with
  | nil => exact absurd rfl h
  | cons d read ih =>
      cases read with
      | nil => simp
      | cons e read =>
          rw [lastOf_cons, ih (List.cons_ne_nil e read), List.getLast?_cons_cons]

/-- A text is its own longest beginning. -/
theorem getLast?_inits (a : List α) : a.inits.getLast? = some a := by
  induction a with
  | nil => rfl
  | cons c a ih => simp [List.getLast?_cons, List.getLast?_map, ih]

/-- A text begins with a stretch of a class, perhaps an empty one. -/
theorem exists_stretch (ok : α → Bool) (text : List α) :
    ∃ a rest, text = a ++ rest ∧ (∀ c ∈ a, ok c = true) ∧ ∀ c ∈ rest.head?, ok c = false := by
  induction text with
  | nil => exact ⟨[], [], rfl, by simp, by simp⟩
  | cons c text ih =>
      by_cases hc : ok c = true
      · rcases ih with ⟨a, rest, rfl, ha, hrest⟩
        exact ⟨c :: a, rest, rfl, List.forall_mem_cons.mpr ⟨hc, ha⟩, hrest⟩
      · refine ⟨[], c :: text, rfl, by simp, fun d hd => ?_⟩
        cases hd
        simpa using hc

theorem takeWhile_append_cons {ok : α → Bool} {c : α} (hc : ok c = false) (a b : List α) :
    (a ++ c :: b).takeWhile ok = a.takeWhile ok := by
  induction a with
  | nil => simp [hc]
  | cons d a ih => simp [List.takeWhile_cons, ih]

variable [DecidableEq α]

namespace Pattern

/-- The ways a pattern matches at the beginning of a text, in order of preference. -/
def ends : Pattern α → Option α → List α → List (List α) → List (Match α)
  | .lit word, _, text, groups => if word.isPrefixOf text then [(word, groups)] else []
  | .one ok, _, c :: _, groups => if ok c then [([c], groups)] else []
  | .one _, _, [], _ => []
  | .many ok, _, text, groups => (text.takeWhile ok).inits.reverse.map fun taken => (taken, groups)
  | .seq p q, last, text, groups => (p.ends last text groups).flatMap fun e =>
      (q.ends (lastOf last e.1) (text.drop e.1.length) e.2).map fun e' => (e.1 ++ e'.1, e'.2)
  | .opt p, last, text, groups => p.ends last text groups ++ [([], groups)]
  | .group p, last, text, groups => (p.ends last text groups).map fun e => (e.1, e.2 ++ [e.1])
  | .again n, _, text, groups => match groups[n]? with
    | some g => if g.isPrefixOf text then [(g, groups)] else []
    | none => []
  | .notAfter ok, last, _, groups => if last.any ok then [] else [([], groups)]

section Equations

variable (last : Option α) (text : List α) (groups : List (List α))

theorem ends_lit (word : List α) : (lit word).ends last text groups =
    if word.isPrefixOf text then [(word, groups)] else [] :=
  rfl

theorem ends_one_cons (ok : α → Bool) (c : α) : (one ok).ends last (c :: text) groups =
    if ok c then [([c], groups)] else [] :=
  rfl

theorem ends_many (ok : α → Bool) : (many ok).ends last text groups =
    (text.takeWhile ok).inits.reverse.map fun taken => (taken, groups) :=
  rfl

theorem ends_seq (p q : Pattern α) : (seq p q).ends last text groups =
    (p.ends last text groups).flatMap fun e =>
      (q.ends (lastOf last e.1) (text.drop e.1.length) e.2).map fun e' => (e.1 ++ e'.1, e'.2) :=
  rfl

theorem ends_opt (p : Pattern α) : (opt p).ends last text groups =
    p.ends last text groups ++ [([], groups)] :=
  rfl

theorem ends_group (p : Pattern α) : (group p).ends last text groups =
    (p.ends last text groups).map fun e => (e.1, e.2 ++ [e.1]) :=
  rfl

theorem ends_again (n : Nat) : (again n).ends last text groups =
    match groups[n]? with
    | some g => if g.isPrefixOf text then [(g, groups)] else []
    | none => [] :=
  rfl

theorem ends_notAfter (ok : α → Bool) : (notAfter ok).ends last text groups =
    if last.any ok then [] else [([], groups)] :=
  rfl

end Equations

/-- The match at a place. -/
def matchAt (p : Pattern α) (last : Option α) (text : List α) : Option (Match α) :=
  (p.ends last text []).head?.filter fun e => !e.1.isEmpty

end Pattern

/-- A piece of a scanned text. -/
inductive Token (α : Type)
  | char (c : α)
  | hit (taken : List α) (groups : List (List α))
deriving DecidableEq, Repr

/-- The text of a piece. -/
def Token.text : Token α → List α
  | .char c => [c]
  | .hit taken _ => taken

namespace Pattern

/-- Scan a text; {lit}`skip` characters belong to the match before. -/
def tokensFrom (p : Pattern α) : Option α → Nat → List α → List (Token α)
  | _, _, [] => []
  | _, skip + 1, c :: rest => tokensFrom p (some c) skip rest
  | last, 0, c :: rest => match p.matchAt last (c :: rest) with
    | some e => .hit e.1 e.2 :: tokensFrom p (some c) (e.1.length - 1) rest
    | none => .char c :: tokensFrom p (some c) 0 rest

/-- Scan a text from its beginning. -/
def tokens (p : Pattern α) (text : List α) : List (Token α) :=
  p.tokensFrom none 0 text

/-- A piece with its match replaced. -/
def replaceToken (f : List α → List (List α) → List α) : Token α → List α
  | .char c => [c]
  | .hit taken groups => f taken groups

/-- Replace every match. -/
def replace (p : Pattern α) (f : List α → List (List α) → List α) (text : List α) : List α :=
  (p.tokens text).flatMap (replaceToken f)

/-- Replace every match, unless a replacement fails. -/
def replaceTokens? (f : List (List α) → Option (List α)) : List (Token α) → Option (List α)
  | [] => some []
  | .char c :: ts => (replaceTokens? f ts).map (c :: ·)
  | .hit _ groups :: ts =>
      (f groups).bind fun text => (replaceTokens? f ts).map (text ++ ·)

/-- Replace every match by what is made of its groups. -/
def replace? (p : Pattern α) (f : List (List α) → Option (List α)) (text : List α) :
    Option (List α) :=
  replaceTokens? f (p.tokens text)

/-- The groups of every match. -/
def findAll (p : Pattern α) (text : List α) : List (List (List α)) :=
  (p.tokens text).filterMap fun
    | .hit _ groups => some groups
    | .char _ => none

end Pattern

/-! ## Matches -/

section Members

variable {p q : Pattern α} {last : Option α} {text : List α} {groups : List (List α)}
  {ok : α → Bool} {e : Match α}

theorem mem_ends_lit {word : List α} (h : e ∈ (Pattern.lit word).ends last text groups) :
    word <+: text ∧ e = (word, groups) := by
  rw [Pattern.ends_lit] at h
  split at h
  · rename_i hword
    exact ⟨List.isPrefixOf_iff_prefix.mp hword, List.mem_singleton.mp h⟩
  · cases h

theorem mem_ends_one (h : e ∈ (Pattern.one ok).ends last text groups) :
    ∃ c rest, text = c :: rest ∧ ok c = true ∧ e = ([c], groups) := by
  cases text with
  | nil => cases h
  | cons c rest =>
      rw [Pattern.ends_one_cons] at h
      split at h
      · rename_i hc
        exact ⟨c, rest, rfl, hc, List.mem_singleton.mp h⟩
      · cases h

theorem mem_ends_many (h : e ∈ (Pattern.many ok).ends last text groups) :
    e.1 <+: text.takeWhile ok ∧ e.2 = groups := by
  rw [Pattern.ends_many] at h
  rcases List.mem_map.mp h with ⟨taken, htaken, rfl⟩
  exact ⟨(List.mem_inits _ _).mp (List.mem_reverse.mp htaken), rfl⟩

theorem mem_ends_seq : e ∈ (p.seq q).ends last text groups ↔ ∃ e₁ ∈ p.ends last text groups,
    ∃ e₂ ∈ q.ends (lastOf last e₁.1) (text.drop e₁.1.length) e₁.2,
      e = (e₁.1 ++ e₂.1, e₂.2) := by
  rw [Pattern.ends_seq]
  simp only [List.mem_flatMap, List.mem_map]
  constructor
  · rintro ⟨e₁, h₁, e₂, h₂, rfl⟩
    exact ⟨e₁, h₁, e₂, h₂, rfl⟩
  · rintro ⟨e₁, h₁, e₂, h₂, rfl⟩
    exact ⟨e₁, h₁, e₂, h₂, rfl⟩

theorem mem_ends_opt (h : e ∈ p.opt.ends last text groups) :
    e ∈ p.ends last text groups ∨ e = ([], groups) :=
  (List.mem_append.mp h).imp_right List.mem_singleton.mp

theorem mem_ends_group (h : e ∈ p.group.ends last text groups) :
    ∃ e' ∈ p.ends last text groups, e = (e'.1, e'.2 ++ [e'.1]) := by
  rcases List.mem_map.mp h with ⟨e', he', rfl⟩
  exact ⟨e', he', rfl⟩

theorem mem_ends_again {n : Nat} (h : e ∈ (Pattern.again n).ends last text groups) :
    e.1 <+: text ∧ groups[n]? = some e.1 ∧ e.2 = groups := by
  rw [Pattern.ends_again] at h
  split at h
  · rename_i g hg
    split at h
    · rename_i hword
      rw [List.mem_singleton.mp h]
      exact ⟨List.isPrefixOf_iff_prefix.mp hword, hg, rfl⟩
    · cases h
  · cases h

theorem mem_ends_notAfter (h : e ∈ (Pattern.notAfter ok).ends last text groups) :
    e = ([], groups) := by
  rw [Pattern.ends_notAfter] at h
  split at h
  · cases h
  · exact List.mem_singleton.mp h

/-- A stretch of a class consists of its characters. -/
theorem ok_of_mem_ends_many (h : e ∈ (Pattern.many ok).ends last text groups) :
    ∀ c ∈ e.1, ok c = true := fun c hc =>
  List.all_eq_true.mp List.all_takeWhile c ((mem_ends_many h).1.subset hc)

theorem mem_ends_many1 (h : e ∈ (Pattern.many1 ok).ends last text groups) :
    e.1 ≠ [] ∧ (∀ c ∈ e.1, ok c = true) ∧ e.2 = groups := by
  rcases mem_ends_seq.mp h with ⟨e₁, h₁, e₂, h₂, rfl⟩
  rcases mem_ends_one h₁ with ⟨c, rest, -, hc, rfl⟩
  refine ⟨List.cons_ne_nil _ _, fun d hd => ?_, (mem_ends_many h₂).2⟩
  rcases List.mem_append.mp hd with hd | hd
  · rw [List.mem_singleton.mp hd]
    exact hc
  · exact ok_of_mem_ends_many h₂ d hd

end Members

/-- A pattern matches the beginning of the text. -/
theorem isPrefix_of_mem_ends {p : Pattern α} {last : Option α} {text : List α}
    {groups : List (List α)} {e : Match α} (h : e ∈ p.ends last text groups) : e.1 <+: text := by
  induction p generalizing last text groups e with
  | lit word =>
      rcases mem_ends_lit h with ⟨hword, rfl⟩
      exact hword
  | one ok =>
      rcases mem_ends_one h with ⟨c, rest, rfl, -, rfl⟩
      exact ⟨rest, rfl⟩
  | many ok => exact (mem_ends_many h).1.trans (List.takeWhile_prefix ok)
  | seq p q ihp ihq =>
      rcases mem_ends_seq.mp h with ⟨e₁, h₁, e₂, h₂, rfl⟩
      rcases ihp h₁ with ⟨rest, rfl⟩
      have h₂' := ihq h₂
      rw [List.drop_left] at h₂'
      exact List.prefix_append_right_inj e₁.1 |>.mpr h₂'
  | opt p ih =>
      rcases mem_ends_opt h with h | rfl
      · exact ih h
      · exact List.nil_prefix
  | group p ih =>
      rcases mem_ends_group h with ⟨e', he', rfl⟩
      have hprefix : e'.1 <+: text := ih he'
      exact hprefix
  | again n => exact (mem_ends_again h).1
  | notAfter ok =>
      rw [mem_ends_notAfter h]
      exact List.nil_prefix

theorem mem_ends_of_matchAt {p : Pattern α} {last : Option α} {text : List α} {e : Match α}
    (h : p.matchAt last text = some e) : e ∈ p.ends last text [] ∧ e.1 ≠ [] := by
  rcases Option.filter_eq_some_iff.mp h with ⟨hhead, hne⟩
  exact ⟨List.mem_of_head? hhead, by simpa using hne⟩

/-- A match is not empty and begins the text. -/
theorem split_of_matchAt {p : Pattern α} {last : Option α} {text : List α} {e : Match α}
    (h : p.matchAt last text = some e) : e.1 ≠ [] ∧ ∃ rest, text = e.1 ++ rest := by
  rcases mem_ends_of_matchAt h with ⟨hmem, hne⟩
  rcases isPrefix_of_mem_ends hmem with ⟨rest, hrest⟩
  exact ⟨hne, rest, hrest.symm⟩

theorem matchAt_nil (p : Pattern α) (last : Option α) : p.matchAt last [] = none := by
  cases hmatch : p.matchAt last [] with
  | none => rfl
  | some e =>
      rcases split_of_matchAt hmatch with ⟨hne, rest, hsplit⟩
      exact absurd (List.append_eq_nil_iff.mp hsplit.symm).1 hne

/-! ## The first way to match -/

/-- The way that is tried first. -/
def Leads (p : Pattern α) (last : Option α) (text : List α) (groups : List (List α))
    (e : Match α) : Prop :=
  (p.ends last text groups).head? = some e

section Leads

variable {p q : Pattern α} {last : Option α} {text a b rest : List α}
  {groups groups' groups'' : List (List α)} {ok : α → Bool} {e : Match α}

theorem Leads.matchAt (h : Leads p last text [] e) (hne : e.1 ≠ []) :
    p.matchAt last text = some e := by
  rw [Pattern.matchAt, h]
  exact Option.filter_some_pos (by simpa using hne)

theorem matchAt_eq_none (h : p.ends last text [] = []) : p.matchAt last text = none := by
  rw [Pattern.matchAt, h]
  rfl

theorem leads_lit (word : List α) : Leads (.lit word) last (word ++ rest) groups (word, groups) := by
  have hprefix : word.isPrefixOf (word ++ rest) = true :=
    List.isPrefixOf_iff_prefix.mpr (List.prefix_append word rest)
  rw [Leads, Pattern.ends_lit, if_pos hprefix]
  rfl

theorem leads_one {c : α} (hc : ok c = true) :
    Leads (.one ok) last (c :: rest) groups ([c], groups) := by
  rw [Leads, Pattern.ends_one_cons, if_pos hc]
  rfl

/-- A stretch of a class up to its end. -/
theorem leads_many (ha : ∀ c ∈ a, ok c = true) (hrest : ∀ c ∈ rest.head?, ok c = false) :
    Leads (.many ok) last (a ++ rest) groups (a, groups) := by
  have htake : (a ++ rest).takeWhile ok = a := by
    rw [List.takeWhile_append_of_pos ha]
    cases rest with
    | nil => simp
    | cons c rest => simp [hrest c rfl]
  rw [Leads, Pattern.ends_many, htake, List.head?_map, List.head?_reverse, getLast?_inits]
  rfl

/-- A sequence is tried with the first way of its first part. -/
theorem Leads.seq (hp : Leads p last (a ++ rest) groups (a, groups'))
    (hq : Leads q (lastOf last a) rest groups' (b, groups'')) :
    Leads (p.seq q) last (a ++ rest) groups (a ++ b, groups'') := by
  rw [Leads] at hp hq ⊢
  rcases List.head?_eq_some_iff.mp hp with ⟨more, hmore⟩
  rcases List.head?_eq_some_iff.mp hq with ⟨more', hmore'⟩
  rw [Pattern.ends_seq, hmore, List.flatMap_cons, List.drop_left, hmore']
  rfl

theorem leads_many1 (hne : a ≠ []) (ha : ∀ c ∈ a, ok c = true)
    (hrest : ∀ c ∈ rest.head?, ok c = false) :
    Leads (.many1 ok) last (a ++ rest) groups (a, groups) := by
  cases a with
  | nil => exact absurd rfl hne
  | cons c a =>
      have hfirst : Leads (.one ok) last ([c] ++ (a ++ rest)) groups ([c], groups) :=
        leads_one (ha c List.mem_cons_self)
      exact hfirst.seq (leads_many (fun d hd => ha d (List.mem_cons_of_mem c hd)) hrest)

theorem Leads.opt (hp : Leads p last text groups e) : Leads p.opt last text groups e := by
  rcases List.head?_eq_some_iff.mp hp with ⟨more, hmore⟩
  rw [Leads, Pattern.ends_opt, hmore]
  rfl

theorem leads_opt_of_ends_eq_nil (hp : p.ends last text groups = []) :
    Leads p.opt last text groups ([], groups) := by
  rw [Leads, Pattern.ends_opt, hp]
  rfl

theorem Leads.group (hp : Leads p last text groups (a, groups')) :
    Leads p.group last text groups (a, groups' ++ [a]) := by
  rw [Leads] at hp
  rw [Leads, Pattern.ends_group, List.head?_map, hp]
  rfl

theorem leads_again {n : Nat} (hgroup : groups[n]? = some a) :
    Leads (.again n) last (a ++ rest) groups (a, groups) := by
  have hprefix : a.isPrefixOf (a ++ rest) = true :=
    List.isPrefixOf_iff_prefix.mpr (List.prefix_append a rest)
  rw [Leads, Pattern.ends_again, hgroup]
  simp only [if_pos hprefix, List.head?_cons]

theorem leads_notAfter (hlast : last.any ok = false) :
    Leads (.notAfter ok) last text groups ([], groups) := by
  rw [Leads, Pattern.ends_notAfter, hlast]
  rfl

/-! ## No way to match -/

theorem ends_seq_eq_nil (hp : p.ends last text groups = []) :
    (p.seq q).ends last text groups = [] := by
  rw [Pattern.ends_seq, hp]
  rfl

theorem ends_lit_eq_nil {word : List α} (h : ¬word <+: text) :
    (Pattern.lit word).ends last text groups = [] := by
  rw [Pattern.ends_lit, if_neg (by simpa using h)]

theorem ends_one_eq_nil (h : ∀ c ∈ text.head?, ok c = false) :
    (Pattern.one ok).ends last text groups = [] := by
  cases text with
  | nil => rfl
  | cons c text => simp [Pattern.ends_one_cons, h c rfl]

theorem ends_notAfter_eq_nil (hlast : last.any ok = true) :
    (Pattern.notAfter ok).ends last text groups = [] := by
  rw [Pattern.ends_notAfter, if_pos hlast]

/-- The first part of a sequence matches in one way and the second in none. -/
theorem ends_seq_eq_nil_of_right (hp : p.ends last (a ++ rest) groups = [(a, groups')])
    (hq : q.ends (lastOf last a) rest groups' = []) :
    (p.seq q).ends last (a ++ rest) groups = [] := by
  simp [Pattern.ends_seq, hp, hq]

end Leads

/-! ## Scans -/

/-- The rules of scanning. -/
inductive Scans (p : Pattern α) : Option α → List α → List (Token α) → Prop
  | nil (last : Option α) : Scans p last [] []
  | char {last : Option α} {c : α} {rest : List α} {ts : List (Token α)}
      (hnone : p.matchAt last (c :: rest) = none) (htail : Scans p (some c) rest ts) :
      Scans p last (c :: rest) (.char c :: ts)
  | hit {last : Option α} {taken rest : List α} {groups : List (List α)} {ts : List (Token α)}
      (hmatch : p.matchAt last (taken ++ rest) = some (taken, groups))
      (htail : Scans p (lastOf last taken) rest ts) :
      Scans p last (taken ++ rest) (.hit taken groups :: ts)

/-- What was matched is skipped. -/
theorem tokensFrom_skip (p : Pattern α) (last : Option α) (read rest : List α) :
    p.tokensFrom last read.length (read ++ rest) = p.tokensFrom (lastOf last read) 0 rest := by
  induction read generalizing last with
  | nil => rfl
  | cons c read ih => exact ih (some c)

theorem tokensFrom_hit {p : Pattern α} {last : Option α} {taken rest : List α}
    {groups : List (List α)} (h : p.matchAt last (taken ++ rest) = some (taken, groups)) :
    p.tokensFrom last 0 (taken ++ rest) =
      .hit taken groups :: p.tokensFrom (lastOf last taken) 0 rest := by
  cases taken with
  | nil => exact absurd rfl (split_of_matchAt h).1
  | cons c taken =>
      rw [List.cons_append] at h ⊢
      rw [Pattern.tokensFrom, h]
      exact congrArg _ (tokensFrom_skip p (some c) taken rest)

theorem tokensFrom_char {p : Pattern α} {last : Option α} {c : α} {rest : List α}
    (h : p.matchAt last (c :: rest) = none) :
    p.tokensFrom last 0 (c :: rest) = .char c :: p.tokensFrom (some c) 0 rest := by
  rw [Pattern.tokensFrom, h]

/-- A scan follows the rules. -/
theorem scans_tokensFrom (p : Pattern α) (last : Option α) (text : List α) :
    Scans p last text (p.tokensFrom last 0 text) := by
  induction hlength : text.length using Nat.strong_induction_on generalizing last text with
  | _ n ih =>
      cases text with
      | nil => exact Scans.nil last
      | cons c rest =>
          cases hmatch : p.matchAt last (c :: rest) with
          | none =>
              rw [tokensFrom_char hmatch]
              exact Scans.char hmatch (ih _ (by simp [← hlength]) _ _ rfl)
          | some e =>
              rcases e with ⟨taken, groups⟩
              rcases split_of_matchAt hmatch with ⟨hne, left, hsplit⟩
              rw [hsplit] at hmatch hlength ⊢
              have hpos := List.length_pos_iff.mpr hne
              rw [List.length_append] at hlength
              rw [tokensFrom_hit hmatch]
              exact Scans.hit hmatch (ih _ (by omega) _ _ rfl)

/-- The rules determine the scan. -/
theorem Scans.eq_tokensFrom {p : Pattern α} {last : Option α} {text : List α}
    {ts : List (Token α)} (h : Scans p last text ts) : ts = p.tokensFrom last 0 text := by
  induction h with
  | nil last => rfl
  | char hnone _ ih => rw [tokensFrom_char hnone, ih]
  | hit hmatch _ ih => rw [tokensFrom_hit hmatch, ih]

theorem scans_tokens (p : Pattern α) (text : List α) : Scans p none text (p.tokens text) :=
  scans_tokensFrom p none text

theorem Scans.eq_tokens {p : Pattern α} {text : List α} {ts : List (Token α)}
    (h : Scans p none text ts) : ts = p.tokens text :=
  h.eq_tokensFrom

/-- The pieces make up the text. -/
theorem Scans.flatMap_text {p : Pattern α} {last : Option α} {text : List α}
    {ts : List (Token α)} (h : Scans p last text ts) : ts.flatMap Token.text = text := by
  induction h with
  | nil last => rfl
  | char _ _ ih => rw [List.flatMap_cons, ih]; rfl
  | hit _ _ ih => rw [List.flatMap_cons, ih]; rfl

/-- A hit is a way to match. -/
theorem Scans.mem_ends {p : Pattern α} {last : Option α} {text : List α} {ts : List (Token α)}
    (h : Scans p last text ts) {taken : List α} {groups : List (List α)}
    (hmem : .hit taken groups ∈ ts) :
    ∃ last text, (taken, groups) ∈ p.ends last text [] := by
  induction h with
  | nil last => cases hmem
  | char _ _ ih =>
      rcases List.mem_cons.mp hmem with heq | hmem
      · cases heq
      · exact ih hmem
  | hit hmatch _ ih =>
      rcases List.mem_cons.mp hmem with heq | hmem
      · cases heq
        exact ⟨_, _, (mem_ends_of_matchAt hmatch).1⟩
      · exact ih hmem

/-- A stretch of text within which nothing matches. -/
theorem Scans.plain {p : Pattern α} {last : Option α} {a rest : List α} {ts : List (Token α)}
    (hnone : ∀ before c after, a = before ++ c :: after →
      p.matchAt (lastOf last before) (c :: (after ++ rest)) = none)
    (htail : Scans p (lastOf last a) rest ts) :
    Scans p last (a ++ rest) (a.map Token.char ++ ts) := by
  induction a generalizing last with
  | nil => exact htail
  | cons c a ih =>
      refine Scans.char (hnone [] c a rfl) (ih (fun before d after hsplit => ?_) htail)
      exact hnone (c :: before) d after (by rw [hsplit]; rfl)

/-! ## Line by line -/

/-- No match contains the character, and coming after it is like coming after nothing. -/
def Pattern.Avoids (c : α) : Pattern α → Prop
  | .lit word => c ∉ word
  | .one ok | .many ok | .notAfter ok => ok c = false
  | .seq p q => p.Avoids c ∧ q.Avoids c
  | .opt p | .group p => p.Avoids c
  | .again _ => True

section Avoids

variable {p : Pattern α} {c : α} {last : Option α} {text a b : List α} {groups : List (List α)}

theorem not_mem_of_mem_ends (hp : p.Avoids c) {e : Match α} (he : e ∈ p.ends last text groups)
    (hgroups : ∀ g ∈ groups, c ∉ g) : c ∉ e.1 ∧ ∀ g ∈ e.2, c ∉ g := by
  induction p generalizing last text groups e with
  | lit word =>
      rw [(mem_ends_lit he).2]
      exact ⟨hp, hgroups⟩
  | one ok =>
      rcases mem_ends_one he with ⟨d, rest, -, hd, rfl⟩
      refine ⟨fun hc => ?_, hgroups⟩
      rw [List.mem_singleton.mp hc] at hp
      exact absurd (hd.symm.trans hp) (by decide)
  | many ok =>
      refine ⟨fun hc => ?_, by rwa [(mem_ends_many he).2]⟩
      exact absurd ((ok_of_mem_ends_many he c hc).symm.trans hp) (by decide)
  | seq p q ihp ihq =>
      rcases mem_ends_seq.mp he with ⟨e₁, h₁, e₂, h₂, rfl⟩
      have hfirst := ihp hp.1 h₁ hgroups
      have hsecond := ihq hp.2 h₂ hfirst.2
      exact ⟨by simp [hfirst.1, hsecond.1], hsecond.2⟩
  | opt p ih =>
      rcases mem_ends_opt he with he | rfl
      · exact ih hp he hgroups
      · exact ⟨by simp, hgroups⟩
  | group p ih =>
      rcases mem_ends_group he with ⟨e', he', rfl⟩
      have hin := ih hp he' hgroups
      refine ⟨hin.1, fun g hg => ?_⟩
      rcases List.mem_append.mp hg with hg | hg
      · exact hin.2 g hg
      · rw [List.mem_singleton.mp hg]
        exact hin.1
  | again n =>
      rcases mem_ends_again he with ⟨-, hg, hsame⟩
      exact ⟨hgroups e.1 (List.mem_of_getElem? hg), by rwa [hsame]⟩
  | notAfter ok =>
      rw [mem_ends_notAfter he]
      exact ⟨by simp, hgroups⟩

theorem isPrefixOf_append_cons {word : List α} (hword : c ∉ word) (a b : List α) :
    word.isPrefixOf (a ++ c :: b) = word.isPrefixOf a := by
  induction word generalizing a with
  | nil => simp
  | cons d word ih =>
      rw [List.mem_cons, not_or] at hword
      cases a with
      | nil => simp [List.isPrefixOf, Ne.symm hword.1]
      | cons e a => simp [List.isPrefixOf, ih hword.2]

/-- What follows the character has no part in a match before it. -/
theorem ends_append_of_avoids (hp : p.Avoids c) (hgroups : ∀ g ∈ groups, c ∉ g) :
    p.ends last (a ++ c :: b) groups = p.ends last a groups := by
  induction p generalizing last a groups with
  | lit word => rw [Pattern.ends_lit, Pattern.ends_lit, isPrefixOf_append_cons hp]
  | one ok =>
      have hc : ok c = false := hp
      cases a with
      | nil => exact if_neg (by simp [hc])
      | cons d a => rfl
  | many ok =>
      have hc : ok c = false := hp
      rw [Pattern.ends_many, Pattern.ends_many, takeWhile_append_cons hc]
  | seq p q ihp ihq =>
      rw [Pattern.ends_seq, Pattern.ends_seq, ihp hp.1 hgroups]
      refine List.flatMap_congr fun e he => ?_
      have hlength := (isPrefix_of_mem_ends he).length_le
      rw [List.drop_append_of_le_length hlength,
        ihq hp.2 (not_mem_of_mem_ends hp.1 he hgroups).2]
  | opt p ih => rw [Pattern.ends_opt, Pattern.ends_opt, ih hp hgroups]
  | group p ih => rw [Pattern.ends_group, Pattern.ends_group, ih hp hgroups]
  | again n =>
      rw [Pattern.ends_again, Pattern.ends_again]
      cases hg : groups[n]? with
      | none => rfl
      | some g =>
          simp only [isPrefixOf_append_cons (hgroups g (List.mem_of_getElem? hg))]
  | notAfter ok => rfl

/-- After the character a pattern matches as at the beginning of a text. -/
theorem ends_some_of_avoids (hp : p.Avoids c) (text : List α) (groups : List (List α)) :
    p.ends (some c) text groups = p.ends none text groups := by
  induction p generalizing text groups with
  | seq p q ihp ihq =>
      rw [Pattern.ends_seq, Pattern.ends_seq, ihp hp.1]
      refine List.flatMap_congr fun e _ => ?_
      by_cases hempty : e.1 = []
      · rw [hempty, lastOf_nil, lastOf_nil, ihq hp.2]
      · rw [lastOf_of_ne_nil hempty (some c) none]
  | opt p ih => rw [Pattern.ends_opt, Pattern.ends_opt, ih hp]
  | group p ih => rw [Pattern.ends_group, Pattern.ends_group, ih hp]
  | notAfter ok =>
      have hc : ok c = false := hp
      simp [Pattern.ends_notAfter, hc]
  | lit word => rfl
  | one ok => cases text <;> rfl
  | many ok => rfl
  | again n => rfl

/-- A scan may start after the character. -/
theorem Scans.of_avoids (hp : p.Avoids c) {ts : List (Token α)} (h : Scans p none b ts) :
    Scans p (some c) b ts := by
  have hsame : ∀ text, p.matchAt (some c) text = p.matchAt none text := by
    intro text
    rw [Pattern.matchAt, Pattern.matchAt, ends_some_of_avoids hp]
  cases h with
  | nil => exact Scans.nil _
  | char hnone htail => exact Scans.char ((hsame _).trans hnone) htail
  | hit hmatch htail =>
      refine Scans.hit ((hsame _).trans hmatch) ?_
      rwa [lastOf_of_ne_nil (split_of_matchAt hmatch).1 (some c) none]

theorem Scans.append_of_avoids (hp : p.Avoids c) {ts ts' : List (Token α)}
    (h : Scans p last a ts) (h' : Scans p none b ts') :
    Scans p last (a ++ c :: b) (ts ++ .char c :: ts') := by
  have hsame : ∀ last a, p.matchAt last (a ++ c :: b) = p.matchAt last a := by
    intro last a
    rw [Pattern.matchAt, Pattern.matchAt, ends_append_of_avoids hp (by simp)]
  induction h with
  | nil last => exact Scans.char ((hsame last []).trans (matchAt_nil p last)) (h'.of_avoids hp)
  | @char last d rest ts hnone _ ih => exact Scans.char ((hsame last (d :: rest)).trans hnone) ih
  | @hit last taken rest groups ts hmatch _ ih =>
      rw [List.append_assoc]
      refine Scans.hit ?_ ih
      rw [← List.append_assoc, hsame]
      exact hmatch

/-- A text is scanned line by line. -/
theorem tokens_append_of_avoids (hp : p.Avoids c) (a b : List α) :
    p.tokens (a ++ c :: b) = p.tokens a ++ .char c :: p.tokens b :=
  ((scans_tokens p a).append_of_avoids hp (scans_tokens p b)).eq_tokens.symm

end Avoids

end Patterns