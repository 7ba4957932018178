import CairnQ.Protocol.Placeholders
import CairnQ.Transition.Memo
import Mathlib.Data.Finset.Basic

/-!
# Specialized texts

A statement skips an optional filter whose parameter is null.  `specialize` rewrites each filter
the caller supplied to an equality, by a pattern with a back-reference, and keeps the texts it
has made: Python under the statement and the set of supplied names, Node under one string of
both.

Main results:

- Theorem `groups_of_hit`: what the pattern finds has a name and a column.
- Theorem `specialize_fst`: whatever was asked before, a call gets the text with its own filters
  rewritten.
-/

namespace CairnQ

open Patterns Transition

variable {sdk : Sdk}

/-! ## The rewrite -/

/-- `OPTIONAL_FILTER`. -/
def CharClasses.optionalFilter (classes : CharClasses sdk) : Pattern Char :=
  .seq (.lit ['(', ':']) <| .seq (.group (.many1 classes.word)) <|
    .seq (.opt (.seq (.lit [':', ':'])
      (.many1 fun c => classes.word c || decide (c = '[') || decide (c = ']')))) <|
    .seq (.lit " is null or ".toList) <| .seq (.group (.many1 fun c => !classes.space c)) <|
    .seq (.lit " = :".toList) <| .seq (.again 0) (.lit [')'])

/-- An equality in place of an active filter. -/
def rewriteFilter (active : SqlText → Bool) (taken : SqlText) (groups : List SqlText) : SqlText :=
  match groups with
  | [name, column] => if active name then column ++ (" = :".toList ++ name) else taken
  | _ => taken

/-- `OPTIONAL_FILTER.sub`. -/
def CharClasses.rewrite (classes : CharClasses sdk) (active : SqlText → Bool) (sql : SqlText) :
    SqlText :=
  classes.optionalFilter.replace (rewriteFilter active) sql

/-- The names of the filters of a text that are supplied. -/
def CharClasses.activeNames (classes : CharClasses sdk) (supplied : SqlText → Bool)
    (sql : SqlText) : List SqlText :=
  ((classes.optionalFilter.findAll sql).map fun groups => groups.headD []).filter supplied

/-! ## The caches -/

/-- A statement, and which parameters are not null. -/
abbrev SpecializeCall := SqlText × (SqlText → Bool)

/-- What a text is kept under. -/
def CacheKey : Sdk → Type
  | .python => SqlText × Finset SqlText
  | .node => SqlText

instance decidableEqCacheKey : (sdk : Sdk) → DecidableEq (CacheKey sdk)
  | .python => inferInstanceAs (DecidableEq (SqlText × Finset SqlText))
  | .node => inferInstanceAs (DecidableEq SqlText)

/-- The key of a call. -/
def cacheKey : {sdk : Sdk} → CharClasses sdk → SpecializeCall → CacheKey sdk
  | .python, classes, call => (call.1, (classes.activeNames call.2 call.1).toFinset)
  | .node, classes, call =>
      ((classes.activeNames call.2 call.1).flatMap fun name => name ++ [',']) ++
        Char.ofNat 0 :: call.1

/-- The text that is made for a call. -/
def specialized : {sdk : Sdk} → CharClasses sdk → SpecializeCall → SqlText
  | .python, classes, call =>
      classes.rewrite (fun name => decide (name ∈ (classes.activeNames call.2 call.1).toFinset))
        call.1
  | .node, classes, call => classes.rewrite call.2 call.1

/-- The texts made so far. -/
abbrev SpecializeCache (classes : CharClasses sdk) :=
  Memo (cacheKey classes) (specialized classes)

/-- `specialize`. -/
def specialize (classes : CharClasses sdk) (cache : SpecializeCache classes)
    (call : SpecializeCall) : SqlText × SpecializeCache classes :=
  if classes.activeNames call.2 call.1 = [] then (call.1, cache) else cache.ask call

/-- The cache after some calls. -/
def cacheAfter (classes : CharClasses sdk) (calls : List SpecializeCall) :
    SpecializeCache classes :=
  calls.foldl (fun cache call => (specialize classes cache call).2) Memo.empty

/-! ## What the pattern finds -/

/-- A filter has a name of word characters and a column. -/
theorem groups_of_mem_ends (classes : CharClasses sdk) {last : Option Char} {text : SqlText}
    {e : Match Char} (h : e ∈ classes.optionalFilter.ends last text []) :
    ∃ name column, e.2 = [name, column] ∧ name ≠ [] ∧ ∀ c ∈ name, classes.word c = true := by
  rcases mem_ends_seq.mp h with ⟨e₁, h₁, f₁, hf₁, rfl⟩
  cases (mem_ends_lit h₁).2
  rcases mem_ends_seq.mp hf₁ with ⟨e₂, h₂, f₂, hf₂, rfl⟩
  rcases mem_ends_group h₂ with ⟨e₂', h₂', rfl⟩
  rcases mem_ends_many1 h₂' with ⟨hne, hword, hgroups⟩
  rw [hgroups] at hf₂
  rcases mem_ends_seq.mp hf₂ with ⟨e₃, h₃, f₃, hf₃, rfl⟩
  have hcast : e₃.2 = [] ++ [e₂'.1] := by
    rcases mem_ends_opt h₃ with h₃ | rfl
    · rcases mem_ends_seq.mp h₃ with ⟨e₄, h₄, f₄, hf₄, rfl⟩
      cases (mem_ends_lit h₄).2
      exact (mem_ends_many1 hf₄).2.2
    · rfl
  rw [hcast] at hf₃
  rcases mem_ends_seq.mp hf₃ with ⟨e₄, h₄, f₄, hf₄, rfl⟩
  cases (mem_ends_lit h₄).2
  rcases mem_ends_seq.mp hf₄ with ⟨e₅, h₅, f₅, hf₅, rfl⟩
  rcases mem_ends_group h₅ with ⟨e₅', h₅', rfl⟩
  rw [(mem_ends_many1 h₅').2.2] at hf₅
  rcases mem_ends_seq.mp hf₅ with ⟨e₆, h₆, f₆, hf₆, rfl⟩
  cases (mem_ends_lit h₆).2
  rcases mem_ends_seq.mp hf₆ with ⟨e₇, h₇, f₇, hf₇, rfl⟩
  rw [(mem_ends_again h₇).2.2] at hf₇
  cases (mem_ends_lit hf₇).2
  exact ⟨e₂'.1, e₅'.1, rfl, hne, hword⟩

/-- The groups of every hit. -/
theorem groups_of_hit (classes : CharClasses sdk) {sql taken : SqlText} {groups : List SqlText}
    (h : .hit taken groups ∈ classes.optionalFilter.tokens sql) :
    ∃ name column, groups = [name, column] ∧ name ≠ [] ∧ ∀ c ∈ name, classes.word c = true := by
  rcases (scans_tokens classes.optionalFilter sql).mem_ends h with ⟨last, text, hends⟩
  exact groups_of_mem_ends classes hends

/-- The names of the filters of a text. -/
theorem mem_activeNames (classes : CharClasses sdk) {supplied : SqlText → Bool} {sql name : SqlText} :
    name ∈ classes.activeNames supplied sql ↔ supplied name = true ∧
      ∃ taken column, .hit taken [name, column] ∈ classes.optionalFilter.tokens sql := by
  rw [CharClasses.activeNames, List.mem_filter, And.comm, map_headD_findAll, namesOf,
    List.mem_filterMap]
  refine and_congr_right fun _ => ⟨?_, ?_⟩
  · rintro ⟨p, hp, hname⟩
    rcases List.mem_map.mp hp with ⟨t, ht, rfl⟩
    cases t with
    | char c => cases hname
    | hit taken groups =>
        rcases groups_of_hit classes ht with ⟨name', column, rfl, -, -⟩
        cases hname
        exact ⟨taken, column, ht⟩
  · rintro ⟨taken, column, ht⟩
    exact ⟨.name name, List.mem_map.mpr ⟨_, ht, rfl⟩, rfl⟩

/-- Only the names of filters count. -/
theorem rewrite_congr (classes : CharClasses sdk) {active active' : SqlText → Bool} {sql : SqlText}
    (h : ∀ taken name column, .hit taken [name, column] ∈ classes.optionalFilter.tokens sql →
      active name = active' name) :
    classes.rewrite active sql = classes.rewrite active' sql := by
  refine List.flatMap_congr fun t ht => ?_
  cases t with
  | char c => rfl
  | hit taken groups =>
      rcases groups_of_hit classes ht with ⟨name, column, rfl, -, -⟩
      simp only [Pattern.replaceToken, rewriteFilter, h taken name column ht]

/-- Without an active filter nothing is rewritten. -/
theorem rewrite_of_activeNames_eq_nil (classes : CharClasses sdk) {supplied : SqlText → Bool}
    {sql : SqlText} (h : classes.activeNames supplied sql = []) :
    classes.rewrite supplied sql = sql := by
  have hnone : ∀ taken name column,
      .hit taken [name, column] ∈ classes.optionalFilter.tokens sql → supplied name = false := by
    intro taken name column ht
    refine Bool.eq_false_iff.mpr fun hsupplied => ?_
    have hmem := (mem_activeNames classes).mpr ⟨hsupplied, taken, column, ht⟩
    rw [h] at hmem
    cases hmem
  have htext : classes.rewrite supplied sql =
      (classes.optionalFilter.tokens sql).flatMap Token.text := by
    refine List.flatMap_congr fun t ht => ?_
    cases t with
    | char c => rfl
    | hit taken groups =>
        rcases groups_of_hit classes ht with ⟨name, column, rfl, -, -⟩
        simp [Pattern.replaceToken, rewriteFilter, hnone taken name column ht, Token.text]
  rw [htext, (scans_tokens classes.optionalFilter sql).flatMap_text]

/-! ## The caches are sound -/

/-- The text that is made rewrites the supplied filters. -/
theorem specialized_eq : {sdk : Sdk} → (classes : CharClasses sdk) → (call : SpecializeCall) →
    specialized classes call = classes.rewrite call.2 call.1
  | .python, classes, call => by
      refine rewrite_congr classes fun taken name column ht => ?_
      have hmem : name ∈ (classes.activeNames call.2 call.1).toFinset ↔ call.2 name = true := by
        rw [List.mem_toFinset, mem_activeNames]
        exact and_iff_left ⟨taken, column, ht⟩
      rw [Bool.eq_iff_iff, decide_eq_true_iff, hmem]
  | .node, _, _ => rfl

/-- A text is cut at the first separator. -/
theorem cut_injective {c : Char} {a a' b b' : SqlText} (ha : c ∉ a) (ha' : c ∉ a')
    (heq : a ++ c :: b = a' ++ c :: b') : a = a' ∧ b = b' := by
  induction a generalizing a' with
  | nil =>
      cases a' with
      | nil => exact ⟨rfl, (List.cons.inj heq).2⟩
      | cons d a' => exact absurd (List.cons.inj heq).1 (List.ne_of_not_mem_cons ha')
  | cons d a ih =>
      cases a' with
      | nil => exact absurd (List.cons.inj heq).1.symm (List.ne_of_not_mem_cons ha)
      | cons d' a' =>
          rcases List.cons.inj heq with ⟨rfl, htail⟩
          rcases ih (List.not_mem_of_not_mem_cons ha) (List.not_mem_of_not_mem_cons ha') htail with
            ⟨rfl, rfl⟩
          exact ⟨rfl, rfl⟩

/-- Names that are separated are told apart. -/
theorem separated_injective {names names' : List SqlText}
    (h : ∀ n ∈ names, ',' ∉ n) (h' : ∀ n ∈ names', ',' ∉ n)
    (heq : (names.flatMap fun n => n ++ [',']) = names'.flatMap fun n => n ++ [',']) :
    names = names' := by
  induction names generalizing names' with
  | nil =>
      cases names' with
      | nil => rfl
      | cons n' names' => simp at heq
  | cons n names ih =>
      cases names' with
      | nil => simp at heq
      | cons n' names' =>
          rw [List.forall_mem_cons] at h h'
          simp only [List.flatMap_cons, List.append_assoc, List.singleton_append] at heq
          rcases cut_injective h.1 h'.1 heq with ⟨rfl, hrest⟩
          rw [ih h.2 h'.2 hrest]

/-- The names of active filters consist of word characters. -/
theorem not_mem_activeName (classes : CharClasses sdk) {supplied : SqlText → Bool} {sql : SqlText}
    {name : SqlText} {c : Char} (hc : classes.word c = false)
    (h : name ∈ classes.activeNames supplied sql) : c ∉ name := by
  rcases ((mem_activeNames classes).mp h).2 with ⟨taken, column, ht⟩
  rcases groups_of_hit classes ht with ⟨name', column', hgroups, -, hword⟩
  cases hgroups
  intro hmem
  rw [hword c hmem] at hc
  cases hc

theorem CharClasses.word_eq_false (classes : CharClasses sdk) {c : Char} (hascii : c.toNat < 128)
    (hc : asciiWord c = false) : classes.word c = false :=
  (classes.word_ascii c hascii).trans hc

/-- Calls under one key get one text. -/
theorem specialized_eq_of_cacheKey_eq : {sdk : Sdk} → (classes : CharClasses sdk) →
    (call call' : SpecializeCall) → cacheKey classes call = cacheKey classes call' →
    specialized classes call = specialized classes call'
  | .python, classes, call, call', hkey => by
      rcases Prod.mk.inj hkey with ⟨hsql, hactive⟩
      rw [specialized, specialized, hactive, hsql]
  | .node, classes, call, call', hkey => by
      have hcomma : classes.word ',' = false := classes.word_eq_false (by decide) (by decide)
      have hnull : classes.word (Char.ofNat 0) = false :=
        classes.word_eq_false (by decide) (by decide)
      have hfree : ∀ call : SpecializeCall, Char.ofNat 0 ∉
          (classes.activeNames call.2 call.1).flatMap fun name => name ++ [','] := by
        intro call hmem
        rcases List.mem_flatMap.mp hmem with ⟨name, hname, hin⟩
        rcases List.mem_append.mp hin with hin | hin
        · exact not_mem_activeName classes hnull hname hin
        · exact absurd (List.mem_singleton.mp hin) (by decide)
      rcases cut_injective (hfree call) (hfree call') hkey with ⟨hnames, hsql⟩
      have hactive := separated_injective (fun n hn => not_mem_activeName classes hcomma hn)
        (fun n hn => not_mem_activeName classes hcomma hn) hnames
      rw [specialized, specialized, hsql]
      refine rewrite_congr classes fun taken name column ht => ?_
      have hmem : ∀ supplied, name ∈ classes.activeNames supplied call'.1 ↔ supplied name = true :=
        fun supplied => by
          rw [mem_activeNames]
          exact and_iff_left ⟨taken, column, ht⟩
      rw [hsql] at hactive
      rw [Bool.eq_iff_iff, ← hmem, ← hmem, hactive]

/-- Whatever was asked before, a call gets the text with its own filters rewritten. -/
theorem specialize_fst (classes : CharClasses sdk) (cache : SpecializeCache classes)
    (call : SpecializeCall) :
    (specialize classes cache call).1 = classes.rewrite call.2 call.1 := by
  rw [specialize]
  split
  · rename_i hnone
    exact (rewrite_of_activeNames_eq_nil classes hnone).symm
  · rw [Memo.ask_fst (specialized_eq_of_cacheKey_eq classes), specialized_eq]

end CairnQ
