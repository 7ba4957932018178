import CairnQ.Patterns.Scan
import CairnQ.Protocol.Execution

/-!
# Placeholders

Statements name their parameters, `:name`; Postgres numbers them, `$1`.  Both SDKs find the
names with two patterns, one that strips comments and one that spares `::type` casts, and
replace each by the number of its slot.

What a comment and a placeholder are is said apart from the patterns, by two readers that go
through the text one character at a time.

Main results:

- Theorem `replace_comment`: stripping comments leaves what is outside of them.
- Theorem `pieces_of_scans`: the pattern finds the placeholders of the reader.
- Theorem `positional_faithful`: filling the slots of the translation gives what filling the
  names of the statement gives, with one slot for each name, and both SDKs agree.
-/

namespace CairnQ

open Patterns

/-- The text of a statement. -/
abbrev SqlText := List Char

/-! ## Reading a statement -/

/-- A letter, a digit or an underscore. -/
def asciiWord (c : Char) : Bool :=
  c.isAlphanum || decide (c = '_')

/-- The text outside of comments; the flag says whether the reader is in one. -/
def uncommented : Bool → SqlText → SqlText
  | _, [] => []
  | true, c :: rest => if c = '\n' then c :: uncommented false rest else uncommented true rest
  | false, [c] => [c]
  | false, c :: d :: rest =>
      if c = '-' ∧ d = '-' then uncommented true rest else c :: uncommented false (d :: rest)

/-- A character, or a placeholder by its name. -/
inductive Piece
  | char (c : Char)
  | name (n : SqlText)
deriving DecidableEq, Repr

/-- Where a reader of placeholders stands: outside, after a mark or not; at a mark that may
begin a placeholder; in a name. -/
inductive Reading
  | plain (afterMark : Bool)
  | marked
  | name (n : SqlText)
deriving DecidableEq, Repr

/-- The placeholders of a text: a mark that does not follow another, and a name as long as
possible. -/
def pieces (mark : Char) (inName : Char → Bool) : Reading → SqlText → List Piece
  | .plain _, [] => []
  | .marked, [] => [.char mark]
  | .name n, [] => [.name n]
  | .plain afterMark, c :: rest =>
      if c = mark then
        if afterMark then .char c :: pieces mark inName (.plain true) rest
        else pieces mark inName .marked rest
      else .char c :: pieces mark inName (.plain false) rest
  | .marked, c :: rest =>
      if inName c then pieces mark inName (.name [c]) rest
      else .char mark :: .char c :: pieces mark inName (.plain (decide (c = mark))) rest
  | .name n, c :: rest =>
      if inName c then pieces mark inName (.name (n ++ [c])) rest
      else if c = mark then .name n :: pieces mark inName .marked rest
      else .name n :: .char c :: pieces mark inName (.plain false) rest

/-- The pieces with each placeholder replaced by its value. -/
def fill (value : SqlText → Option SqlText) : List Piece → Option SqlText
  | [] => some []
  | .char c :: ps => (fill value ps).map (c :: ·)
  | .name n :: ps => (value n).bind fun v => (fill value ps).map (v ++ ·)

/-- The names among the pieces. -/
def namesOf (ps : List Piece) : List SqlText :=
  ps.filterMap fun
    | .name n => some n
    | .char _ => none

/-- The pieces of a statement with named parameters. -/
def namedPieces (sql : SqlText) : List Piece :=
  pieces ':' asciiWord (.plain false) (uncommented false sql)

/-- The pieces of a statement with numbered parameters. -/
def numberedPieces (sql : SqlText) : List Piece :=
  pieces '$' Char.isDigit (.plain false) sql

/-- The value in the slot of a number, if it is in range. -/
def slotValue (values : List SqlText) (number : SqlText) : Option SqlText :=
  match Nat.ofDigitChars 10 number 0 with
  | 0 => none
  | n + 1 => values[n]?

/-! ## The patterns -/

/-- The white space of ASCII; Python has four separators more. -/
def asciiSpace (sdk : Sdk) (c : Char) : Bool :=
  decide (9 ≤ c.toNat ∧ c.toNat ≤ 13) || decide (c = ' ') ||
    (decide (sdk = .python) && decide (28 ≤ c.toNat ∧ c.toNat ≤ 31))

/-- The classes `\w` and `\s` of an SDK, which differ beyond ASCII. -/
structure CharClasses (sdk : Sdk) where
  word : Char → Bool
  space : Char → Bool
  word_ascii : ∀ c, c.toNat < 128 → word c = asciiWord c
  space_ascii : ∀ c, c.toNat < 128 → space c = asciiSpace sdk c

/-- `COMMENT`. -/
def comment : Pattern Char :=
  .seq (.lit ['-', '-']) (.many fun c => decide (c ≠ '\n'))

/-- A mark that does not follow another, and a name. -/
def placeholder (mark : Char) (inName : Char → Bool) : Pattern Char :=
  .seq (.notAfter fun c => decide (c = mark)) <|
    .seq (.one fun c => decide (c = mark)) (.group (.many1 inName))

variable {sdk : Sdk}

/-- `NAMED`. -/
def CharClasses.named (classes : CharClasses sdk) : Pattern Char :=
  placeholder ':' classes.word

/-- `COMMENT.sub("", sql)`. -/
def stripComments (sql : SqlText) : SqlText :=
  comment.replace (fun _ _ => []) sql

/-- `seen.setdefault(name, None)` for one name after the other. -/
def firstAppearances (names : List SqlText) : List SqlText :=
  names.foldl (fun seen name => if name ∈ seen then seen else seen ++ [name]) []

/-- `statement_params`. -/
def statementParams (classes : CharClasses sdk) (sql : SqlText) : List SqlText :=
  firstAppearances ((classes.named.findAll (stripComments sql)).map fun groups => groups.headD [])

/-- The placeholder of a name: in Python a name without slot raises, in Node it has the slot
`undefined`. -/
def slotText (sdk : Sdk) (order : List SqlText) (name : SqlText) : Option SqlText :=
  match order.idxOf? name with
  | some i => some ('$' :: Nat.toDigits 10 (i + 1))
  | none => match sdk with
    | .python => none
    | .node => some "$undefined".toList

/-- `positional_statement`. -/
def positionalStatement (classes : CharClasses sdk) (sql : SqlText) :
    Option (SqlText × List SqlText) :=
  let order := statementParams classes sql
  (classes.named.replace? (fun groups => slotText sdk order (groups.headD []))
    (stripComments sql)).map fun text => (text, order)

/-- `to_positional`: Python raises for a parameter that is missing, Node binds `undefined`. -/
def toPositional {V : Type} (classes : CharClasses sdk) (sql : SqlText)
    (params : SqlText → Option V) : Option (SqlText × List (Option V)) :=
  (positionalStatement classes sql).bind fun (text, order) =>
    match sdk with
    | .python => (order.mapM params).map fun values => (text, values.map some)
    | .node => some (text, order.map params)

/-! ## Comments -/

/-- In a comment up to its end. -/
theorem uncommented_true_append {a rest : SqlText} (ha : '\n' ∉ a) :
    uncommented true (a ++ rest) = uncommented true rest := by
  induction a with
  | nil => rfl
  | cons c a ih =>
      rw [List.mem_cons, not_or] at ha
      rw [List.cons_append, uncommented, if_neg (Ne.symm ha.1), ih ha.2]

/-- A comment ends with its line. -/
theorem uncommented_true {rest : SqlText} (hrest : ∀ c ∈ rest.head?, c = '\n') :
    uncommented true rest = uncommented false rest := by
  cases rest with
  | nil => rfl
  | cons c rest =>
      rw [hrest c rfl, uncommented, if_pos rfl]
      cases rest <;> simp [uncommented]

theorem uncommented_cons {c : Char} {rest : SqlText} (h : ¬['-', '-'] <+: c :: rest) :
    uncommented false (c :: rest) = c :: uncommented false rest := by
  cases rest with
  | nil => rfl
  | cons d rest =>
      have hnone : ¬(c = '-' ∧ d = '-') := by
        rintro ⟨rfl, rfl⟩
        exact h ⟨rest, rfl⟩
      rw [uncommented, if_neg hnone]

theorem matchAt_comment_none {last : Option Char} {text : SqlText} (h : ¬['-', '-'] <+: text) :
    comment.matchAt last text = none :=
  matchAt_eq_none (ends_seq_eq_nil (ends_lit_eq_nil h))

/-- A comment reaches to the end of its line. -/
theorem matchAt_comment (last : Option Char) {a rest : SqlText} (ha : '\n' ∉ a)
    (hrest : ∀ c ∈ rest.head?, c = '\n') :
    comment.matchAt last (['-', '-'] ++ a ++ rest) = some (['-', '-'] ++ a, []) := by
  have hmany : Leads (.many fun c => decide (c ≠ '\n')) (lastOf last ['-', '-']) (a ++ rest) []
      (a, []) := by
    refine leads_many (fun c hc => ?_) fun c hc => ?_
    · have hne : c ≠ '\n' := ne_of_mem_of_not_mem hc ha
      simpa using hne
    · simpa using hrest c hc
  have hlit : Leads (.lit ['-', '-']) last (['-', '-'] ++ (a ++ rest)) [] (['-', '-'], []) :=
    leads_lit _
  rw [List.append_assoc]
  exact (hlit.seq hmany).matchAt (List.cons_ne_nil _ _)

/-- A text begins with a comment or not. -/
theorem comment_cases (text : SqlText) :
    ¬['-', '-'] <+: text ∨ ∃ a rest, text = ['-', '-'] ++ a ++ rest ∧ '\n' ∉ a ∧
      ∀ c ∈ rest.head?, c = '\n' := by
  by_cases h : ['-', '-'] <+: text
  · rcases h with ⟨left, rfl⟩
    rcases exists_stretch (fun c => decide (c ≠ '\n')) left with ⟨a, rest, rfl, ha, hrest⟩
    refine Or.inr ⟨a, rest, (List.append_assoc _ a rest).symm, fun hmem => ?_, fun c hc => ?_⟩
    · simpa using ha _ hmem
    · simpa using hrest c hc
  · exact Or.inl h

theorem uncommented_of_scans {last : Option Char} {text : SqlText} {ts : List (Token Char)}
    (h : Scans comment last text ts) :
    ts.flatMap (Pattern.replaceToken fun _ _ => []) = uncommented false text := by
  induction h with
  | nil last => rfl
  | @char last c rest ts hnone _ ih =>
      rcases comment_cases (c :: rest) with hfree | ⟨a, rest', hsplit, ha, hrest⟩
      · rw [uncommented_cons hfree, List.flatMap_cons, ih]
        rfl
      · rw [hsplit, matchAt_comment last ha hrest] at hnone
        cases hnone
  | @hit last taken rest groups ts hmatch _ ih =>
      rcases comment_cases (taken ++ rest) with hfree | ⟨a, rest', hsplit, ha, hrest⟩
      · rw [matchAt_comment_none hfree] at hmatch
        cases hmatch
      · rw [hsplit, matchAt_comment last ha hrest] at hmatch
        cases hmatch
        have hrest' := List.append_cancel_left hsplit
        subst hrest'
        rw [List.flatMap_cons, ih]
        show [] ++ _ = uncommented true (a ++ rest)
        rw [uncommented_true_append ha, uncommented_true hrest, List.nil_append]

/-- Stripping comments leaves what is outside of them. -/
theorem replace_comment (sql : SqlText) : stripComments sql = uncommented false sql :=
  uncommented_of_scans (scans_tokens comment sql)

/-- What is outside of comments is part of the text. -/
theorem uncommented_sublist (b : Bool) (sql : SqlText) : (uncommented b sql).Sublist sql := by
  fun_induction uncommented b sql with
  | case1 b => exact List.Sublist.refl []
  | case2 rest ih => exact ih.cons_cons _
  | case3 c rest hc ih => exact ih.cons c
  | case4 c => exact List.Sublist.refl [c]
  | case5 c d rest hdash ih => exact (ih.cons d).cons c
  | case6 c d rest hdash ih => exact ih.cons_cons c

/-! ## Placeholders -/

section Placeholders

variable {mark : Char} {inName : Char → Bool}

/-- A name goes on. -/
theorem pieces_name_append {a rest : SqlText} (n : SqlText) (ha : ∀ c ∈ a, inName c = true) :
    pieces mark inName (.name n) (a ++ rest) = pieces mark inName (.name (n ++ a)) rest := by
  induction a generalizing n with
  | nil => rw [List.nil_append, List.append_nil]
  | cons c a ih =>
      rw [List.forall_mem_cons] at ha
      rw [List.cons_append, pieces, if_pos ha.1, ih _ ha.2, List.append_assoc]
      rfl

/-- A name ends. -/
theorem pieces_name {rest : SqlText} (n : SqlText) (hrest : ∀ c ∈ rest.head?, inName c = false) :
    pieces mark inName (.name n) rest = .name n :: pieces mark inName (.plain false) rest := by
  cases rest with
  | nil => rfl
  | cons c rest =>
      have hc : inName c = false := hrest c rfl
      rw [pieces, pieces, hc]
      by_cases hmark : c = mark
      · simp only [hmark, if_true, Bool.false_eq_true, if_false]
      · simp only [hmark, Bool.false_eq_true, if_false]

/-- A mark that begins no placeholder. -/
theorem pieces_marked {rest : SqlText} (hrest : ∀ c ∈ rest.head?, inName c = false) :
    pieces mark inName .marked rest = .char mark :: pieces mark inName (.plain true) rest := by
  cases rest with
  | nil => rfl
  | cons c rest =>
      have hc : inName c = false := hrest c rfl
      rw [pieces, pieces, hc]
      by_cases hmark : c = mark
      · simp only [hmark, decide_true, if_true, Bool.false_eq_true, if_false]
      · simp only [hmark, decide_false, Bool.false_eq_true, if_false]

/-- A placeholder up to its end. -/
theorem pieces_placeholder {name rest : SqlText} (hne : name ≠ [])
    (hname : ∀ c ∈ name, inName c = true) (hrest : ∀ c ∈ rest.head?, inName c = false) :
    pieces mark inName (.plain false) (mark :: (name ++ rest)) =
      .name name :: pieces mark inName (.plain false) rest := by
  cases name with
  | nil => exact absurd rfl hne
  | cons c name =>
      rw [List.forall_mem_cons] at hname
      have hread : pieces mark inName (.name [c]) (name ++ rest) =
          pieces mark inName (.name ([c] ++ name)) rest :=
        pieces_name_append [c] hname.2
      rw [pieces, if_pos rfl, if_neg Bool.false_ne_true, List.cons_append, pieces, if_pos hname.1,
        hread, pieces_name _ hrest]
      rfl

/-- Where a placeholder begins. -/
def Begins (mark : Char) (inName : Char → Bool) (last : Option Char) (text : SqlText) : Prop :=
  last ≠ some mark ∧ ∃ c rest, text = mark :: c :: rest ∧ inName c = true

theorem matchAt_placeholder {last : Option Char} {name rest : SqlText} (hlast : last ≠ some mark)
    (hne : name ≠ []) (hname : ∀ c ∈ name, inName c = true)
    (hrest : ∀ c ∈ rest.head?, inName c = false) :
    (placeholder mark inName).matchAt last (mark :: (name ++ rest)) =
      some (mark :: name, [name]) := by
  have hbehind : Leads (.notAfter fun c => decide (c = mark)) last ([] ++ (mark :: (name ++ rest)))
      [] ([], []) := by
    refine leads_notAfter ?_
    cases last with
    | none => rfl
    | some c => simpa using fun h => hlast (congrArg some h)
  have hmark : Leads (.one fun c => decide (c = mark)) last ([mark] ++ (name ++ rest)) []
      ([mark], []) :=
    leads_one (by simp)
  have hgroup : Leads (.group (.many1 inName)) (lastOf last [mark]) (name ++ rest) []
      (name, [name]) :=
    (leads_many1 hne hname hrest).group
  exact (hbehind.seq (hmark.seq hgroup)).matchAt (List.cons_ne_nil _ _)

theorem matchAt_placeholder_none {last : Option Char} {text : SqlText}
    (h : ¬Begins mark inName last text) :
    (placeholder mark inName).matchAt last text = none := by
  refine matchAt_eq_none ?_
  by_cases hlast : last = some mark
  · exact ends_seq_eq_nil (ends_notAfter_eq_nil (by simp [hlast]))
  · have hbehind : (Pattern.notAfter fun c => decide (c = mark)).ends last ([] ++ text) [] =
        [([], [])] := by
      rw [Pattern.ends_notAfter, if_neg]
      cases last with
      | none => simp
      | some c => simpa using fun h => hlast (congrArg some h)
    refine ends_seq_eq_nil_of_right (a := []) hbehind ?_
    by_cases hmark : ∃ rest, text = mark :: rest
    · rcases hmark with ⟨rest, rfl⟩
      have hone : (Pattern.one fun c => decide (c = mark)).ends last ([mark] ++ rest) [] =
          [([mark], [])] := by
        simp [Pattern.ends_one_cons]
      refine ends_seq_eq_nil_of_right hone ?_
      have hrest : ∀ c ∈ rest.head?, inName c = false := by
        intro c hc
        rcases List.head?_eq_some_iff.mp hc with ⟨rest', rfl⟩
        exact Bool.eq_false_iff.mpr fun hname => h ⟨hlast, c, rest', rfl, hname⟩
      rw [Pattern.ends_group, Pattern.many1, ends_seq_eq_nil (ends_one_eq_nil hrest), List.map_nil]
    · refine ends_seq_eq_nil (ends_one_eq_nil fun c hc => ?_)
      rcases List.head?_eq_some_iff.mp hc with ⟨rest, rfl⟩
      simpa using fun heq => hmark ⟨rest, by rw [heq]⟩

/-- A placeholder begins at a place or not, and its name ends somewhere. -/
theorem placeholder_cases (mark : Char) (inName : Char → Bool) (last : Option Char)
    (text : SqlText) :
    ¬Begins mark inName last text ∨ ∃ name rest, text = mark :: (name ++ rest) ∧
      last ≠ some mark ∧ name ≠ [] ∧ (∀ c ∈ name, inName c = true) ∧
      ∀ c ∈ rest.head?, inName c = false := by
  by_cases h : Begins mark inName last text
  · rcases h with ⟨hlast, c, left, rfl, hc⟩
    rcases exists_stretch inName (c :: left) with ⟨name, rest, hsplit, hname, hrest⟩
    refine Or.inr ⟨name, rest, by rw [hsplit], hlast, ?_, hname, hrest⟩
    rintro rfl
    rw [List.nil_append] at hsplit
    have hnone := hrest c (by rw [← hsplit]; rfl)
    rw [hc] at hnone
    cases hnone
  · exact Or.inl h

/-- The piece of a token. -/
def pieceOf : Token Char → Piece
  | .char c => .char c
  | .hit _ groups => .name (groups.headD [])

/-- The pattern finds the placeholders of the reader. -/
theorem pieces_of_scans (hmark : inName mark = false) {last : Option Char} {text : SqlText}
    {ts : List (Token Char)} (h : Scans (placeholder mark inName) last text ts) :
    pieces mark inName (.plain (decide (last = some mark))) text = ts.map pieceOf := by
  induction h with
  | nil last => rfl
  | @char last c rest ts hnone _ ih =>
      rcases placeholder_cases mark inName last (c :: rest) with
        hfree | ⟨name, rest', hsplit, hlast, hne, hname, hrest⟩
      · rw [List.map_cons, ← ih, pieceOf, pieces]
        by_cases hc : c = mark
        · by_cases hlast : last = some mark
          · simp [hc, hlast]
          · -- the mark begins no placeholder
            have hrest : ∀ d ∈ rest.head?, inName d = false := by
              intro d hd
              rcases List.head?_eq_some_iff.mp hd with ⟨rest', rfl⟩
              exact Bool.eq_false_iff.mpr fun hname =>
                hfree ⟨hlast, d, rest', by rw [hc], hname⟩
            simp [hc, hlast, pieces_marked hrest]
        · simp [hc]
      · rw [hsplit, matchAt_placeholder hlast hne hname hrest] at hnone
        cases hnone
  | @hit last taken rest groups ts hmatch _ ih =>
      rcases placeholder_cases mark inName last (taken ++ rest) with
        hfree | ⟨name, rest', hsplit, hlast, hne, hname, hrest⟩
      · rw [matchAt_placeholder_none hfree] at hmatch
        cases hmatch
      · rw [hsplit, matchAt_placeholder hlast hne hname hrest] at hmatch
        cases hmatch
        have hrest' : rest = rest' := List.append_cancel_left hsplit
        subst hrest'
        have hend : lastOf last (mark :: name) ≠ some mark := by
          intro heq
          rw [lastOf_eq_some_iff (List.cons_ne_nil _ _), List.getLast?_cons_of_ne_nil hne] at heq
          have hlastname := hname mark (List.mem_of_getLast? heq)
          rw [hmark] at hlastname
          cases hlastname
        rw [decide_eq_false hend] at ih
        rw [hsplit, decide_eq_false hlast, pieces_placeholder hne hname hrest, ih]
        rfl

/-- Only the characters of the text decide. -/
theorem pieces_congr {inName' : Char → Bool} {text : SqlText}
    (h : ∀ c ∈ text, inName c = inName' c) (st : Reading) :
    pieces mark inName st text = pieces mark inName' st text := by
  induction text generalizing st with
  | nil => cases st <;> rfl
  | cons c text ih =>
      rw [List.forall_mem_cons] at h
      have htail := ih h.2
      cases st <;> simp only [pieces, h.1, htail]

/-- A double mark belongs to no placeholder. -/
theorem pieces_append_double (hmark : inName mark = false) (st : Reading) (a b : SqlText) :
    pieces mark inName st (a ++ mark :: mark :: b) =
      pieces mark inName st a ++ .char mark :: .char mark :: pieces mark inName (.plain true) b := by
  induction a generalizing st with
  | nil =>
      cases st with
      | plain afterMark => cases afterMark <;> simp [pieces, hmark]
      | marked => simp [pieces, hmark]
      | name n => simp [pieces, hmark]
  | cons c a ih =>
      cases st with
      | plain afterMark =>
          simp only [List.cons_append, pieces]
          split
          · split
            · rw [ih, List.cons_append]
            · exact ih _
          · rw [ih, List.cons_append]
      | marked =>
          simp only [List.cons_append, pieces]
          split
          · exact ih _
          · rw [ih, List.cons_append, List.cons_append]
      | name n =>
          simp only [List.cons_append, pieces]
          split
          · exact ih _
          · split
            · rw [ih, List.cons_append]
            · rw [ih, List.cons_append, List.cons_append]

/-- Text without marks after a double mark. -/
theorem pieces_plain {a rest : SqlText} (hne : a ≠ []) (ha : mark ∉ a) (afterMark : Bool) :
    pieces mark inName (.plain afterMark) (a ++ rest) =
      a.map Piece.char ++ pieces mark inName (.plain false) rest := by
  induction a generalizing afterMark with
  | nil => exact absurd rfl hne
  | cons c a ih =>
      rw [List.mem_cons, not_or] at ha
      rw [List.cons_append, pieces, if_neg (Ne.symm ha.1), List.map_cons, List.cons_append]
      cases a with
      | nil => rfl
      | cons d a => rw [ih (List.cons_ne_nil d a) ha.2 false]

/-- The characters of the pieces come from the text. -/
theorem mem_of_char_mem_pieces {st : Reading} {text : SqlText} {c : Char}
    (h : Piece.char c ∈ pieces mark inName st text) : c = mark ∨ c ∈ text := by
  fun_induction pieces mark inName st text <;> simp_all <;> grind

/-- A name that is being read comes first. -/
theorem head?_pieces_name (n text : SqlText) :
    ∃ n', (pieces mark inName (.name n) text).head? = some (.name n') := by
  induction text generalizing n with
  | nil => exact ⟨n, rfl⟩
  | cons c text ih =>
      rw [pieces]
      split
      · exact ih _
      · split
        · exact ⟨n, rfl⟩
        · exact ⟨n, rfl⟩

theorem eq_mark_of_head?_pieces_marked {text : SqlText} {c : Char}
    (h : (pieces mark inName .marked text).head? = some (.char c)) : c = mark := by
  cases text with
  | nil =>
      cases h
      rfl
  | cons d text =>
      rw [pieces] at h
      split at h
      · have hhead : ∃ n, (pieces mark inName (.name [d]) text).head? = some (.name n) :=
          head?_pieces_name [d] text
        rcases hhead with ⟨n, hn⟩
        rw [hn] at h
        cases h
      · cases h
        rfl

/-- No name is followed by a character that would prolong it. -/
def Separated (inName : Char → Bool) : List Piece → Prop
  | [] => True
  | .char _ :: ps => Separated inName ps
  | .name _ :: ps => (∀ c, ps.head? = some (.char c) → inName c = false) ∧ Separated inName ps

theorem separated_pieces (hmark : inName mark = false) (st : Reading) (text : SqlText) :
    Separated inName (pieces mark inName st text) := by
  induction text generalizing st with
  | nil => cases st <;> simp [pieces, Separated]
  | cons c text ih =>
      cases st with
      | plain afterMark =>
          rw [pieces]
          split
          · split
            · exact ih _
            · exact ih _
          · exact ih _
      | marked =>
          rw [pieces]
          split
          · exact ih _
          · exact ih _
      | name n =>
          rw [pieces]
          by_cases hc : inName c = true
          · rw [if_pos hc]
            exact ih _
          · rw [if_neg hc]
            split
            · refine ⟨fun d hd => ?_, ih _⟩
              rw [eq_mark_of_head?_pieces_marked hd]
              exact hmark
            · refine ⟨fun d hd => ?_, ih _⟩
              simp only [List.head?_cons, Option.some.injEq, Piece.char.injEq] at hd
              rw [← hd]
              simpa using hc

end Placeholders

/-! ## Replacing and counting -/

/-- Replacing the matches is filling the pieces. -/
theorem replaceTokens?_eq (value : SqlText → Option SqlText) (ts : List (Token Char)) :
    Pattern.replaceTokens? (fun groups => value (groups.headD [])) ts =
      fill value (ts.map pieceOf) := by
  induction ts with
  | nil => rfl
  | cons t ts ih => cases t <;> simp only [Pattern.replaceTokens?, List.map_cons, pieceOf, fill, ih]

/-- The first groups of the matches are the names of the pieces. -/
theorem map_headD_findAll (p : Pattern Char) (text : SqlText) :
    (p.findAll text).map (fun groups => groups.headD []) = namesOf ((p.tokens text).map pieceOf) := by
  rw [Pattern.findAll, namesOf, List.map_filterMap, List.filterMap_map]
  refine List.filterMap_congr fun t _ => ?_
  cases t <;> rfl

/-- The names, each where it appears first. -/
theorem firstAppearances_append (names : List SqlText) (name : SqlText) :
    firstAppearances (names ++ [name]) =
      if name ∈ firstAppearances names then firstAppearances names
      else firstAppearances names ++ [name] := by
  rw [firstAppearances, List.foldl_append]
  rfl

theorem mem_firstAppearances {names : List SqlText} {name : SqlText} :
    name ∈ firstAppearances names ↔ name ∈ names := by
  induction names using List.reverseRecOn with
  | nil => rfl
  | append_singleton names last ih =>
      rw [firstAppearances_append]
      split
      · rename_i hmem
        rw [List.mem_append, List.mem_singleton, ← ih]
        exact ⟨Or.inl, fun h => h.elim id fun heq => heq ▸ hmem⟩
      · rw [List.mem_append, List.mem_append, ih]

theorem nodup_firstAppearances (names : List SqlText) : (firstAppearances names).Nodup := by
  induction names using List.reverseRecOn with
  | nil => exact List.nodup_nil
  | append_singleton names last ih =>
      rw [firstAppearances_append]
      split
      · exact ih
      · rename_i hnew
        exact List.nodup_append.mpr ⟨ih, List.nodup_singleton last, by grind⟩

/-- All names have values. -/
theorem exists_fill (value : SqlText → Option SqlText) (ps : List Piece)
    (h : ∀ n ∈ namesOf ps, (value n).isSome) : ∃ text, fill value ps = some text := by
  induction ps with
  | nil => exact ⟨[], rfl⟩
  | cons p ps ih =>
      cases p with
      | char c =>
          rcases ih h with ⟨text, htext⟩
          exact ⟨c :: text, by rw [fill, htext]; rfl⟩
      | name n =>
          have hname : namesOf (.name n :: ps) = n :: namesOf ps := rfl
          rw [hname, List.forall_mem_cons] at h
          rcases Option.isSome_iff_exists.mp h.1 with ⟨v, hv⟩
          rcases ih h.2 with ⟨text, htext⟩
          exact ⟨v ++ text, by rw [fill, hv, htext]; rfl⟩

/-- Only the values of the names count. -/
theorem fill_congr {value value' : SqlText → Option SqlText} {ps : List Piece}
    (h : ∀ n ∈ namesOf ps, value n = value' n) : fill value ps = fill value' ps := by
  induction ps with
  | nil => rfl
  | cons p ps ih =>
      cases p with
      | char c => rw [fill, fill, ih h]
      | name n =>
          have hname : namesOf (.name n :: ps) = n :: namesOf ps := rfl
          rw [hname, List.forall_mem_cons] at h
          rw [fill, fill, h.1, ih h.2]

theorem fill_append (value : SqlText → Option SqlText) (ps qs : List Piece) :
    fill value (ps ++ qs) = (fill value ps).bind fun a => (fill value qs).map (a ++ ·) := by
  induction ps with
  | nil => simp [fill]
  | cons p ps ih =>
      cases p with
      | char c =>
          rw [List.cons_append, fill, fill, ih]
          cases fill value ps <;> cases fill value qs <;> rfl
      | name n =>
          rw [List.cons_append, fill, fill, ih]
          cases value n <;> cases fill value ps <;> cases fill value qs <;> simp

theorem fill_map_char (value : SqlText → Option SqlText) (a : SqlText) (ps : List Piece) :
    fill value (a.map Piece.char ++ ps) = (fill value ps).map (a ++ ·) := by
  induction a with
  | nil => simp
  | cons c a ih =>
      rw [List.map_cons, List.cons_append, fill, ih, Option.map_map]
      rfl

/-! ## The translation -/

/-- The number of the slot of a name. -/
def slotNumber (order : List SqlText) (name : SqlText) : SqlText :=
  Nat.toDigits 10 (order.idxOf name + 1)

theorem isDigit_slotNumber (order : List SqlText) (name : SqlText) :
    slotNumber order name ≠ [] ∧ ∀ c ∈ slotNumber order name, c.isDigit = true :=
  ⟨Nat.toDigits_ne_nil, fun _ hc => Nat.isDigit_of_mem_toDigits (by decide) (by decide) hc⟩

theorem slotText_of_mem {order : List SqlText} {name : SqlText} (h : name ∈ order) :
    slotText sdk order name = some ('$' :: slotNumber order name) := by
  have hslot : order.idxOf? name = some (order.idxOf name) := by
    induction order with
    | nil => cases h
    | cons first order ih =>
        rw [List.idxOf?_cons, List.idxOf_cons]
        cases hfirst : first == name with
        | true => rfl
        | false =>
            have hrest : name ∈ order := by grind
            simp only [ih hrest, Option.map_some, cond_false, Bool.false_eq_true, if_false]
  simp only [slotText, hslot, slotNumber]

/-- A slot has the value of its number. -/
theorem slotValue_slotNumber (values : List SqlText) (order : List SqlText) (name : SqlText) :
    slotValue values (slotNumber order name) = values[order.idxOf name]? := by
  rw [slotValue, slotNumber, Nat.ofDigitChars_ten_toDigits]

/-- A piece with its name replaced by a number. -/
def Piece.renumber (number : SqlText → SqlText) : Piece → Piece
  | .char c => .char c
  | .name n => .name (number n)

theorem fill_map_renumber (value : SqlText → Option SqlText) (number : SqlText → SqlText)
    (ps : List Piece) :
    fill value (ps.map (Piece.renumber number)) = fill (fun n => value (number n)) ps := by
  induction ps with
  | nil => rfl
  | cons p ps ih => cases p <;> simp only [List.map_cons, Piece.renumber, fill, ih]

theorem asciiWord_of_isDigit {c : Char} (h : c.isDigit = true) : asciiWord c = true := by
  simp [asciiWord, Char.isAlphanum, h]

/-- The slots of a translation are the placeholders of the statement. -/
theorem numberedPieces_of_fill {number : SqlText → SqlText} {ps : List Piece} {text : SqlText}
    (hsep : Separated asciiWord ps) (hdollar : Piece.char '$' ∉ ps)
    (hnumber : ∀ n, number n ≠ [] ∧ ∀ c ∈ number n, c.isDigit = true)
    (hfill : fill (fun n => some ('$' :: number n)) ps = some text) :
    numberedPieces text = ps.map (Piece.renumber number) := by
  induction ps generalizing text with
  | nil =>
      cases hfill
      rfl
  | cons p ps ih =>
      rw [List.mem_cons, not_or] at hdollar
      cases p with
      | char c =>
          rcases Option.map_eq_some_iff.mp hfill with ⟨rest, hrest, rfl⟩
          have hc : c ≠ '$' := fun heq => hdollar.1 (by rw [heq])
          have htail : numberedPieces rest = ps.map (Piece.renumber number) :=
            ih hsep hdollar.2 hrest
          rw [numberedPieces, pieces, if_neg hc]
          exact congrArg _ htail
      | name n =>
          rcases Option.map_eq_some_iff.mp hfill with ⟨rest, hrest, rfl⟩
          have htail : numberedPieces rest = ps.map (Piece.renumber number) :=
            ih hsep.2 hdollar.2 hrest
          -- neither a character of the statement nor another slot prolongs the number
          have hend : ∀ c ∈ rest.head?, c.isDigit = false := by
            intro c hc
            cases ps with
            | nil =>
                cases hrest
                cases hc
            | cons p ps =>
                cases p with
                | char d =>
                    rcases Option.map_eq_some_iff.mp hrest with ⟨rest', -, rfl⟩
                    cases hc
                    refine Bool.eq_false_iff.mpr fun hdigit => ?_
                    have hword := hsep.1 c rfl
                    rw [asciiWord_of_isDigit hdigit] at hword
                    cases hword
                | name m =>
                    rcases Option.map_eq_some_iff.mp hrest with ⟨rest', -, rfl⟩
                    cases hc
                    rfl
          have hslot : pieces '$' Char.isDigit (.plain false) ('$' :: (number n ++ rest)) =
              .name (number n) :: pieces '$' Char.isDigit (.plain false) rest :=
            pieces_placeholder (hnumber n).1 (hnumber n).2 hend
          exact hslot.trans (congrArg _ htail)

theorem exists_values {V : Type} (order : List SqlText) {params : SqlText → Option V}
    (h : ∀ n ∈ order, (params n).isSome) :
    ∃ values, order.map params = values.map some ∧ order.mapM params = some values := by
  induction order with
  | nil => exact ⟨[], rfl, rfl⟩
  | cons n order ih =>
      rw [List.forall_mem_cons] at h
      rcases Option.isSome_iff_exists.mp h.1 with ⟨v, hv⟩
      rcases ih h.2 with ⟨values, hmap, hmapM⟩
      exact ⟨v :: values, by rw [List.map_cons, List.map_cons, hv, hmap], by simp [hv, hmapM]⟩

/-- The value in the slot of a name is its own. -/
theorem getElem?_idxOf_values {V : Type} {order : List SqlText} {params : SqlText → Option V}
    {values : List V} (hvalues : order.map params = values.map some) {name : SqlText}
    (h : name ∈ order) : values[order.idxOf name]? = params name := by
  have hget : (order.map params)[order.idxOf name]? = some (params name) := by
    rw [List.getElem?_map, List.getElem?_idxOf h]
    rfl
  rw [hvalues, List.getElem?_map] at hget
  rcases Option.map_eq_some_iff.mp hget with ⟨v, hv, hname⟩
  rw [hv, hname]

/-- What the pattern finds in a statement. -/
theorem pieces_named (classes : CharClasses sdk) {sql : SqlText}
    (hascii : ∀ c ∈ sql, c.toNat < 128) :
    (classes.named.tokens (stripComments sql)).map pieceOf = namedPieces sql := by
  have hcolon : classes.word ':' = false := by
    rw [classes.word_ascii ':' (by decide)]
    decide
  rw [← pieces_of_scans hcolon (scans_tokens classes.named (stripComments sql)), replace_comment]
  exact pieces_congr (fun c hc => classes.word_ascii c
    (hascii c ((uncommented_sublist false sql).subset hc))) _

/-- The slots of a statement are its names, each where it appears first. -/
theorem statementParams_eq (classes : CharClasses sdk) {sql : SqlText}
    (hascii : ∀ c ∈ sql, c.toNat < 128) :
    statementParams classes sql = firstAppearances (namesOf (namedPieces sql)) := by
  rw [statementParams, map_headD_findAll, pieces_named classes hascii]

/-- The translation fills each name with its slot. -/
theorem positionalStatement_eq (classes : CharClasses sdk) {sql : SqlText}
    (hascii : ∀ c ∈ sql, c.toNat < 128) :
    positionalStatement classes sql =
      (fill (fun n => some ('$' :: slotNumber (statementParams classes sql) n))
        (namedPieces sql)).map fun text => (text, statementParams classes sql) := by
  have hmem : ∀ n ∈ namesOf (namedPieces sql), n ∈ statementParams classes sql := by
    intro n hn
    rw [statementParams_eq classes hascii]
    exact mem_firstAppearances.mpr hn
  rw [positionalStatement, Pattern.replace?, replaceTokens?_eq, pieces_named classes hascii]
  exact congrArg _ (fill_congr fun n hn => slotText_of_mem (hmem n hn))

/-! ## Main result -/

/-- The translation of a statement: both SDKs give the same text, order and values; filling the
numbers gives what filling the names gives; a name has one slot, which stands where the name
does, and only the names of the statement are bound; a cast is left as it is. -/
theorem positional_faithful {V : Type} (literal : V → SqlText) (python : CharClasses .python)
    (node : CharClasses .node) {sql : SqlText} (hascii : ∀ c ∈ sql, c.toNat < 128)
    (hdollar : '$' ∉ sql) {params : SqlText → Option V}
    (hparams : ∀ n ∈ namesOf (namedPieces sql), (params n).isSome) :
    ∃ (text : SqlText) (order : List SqlText) (values : List V),
      (positionalStatement python sql = some (text, order) ∧
        positionalStatement node sql = some (text, order)) ∧
      (toPositional python sql params = some (text, values.map some) ∧
        toPositional node sql params = some (text, values.map some)) ∧
      (∃ filled, fill (slotValue (values.map literal)) (numberedPieces text) = some filled ∧
        fill (fun n => (params n).map literal) (namedPieces sql) = some filled) ∧
      (order.Nodup ∧ (∀ n, n ∈ order ↔ n ∈ namesOf (namedPieces sql)) ∧
        order.map params = values.map some) ∧
      fill (fun n => some ('$' :: slotNumber order n)) (namedPieces sql) = some text ∧
      ∀ a type rest, uncommented false sql = a ++ ':' :: ':' :: (type ++ rest) → type ≠ [] →
        (∀ c ∈ type, asciiWord c = true) →
        ∃ before after, text = before ++ ':' :: ':' :: (type ++ after) ∧
          fill (fun n => some ('$' :: slotNumber order n))
            (pieces ':' asciiWord (.plain false) a) = some before ∧
          fill (fun n => some ('$' :: slotNumber order n))
            (pieces ':' asciiWord (.plain false) rest) = some after := by
  have horder : statementParams python sql = statementParams node sql := by
    rw [statementParams_eq python hascii, statementParams_eq node hascii]
  have hmem : ∀ n, n ∈ statementParams node sql ↔ n ∈ namesOf (namedPieces sql) := by
    intro n
    rw [statementParams_eq node hascii]
    exact mem_firstAppearances
  have hnodup : (statementParams node sql).Nodup := by
    rw [statementParams_eq node hascii]
    exact nodup_firstAppearances _
  have hpython := positionalStatement_eq python hascii
  have hnode := positionalStatement_eq node hascii
  rw [horder] at hpython
  generalize statementParams node sql = order at hmem hnodup hpython hnode
  rcases exists_fill (fun n => some ('$' :: slotNumber order n)) (namedPieces sql)
    fun _ _ => rfl with ⟨text, htext⟩
  rw [htext, Option.map_some] at hpython hnode
  rcases exists_values order fun n hn => hparams n ((hmem n).mp hn) with
    ⟨values, hvalues, hmapM⟩
  have hplain : Piece.char '$' ∉ namedPieces sql := by
    intro hpiece
    rcases mem_of_char_mem_pieces hpiece with heq | hdollar'
    · cases heq
    · exact hdollar ((uncommented_sublist false sql).subset hdollar')
  have hnumbered : numberedPieces text = (namedPieces sql).map (Piece.renumber (slotNumber order)) :=
    numberedPieces_of_fill (separated_pieces (by decide) _ _) hplain (isDigit_slotNumber order) htext
  refine ⟨text, order, values, ⟨hpython, hnode⟩, ⟨?_, ?_⟩, ?_, ⟨hnodup, hmem, hvalues⟩, htext, ?_⟩
  · rw [toPositional, hpython]
    simp only [Option.bind_some, hmapM, Option.map_some]
  · rw [toPositional, hnode]
    simp only [Option.bind_some, hvalues]
  · -- the two fillings agree on every name
    have hsame : ∀ n ∈ namesOf (namedPieces sql),
        slotValue (values.map literal) (slotNumber order n) = (params n).map literal := by
      intro n hn
      rw [slotValue_slotNumber, List.getElem?_map,
        getElem?_idxOf_values hvalues ((hmem n).mpr hn)]
    rcases exists_fill (fun n => (params n).map literal) (namedPieces sql)
      fun n hn => by simpa using hparams n hn with ⟨filled, hfilled⟩
    refine ⟨filled, ?_, hfilled⟩
    rw [hnumbered, fill_map_renumber, fill_congr hsame, hfilled]
  · intro a type rest hsplit hne htype
    have hmark : ':' ∉ type := by
      intro hcolon
      have hword := htype ':' hcolon
      revert hword
      decide
    have hpieces : namedPieces sql = pieces ':' asciiWord (.plain false) a ++
        .char ':' :: .char ':' :: (type.map Piece.char ++
          pieces ':' asciiWord (.plain false) rest) := by
      rw [namedPieces, hsplit, pieces_append_double (by decide), pieces_plain hne hmark]
    rcases exists_fill (fun n => some ('$' :: slotNumber order n))
      (pieces ':' asciiWord (.plain false) a) fun _ _ => rfl with ⟨before, hbefore⟩
    rcases exists_fill (fun n => some ('$' :: slotNumber order n))
      (pieces ':' asciiWord (.plain false) rest) fun _ _ => rfl with ⟨after, hafter⟩
    refine ⟨before, after, ?_, hbefore, hafter⟩
    rw [hpieces, fill_append, hbefore, fill, fill, fill_map_char, hafter] at htext
    exact (Option.some.inj htext).symm

/-- The classes of an SDK as far as ASCII goes. -/
def CharClasses.ascii (sdk : Sdk) : CharClasses sdk where
  word := asciiWord
  space := asciiSpace sdk
  word_ascii := fun _ _ => rfl
  space_ascii := fun _ _ => rfl

/-- A statement with a comment, a cast and a name that begins another. -/
def castStatement : SqlText :=
  "-- params: :id, :x\nwhere (:id::text is null or id = :id) and id_2 = :id_2".toList

theorem positional_faithful_castStatement :
    ∃ text order, positionalStatement (.ascii .python) castStatement = some (text, order) ∧
      positionalStatement (.ascii .node) castStatement = some (text, order) := by
  have hascii : (castStatement.all fun c => decide (c.toNat < 128)) = true := by decide +kernel
  rcases @positional_faithful Nat (Nat.toDigits 10) (.ascii .python) (.ascii .node) castStatement
    (fun c hc => of_decide_eq_true (List.all_eq_true.mp hascii c hc)) (by decide +kernel)
    (fun _ => some 7) (fun _ _ => rfl) with ⟨text, order, _, hsame, _⟩
  exact ⟨text, order, hsame⟩

example : positionalStatement (.ascii .python) castStatement =
    some ("\nwhere ($1::text is null or id = $1) and id_2 = $2".toList,
      ["id".toList, "id_2".toList]) := by
  decide +kernel

end CairnQ
