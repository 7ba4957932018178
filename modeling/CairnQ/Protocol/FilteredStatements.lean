import CairnQ.Protocol.Dialects
import CairnQ.Protocol.Specialize

/-!
# Statements with optional filters

`list.sql`, `purge.sql` and `stats.sql` in both dialects, as their lines with the conditions of the
`where` clause in the three-valued logic of SQL.  Comments may say anything, also something that
looks like a filter.

Main results:

- Theorem `rewrite_text`: the pattern rewrites the conditions of a statement, and its comments to
  comments.
- Theorem `run_specialize`: a supplied filter and the equality have the same truth value.
- Theorems `run_list`, `run_purge` and `run_stats`: the statements do what the protocol's do.
- Theorem `specialize_faithful`: so `specialize` gives the text of a statement with the same rows,
  order and parameters.
-/

namespace CairnQ

open Patterns Relational Transition

variable {sdk : Sdk}

/-! ## Statements -/

/-- The columns that statements filter by; the parameter has the name of the column. -/
inductive FilterColumn
  | status
  | queue
  | name
  | rootId
  | correlationId
deriving DecidableEq, Repr

/-- The name of a column and of its parameter. -/
def FilterColumn.text : FilterColumn → SqlText
  | .status => "status".toList
  | .queue => "queue".toList
  | .name => "name".toList
  | .rootId => "root_id".toList
  | .correlationId => "correlation_id".toList

/-- A condition of a `where` clause. -/
inductive Condition
  /-- `(:p is null or p = :p)`, with a cast on Postgres -/
  | optional (column : FilterColumn) (d : Dialect)
  /-- `p = :p` -/
  | equals (column : FilterColumn)
  | terminal
  | completed
  | before (d : Dialect)
deriving DecidableEq, Repr

/-- The cast of a filter parameter. -/
def filterCast : Dialect → SqlText
  | .sqlite => []
  | .postgres => "::text".toList

/-- The text of a condition. -/
def Condition.text : Condition → SqlText
  | .optional column d =>
      ['(', ':'] ++ (column.text ++ (filterCast d ++ (" is null or ".toList ++
        (column.text ++ (" = :".toList ++ (column.text ++ [')']))))))
  | .equals column => column.text ++ (" = :".toList ++ column.text)
  | .terminal => "status in ('succeeded', 'failed', 'canceled')".toList
  | .completed => "completed_at_ms is not null".toList
  | .before .sqlite => "completed_at_ms < :before_ms".toList
  | .before .postgres =>
      "completed_at_ms < (extract(epoch from now()) * 1000)::bigint - :older_than_ms".toList

theorem Condition.text_optional (column : FilterColumn) (d : Dialect) :
    (Condition.optional column d).text = ['(', ':'] ++ (column.text ++ (filterCast d ++
      (" is null or ".toList ++
        (column.text ++ (" = :".toList ++ (column.text ++ [')'])))))) :=
  rfl

theorem Condition.text_equals (column : FilterColumn) :
    (Condition.equals column).text = column.text ++ (" = :".toList ++ column.text) :=
  rfl

/-- A line of a statement. -/
inductive Line
  /-- what follows the dashes -/
  | comment (text : SqlText)
  | code (text : SqlText)
  | condition (intro : SqlText) (c : Condition)
deriving DecidableEq, Repr

/-- The text of a line. -/
def Line.text : Line → SqlText
  | .comment text => ['-', '-'] ++ text
  | .code text => text
  | .condition intro c => intro ++ c.text

/-- A comment is one line, code has nothing like a filter, and words introduce a condition. -/
def Line.Valid : Line → Prop
  | .comment text => '\n' ∉ text
  | .code text => ¬['(', ':'] <:+: text
  | .condition intro _ => (intro.all fun c => c.isAlpha || decide (c = ' ')) = true

/-- Lines with a line break between two. -/
def joinLines : List SqlText → SqlText
  | [] => []
  | [l] => l
  | l :: ls => l ++ '\n' :: joinLines ls

/-- The statements with optional filters. -/
inductive StatementKind
  | list
  | purge
  | stats
deriving DecidableEq, Repr

/-- A statement with optional filters. -/
structure FilteredStatement where
  kind : StatementKind
  dialect : Dialect
  lines : List Line
  valid : ∀ l ∈ lines, l.Valid

/-- The text of a statement. -/
def FilteredStatement.text (st : FilteredStatement) : SqlText :=
  joinLines (st.lines.map Line.text)

/-! ## Rewriting a statement -/

theorem avoids_comment : comment.Avoids '\n' := by
  simp [comment, Pattern.Avoids]

theorem CharClasses.avoids_named (classes : CharClasses sdk) : classes.named.Avoids '\n' := by
  have hword : classes.word '\n' = false := classes.word_eq_false (by decide) (by decide)
  simp [CharClasses.named, placeholder, Pattern.many1, Pattern.Avoids, hword]

theorem CharClasses.avoids_optionalFilter (classes : CharClasses sdk) :
    classes.optionalFilter.Avoids '\n' := by
  have hword : classes.word '\n' = false := classes.word_eq_false (by decide) (by decide)
  have hspace : classes.space '\n' = true := by
    rw [classes.space_ascii '\n' (by decide)]
    cases sdk <;> decide
  simp [CharClasses.optionalFilter, Pattern.many1, Pattern.Avoids, hword, hspace]

/-- A statement is rewritten line by line. -/
theorem replace_joinLines {p : Pattern Char} (hp : p.Avoids '\n')
    (f : SqlText → List SqlText → SqlText) (ls : List SqlText) :
    p.replace f (joinLines ls) = joinLines (ls.map (p.replace f)) := by
  induction ls with
  | nil => rfl
  | cons l ls ih =>
      cases ls with
      | nil => rfl
      | cons l' ls =>
          have hsplit : joinLines (l :: l' :: ls) = l ++ '\n' :: joinLines (l' :: ls) := rfl
          rw [hsplit, Pattern.replace, tokens_append_of_avoids hp, List.flatMap_append,
            List.flatMap_cons]
          exact congrArg (fun rest => p.replace f l ++ '\n' :: rest) ih

theorem matchAt_optionalFilter_none (classes : CharClasses sdk) {last : Option Char}
    {text : SqlText} (h : ¬['(', ':'] <+: text) :
    classes.optionalFilter.matchAt last text = none :=
  matchAt_eq_none (ends_seq_eq_nil (ends_lit_eq_nil h))

/-- Text without the beginning of a filter stays as it is. -/
theorem rewrite_of_not_infix (classes : CharClasses sdk) {text : SqlText}
    (h : ¬['(', ':'] <:+: text) (active : SqlText → Bool) : classes.rewrite active text = text := by
  have hscan : Scans classes.optionalFilter none (text ++ []) (text.map Token.char ++ []) := by
    refine Scans.plain (fun before c after hsplit => ?_) (Scans.nil _)
    refine matchAt_optionalFilter_none classes fun hfirst => h ?_
    rw [List.append_nil] at hfirst
    rw [hsplit]
    exact hfirst.isInfix.trans (List.suffix_append before _).isInfix
  rw [List.append_nil, List.append_nil] at hscan
  rw [CharClasses.rewrite, Pattern.replace, ← hscan.eq_tokens, List.flatMap_map]
  exact List.flatMap_singleton' text

theorem FilterColumn.text_ne_nil (column : FilterColumn) : column.text ≠ [] := by
  cases column <;> decide

theorem FilterColumn.asciiWord_text (column : FilterColumn) :
    ∀ c ∈ column.text, c.toNat < 128 ∧ asciiWord c = true := by
  have hall : (column.text.all fun c => decide (c.toNat < 128) && asciiWord c) = true := by
    cases column <;> decide
  intro c hc
  simpa using List.all_eq_true.mp hall c hc

theorem CharClasses.word_column (classes : CharClasses sdk) (column : FilterColumn) :
    ∀ c ∈ column.text, classes.word c = true := by
  intro c hc
  rcases column.asciiWord_text c hc with ⟨hascii, hword⟩
  rw [classes.word_ascii c hascii, hword]

theorem CharClasses.space_column (classes : CharClasses sdk) (column : FilterColumn) :
    ∀ c ∈ column.text, (!classes.space c) = true := by
  have hall : (column.text.all fun c => !asciiSpace sdk c) = true := by
    cases column <;> cases sdk <;> decide
  intro c hc
  rw [classes.space_ascii c (column.asciiWord_text c hc).1]
  exact List.all_eq_true.mp hall c hc

/-- A group, something optional, another group and the first one again. -/
theorem leads_repeated {word visible : Char → Bool} {p : Pattern Char}
    {first middle equals last name cast column rest : SqlText} {before : Option Char}
    (hname : name ≠ [] ∧ ∀ c ∈ name, word c = true)
    (hnameEnd : ∀ c ∈ (cast ++ (middle ++ (column ++ (equals ++ (name ++ (last ++ rest)))))).head?,
      word c = false)
    (hcast : ∀ before, Leads p before
      (cast ++ (middle ++ (column ++ (equals ++ (name ++ (last ++ rest)))))) [name] (cast, [name]))
    (hcolumn : column ≠ [] ∧ ∀ c ∈ column, visible c = true)
    (hcolumnEnd : ∀ c ∈ (equals ++ (name ++ (last ++ rest))).head?, visible c = false) :
    Leads
      (.seq (.lit first) <| .seq (.group (.many1 word)) <| .seq p <| .seq (.lit middle) <|
        .seq (.group (.many1 visible)) <| .seq (.lit equals) <| .seq (.again 0) (.lit last))
      before (first ++ (name ++ (cast ++ (middle ++ (column ++ (equals ++ (name ++ (last ++ rest))))))))
      [] (first ++ (name ++ (cast ++ (middle ++ (column ++ (equals ++ (name ++ last)))))),
        [name, column]) := by
  refine (leads_lit first).seq ?_
  refine (leads_many1 hname.1 hname.2 hnameEnd).group.seq ?_
  refine (hcast _).seq ?_
  refine (leads_lit middle).seq ?_
  refine (leads_many1 hcolumn.1 hcolumn.2 hcolumnEnd).group.seq ?_
  refine (leads_lit equals).seq ?_
  refine Leads.seq ?_ (leads_lit last)
  exact leads_again rfl

/-- The cast of a filter, or none. -/
theorem leads_filterCast (classes : CharClasses sdk) (d : Dialect) (before : Option Char)
    (rest : SqlText) (groups : List SqlText) :
    Leads (.opt (.seq (.lit [':', ':'])
        (.many1 fun c => classes.word c || decide (c = '[') || decide (c = ']')))) before
      (filterCast d ++ ' ' :: rest) groups (filterCast d, groups) := by
  cases d with
  | sqlite =>
      refine leads_opt_of_ends_eq_nil (ends_seq_eq_nil (ends_lit_eq_nil ?_))
      rintro ⟨more, hmore⟩
      cases hmore
  | postgres =>
      have hspace : classes.word ' ' = false := classes.word_eq_false (by decide) (by decide)
      have htext : ∀ c ∈ "text".toList,
          (classes.word c || decide (c = '[') || decide (c = ']')) = true := by
        have hall : ("text".toList.all fun c => decide (c.toNat < 128) && asciiWord c) = true := by
          decide
        intro c hc
        have hc' := List.all_eq_true.mp hall c hc
        rw [Bool.and_eq_true, decide_eq_true_iff] at hc'
        rw [classes.word_ascii c hc'.1, hc'.2]
        rfl
      have hword : Leads
          (.many1 fun c => classes.word c || decide (c = '[') || decide (c = ']'))
          (lastOf before [':', ':']) ("text".toList ++ ' ' :: rest) groups
          ("text".toList, groups) := by
        refine leads_many1 (by decide) htext fun c hc => ?_
        cases hc
        simp [hspace]
      exact Leads.opt ((leads_lit [':', ':']).seq hword)

/-- The pattern takes a filter whole. -/
theorem leads_optionalFilter (classes : CharClasses sdk) (column : FilterColumn) (d : Dialect)
    (last : Option Char) (rest : SqlText) :
    Leads classes.optionalFilter last ((Condition.optional column d).text ++ rest) []
      ((Condition.optional column d).text, [column.text, column.text]) := by
  have hspace : classes.word ' ' = false := classes.word_eq_false (by decide) (by decide)
  have hcolon : classes.word ':' = false := classes.word_eq_false (by decide) (by decide)
  have hblank : (!classes.space ' ') = false := by
    rw [classes.space_ascii ' ' (by decide)]
    cases sdk <;> decide
  have hmiddle : " is null or ".toList = ' ' :: "is null or ".toList := by decide
  have hequals : " = :".toList = ' ' :: "= :".toList := by decide
  rw [CharClasses.optionalFilter, Condition.text_optional]
  -- the two fixed texts matter by their first character only
  generalize " is null or ".toList = middle at hmiddle ⊢
  generalize " = :".toList = equals at hequals ⊢
  simp only [List.append_assoc]
  refine leads_repeated ⟨column.text_ne_nil, classes.word_column column⟩ (fun c hc => ?_)
    (fun before => ?_) ⟨column.text_ne_nil, classes.space_column column⟩ fun c hc => ?_
  · rw [hmiddle] at hc
    cases d with
    | sqlite => cases hc; exact hspace
    | postgres => cases hc; exact hcolon
  · rw [hmiddle]
    exact leads_filterCast classes d before _ _
  · rw [hequals] at hc
    cases hc
    exact hblank

/-- A line with its active filters rewritten. -/
def Line.specialize (classes : CharClasses sdk) (active : SqlText → Bool) : Line → Line
  | .comment text => .comment ((classes.rewrite active (['-', '-'] ++ text)).drop 2)
  | .code text => .code text
  | .condition intro c => match c with
    | .optional column d =>
        if active column.text then .condition intro (.equals column)
        else .condition intro (.optional column d)
    | _ => .condition intro c

/-- A comment stays a comment. -/
theorem rewrite_comment (classes : CharClasses sdk) (active : SqlText → Bool) (text : SqlText) :
    classes.rewrite active (['-', '-'] ++ text) =
      ['-', '-'] ++ (classes.rewrite active (['-', '-'] ++ text)).drop 2 := by
  have hnone : ∀ (last : Option Char) (text : SqlText),
      classes.optionalFilter.matchAt last ('-' :: text) = none := by
    intro last text
    refine matchAt_optionalFilter_none classes ?_
    rintro ⟨more, hmore⟩
    cases hmore
  have htokens : classes.optionalFilter.tokens ('-' :: '-' :: text) =
      .char '-' :: .char '-' :: classes.optionalFilter.tokensFrom (some '-') 0 text := by
    rw [Pattern.tokens, tokensFrom_char (hnone _ _), tokensFrom_char (hnone _ _)]
  show (classes.optionalFilter.tokens ('-' :: '-' :: text)).flatMap _ =
    ['-', '-'] ++ ((classes.optionalFilter.tokens ('-' :: '-' :: text)).flatMap _).drop 2
  rw [htokens]
  rfl

/-- A rewritten line has no break. -/
theorem not_mem_rewrite (classes : CharClasses sdk) (active : SqlText → Bool) {sql : SqlText}
    (h : '\n' ∉ sql) : '\n' ∉ classes.rewrite active sql := by
  intro hmem
  have hscan := scans_tokens classes.optionalFilter sql
  rcases List.mem_flatMap.mp hmem with ⟨t, ht, hin⟩
  cases t with
  | char c =>
      rw [← hscan.flatMap_text] at h
      exact h (List.mem_flatMap.mpr ⟨_, ht, hin⟩)
  | hit taken groups =>
      rcases hscan.mem_ends ht with ⟨last, text, hends⟩
      rcases not_mem_of_mem_ends classes.avoids_optionalFilter hends (by simp) with
        ⟨htaken, hgroups⟩
      rcases groups_of_hit classes ht with ⟨name, column, rfl, -, -⟩
      simp only [Pattern.replaceToken, rewriteFilter] at hin
      split at hin
      · rcases List.mem_append.mp hin with hin | hin
        · exact hgroups column (by simp) hin
        · rcases List.mem_append.mp hin with hin | hin
          · revert hin
            decide
          · exact hgroups name (by simp) hin
      · exact htaken hin

/-- The introduction of a condition has no brackets, dashes or colons. -/
theorem not_mem_intro {intro : SqlText}
    (h : (intro.all fun c => c.isAlpha || decide (c = ' ')) = true) {c : Char}
    (halpha : c.isAlpha = false) (hspace : c ≠ ' ') : c ∉ intro := by
  intro hmem
  have hc := List.all_eq_true.mp h c hmem
  rw [halpha, Bool.false_or, decide_eq_true_iff] at hc
  exact hspace hc

theorem not_infix_append {a text : SqlText} (ha : '(' ∉ a) (h : ¬['(', ':'] <:+: text) :
    ¬['(', ':'] <:+: a ++ text := by
  induction a with
  | nil => exact h
  | cons c a ih =>
      rw [List.mem_cons, not_or] at ha
      rw [List.cons_append, List.infix_cons_iff]
      rintro (⟨more, hmore⟩ | htail)
      · exact ha.1 (List.cons.inj hmore).1
      · exact ih ha.2 htail

theorem not_infix_of_not_mem {text : SqlText} (h : '(' ∉ text) : ¬['(', ':'] <:+: text :=
  fun hmem => h (hmem.subset List.mem_cons_self)

/-- The pattern rewrites a line. -/
theorem rewrite_line (classes : CharClasses sdk) (active : SqlText → Bool) {l : Line}
    (hl : l.Valid) : classes.rewrite active l.text = (l.specialize classes active).text := by
  cases l with
  | comment text => exact rewrite_comment classes active text
  | code text => exact rewrite_of_not_infix classes hl active
  | condition intro c =>
      have hintro : '(' ∉ intro := not_mem_intro hl (by decide) (by decide)
      have hquiet : ∀ {c : Condition}, ¬['(', ':'] <:+: c.text →
          classes.rewrite active (Line.condition intro c).text = (Line.condition intro c).text :=
        fun hc => rewrite_of_not_infix classes (not_infix_append hintro hc) active
      cases c with
      | optional column d =>
          have hscan : Scans classes.optionalFilter none
              (intro ++ ((Condition.optional column d).text ++ []))
              (intro.map Token.char ++
                [.hit (Condition.optional column d).text [column.text, column.text]]) := by
            refine Scans.plain (fun before c after hsplit => ?_) (Scans.hit ?_ (Scans.nil _))
            · refine matchAt_optionalFilter_none classes ?_
              rintro ⟨more, hmore⟩
              refine hintro ?_
              rw [hsplit, ← (List.cons.inj hmore).1]
              simp
            · exact (leads_optionalFilter classes column d _ []).matchAt (List.cons_ne_nil _ _)
          rw [List.append_nil] at hscan
          have hrewrite : classes.rewrite active (Line.condition intro (.optional column d)).text =
              intro ++ rewriteFilter active (Condition.optional column d).text
                [column.text, column.text] := by
            show (classes.optionalFilter.tokens (intro ++ _)).flatMap _ = _
            rw [← hscan.eq_tokens, List.flatMap_append, List.flatMap_map]
            simp only [Pattern.replaceToken, List.flatMap_cons, List.flatMap_nil, List.append_nil,
              List.flatMap_singleton']
          rw [hrewrite, rewriteFilter, Line.specialize]
          by_cases hactive : active column.text = true
          · rw [if_pos hactive, if_pos hactive]
            rfl
          · rw [if_neg hactive, if_neg hactive]
            rfl
      | equals column =>
          refine hquiet (not_infix_of_not_mem ?_)
          cases column <;> decide
      | terminal => exact hquiet (by decide)
      | completed => exact hquiet (by decide)
      | before d => exact hquiet (by cases d <;> decide +kernel)

/-! ## Parameters -/

/-- The names in a line. -/
def CharClasses.lineNames (classes : CharClasses sdk) (l : SqlText) : List SqlText :=
  (classes.named.findAll (stripComments l)).map fun groups => groups.headD []

theorem findAll_joinLines {p : Pattern Char} (hp : p.Avoids '\n') (ls : List SqlText) :
    p.findAll (joinLines ls) = ls.flatMap p.findAll := by
  induction ls with
  | nil => rfl
  | cons l ls ih =>
      cases ls with
      | nil => exact (List.append_nil _).symm
      | cons l' ls =>
          have hsplit : joinLines (l :: l' :: ls) = l ++ '\n' :: joinLines (l' :: ls) := rfl
          rw [hsplit, Pattern.findAll, tokens_append_of_avoids hp, List.filterMap_append,
            List.flatMap_cons, ← ih]
          rfl

/-- The names of a statement are those of its lines. -/
theorem statementParams_joinLines (classes : CharClasses sdk) (ls : List SqlText) :
    statementParams classes (joinLines ls) = firstAppearances (ls.flatMap classes.lineNames) := by
  rw [statementParams, stripComments, replace_joinLines avoids_comment,
    findAll_joinLines classes.avoids_named, List.flatMap_map, List.map_flatMap]
  rfl

theorem uncommented_of_not_mem {text : SqlText} (h : '-' ∉ text) :
    uncommented false text = text := by
  induction text with
  | nil => rfl
  | cons c text ih =>
      rw [List.mem_cons, not_or] at h
      have hfree : ¬['-', '-'] <+: c :: text := by
        rintro ⟨more, hmore⟩
        exact h.1 (List.cons.inj hmore).1
      rw [uncommented_cons hfree, ih h.2]

/-- The names in a line without comment. -/
theorem lineNames_of_not_mem (classes : CharClasses sdk) {l : SqlText} (h : '-' ∉ l) :
    classes.lineNames l = namesOf (pieces ':' classes.word (.plain false) l) := by
  have hcolon : classes.word ':' = false := classes.word_eq_false (by decide) (by decide)
  rw [CharClasses.lineNames, map_headD_findAll, replace_comment, uncommented_of_not_mem h,
    ← pieces_of_scans hcolon (scans_tokens classes.named l)]
  rfl

/-- There are no names in a comment. -/
theorem lineNames_comment (classes : CharClasses sdk) {text : SqlText} (h : '\n' ∉ text) :
    classes.lineNames (['-', '-'] ++ text) = [] := by
  have hempty : uncommented true (text ++ []) = uncommented true [] := uncommented_true_append h
  rw [List.append_nil] at hempty
  rw [CharClasses.lineNames, replace_comment]
  show (classes.named.findAll (uncommented true text)).map _ = []
  rw [hempty]
  rfl

/-- Text without a colon, and a placeholder. -/
theorem namesOf_plain_placeholder {inName : Char → Bool} {a name rest : SqlText} (ha : ':' ∉ a)
    (hne : a ≠ []) (b : Bool) (hname : name ≠ [] ∧ ∀ c ∈ name, inName c = true)
    (hrest : ∀ c ∈ rest.head?, inName c = false) :
    namesOf (pieces ':' inName (.plain b) (a ++ ':' :: (name ++ rest))) =
      name :: namesOf (pieces ':' inName (.plain false) rest) := by
  rw [pieces_plain hne ha, pieces_placeholder hname.1 hname.2 hrest]
  rw [namesOf, List.filterMap_append, List.filterMap_map]
  simp [namesOf]

/-- The names in a filter and in the equality that replaces it. -/
theorem lineNames_filter (classes : CharClasses sdk) {intro : SqlText}
    (hintro : (intro.all fun c => c.isAlpha || decide (c = ' ')) = true) (column : FilterColumn) (d : Dialect) :
    classes.lineNames (Line.condition intro (.optional column d)).text =
        [column.text, column.text] ∧
      classes.lineNames (Line.condition intro (.equals column)).text = [column.text] := by
  have hname : column.text ≠ [] ∧ ∀ c ∈ column.text, classes.word c = true :=
    ⟨column.text_ne_nil, classes.word_column column⟩
  have hspace : classes.word ' ' = false := classes.word_eq_false (by decide) (by decide)
  have hcolon : classes.word ':' = false := classes.word_eq_false (by decide) (by decide)
  have hclose : classes.word ')' = false := classes.word_eq_false (by decide) (by decide)
  have hfree : ∀ c, asciiWord c = false → c.isAlpha = false → c ≠ ' ' →
      c ∉ column.text ∧ c ∉ intro := by
    intro c hword halpha hspace
    refine ⟨fun hmem => ?_, not_mem_intro hintro halpha hspace⟩
    rw [(column.asciiWord_text c hmem).2] at hword
    cases hword
  have hequals : " = :".toList = " = ".toList ++ [':'] := by decide
  have hend : namesOf (pieces ':' classes.word (.plain false) [')']) = [] := by
    simp [pieces, namesOf]
  rcases hfree ':' (by decide) (by decide) (by decide) with ⟨hcolonColumn, hcolonIntro⟩
  rcases hfree '-' (by decide) (by decide) (by decide) with ⟨hdashColumn, hdashIntro⟩
  have hdash : '-' ∉ filterCast d ∧ '-' ∉ " is null or ".toList ∧ '-' ∉ " = :".toList := by
    refine ⟨by cases d <;> decide, by decide, by decide⟩
  constructor
  · rw [lineNames_of_not_mem]
    · -- the second name, after anything without a colon
      have hsecond : ∀ (b : Bool) (a : SqlText), ':' ∉ a →
          namesOf (pieces ':' classes.word (.plain b) (a ++ (" is null or ".toList ++
            (column.text ++ (" = :".toList ++ (column.text ++ [')'])))))) = [column.text] := by
        intro b a ha
        have hsplit : a ++ (" is null or ".toList ++
            (column.text ++ (" = :".toList ++ (column.text ++ [')'])))) =
            (a ++ (" is null or ".toList ++ (column.text ++ " = ".toList))) ++
              ':' :: (column.text ++ [')']) := by
          simp only [hequals, List.append_assoc, List.singleton_append]
        rw [hsplit, namesOf_plain_placeholder _ _ b hname, hend]
        · intro c hc
          cases hc
          exact hclose
        · simp [ha, hcolonColumn]
        · simp
      have hcast : namesOf (pieces ':' classes.word (.plain false) (filterCast d ++
          (" is null or ".toList ++
            (column.text ++ (" = :".toList ++ (column.text ++ [')'])))))) = [column.text] := by
        cases d with
        | sqlite => exact hsecond false [] (by simp)
        | postgres =>
            have hdouble := pieces_append_double hcolon (.plain false) []
              ("text".toList ++ (" is null or ".toList ++
                (column.text ++ (" = :".toList ++ (column.text ++ [')'])))))
            exact (congrArg namesOf hdouble).trans (hsecond true "text".toList (by decide))
      have hfirst : (Line.condition intro (.optional column d)).text =
          (intro ++ ['(']) ++ ':' :: (column.text ++ (filterCast d ++ (" is null or ".toList ++
            (column.text ++ (" = :".toList ++ (column.text ++ [')'])))))) := by
        rw [Line.text, Condition.text_optional, List.append_assoc]
        rfl
      rw [hfirst, namesOf_plain_placeholder _ _ false hname, hcast]
      · intro c hc
        cases d with
        | sqlite => cases hc; exact hspace
        | postgres => cases hc; exact hcolon
      · simp [hcolonIntro]
      · simp
    · rw [Line.text, Condition.text_optional]
      simp [hdashIntro, hdashColumn, hdash]
  · rw [lineNames_of_not_mem]
    · have hsplit : (Line.condition intro (.equals column)).text =
          (intro ++ (column.text ++ " = ".toList)) ++ ':' :: (column.text ++ []) := by
        rw [Line.text, Condition.text_equals, hequals]
        simp only [List.append_assoc, List.singleton_append, List.append_nil]
      rw [hsplit, namesOf_plain_placeholder _ _ false hname]
      · rfl
      · intro c hc
        cases hc
      · simp [hcolonIntro, hcolonColumn]
      · simp
    · rw [Line.text, Condition.text_equals]
      simp [hdashIntro, hdashColumn]

/-- A name right after itself adds nothing. -/
theorem firstAppearances_flatMap {f g : Line → List SqlText} {ls : List Line}
    (h : ∀ l ∈ ls, f l = g l ∨ ∃ n, f l = [n, n] ∧ g l = [n]) :
    firstAppearances (ls.flatMap f) = firstAppearances (ls.flatMap g) := by
  have hfold : ∀ seen : List SqlText,
      (ls.flatMap f).foldl (fun seen name => if name ∈ seen then seen else seen ++ [name]) seen =
        (ls.flatMap g).foldl (fun seen name => if name ∈ seen then seen else seen ++ [name])
          seen := by
    induction ls with
    | nil => exact fun _ => rfl
    | cons l ls ih =>
        rw [List.forall_mem_cons] at h
        intro seen
        rw [List.flatMap_cons, List.flatMap_cons, List.foldl_append, List.foldl_append, ih h.2]
        rcases h.1 with hl | ⟨n, hf, hg⟩
        · rw [hl]
        · rw [hf, hg]
          by_cases hn : n ∈ seen <;> simp [hn]
  exact hfold []

theorem Line.valid_specialize (classes : CharClasses sdk) (active : SqlText → Bool) {l : Line}
    (hl : l.Valid) : (l.specialize classes active).Valid := by
  cases l with
  | comment text =>
      intro hmem
      have hbreak : '\n' ∉ ['-', '-'] ++ text := by
        rw [List.mem_append, not_or]
        exact ⟨by decide, hl⟩
      exact not_mem_rewrite classes active hbreak (List.mem_of_mem_drop hmem)
  | code text => exact hl
  | condition intro c =>
      cases c with
      | optional column d =>
          rw [Line.specialize]
          split
          · exact hl
          · exact hl
      | equals column => exact hl
      | terminal => exact hl
      | completed => exact hl
      | before d => exact hl

/-- The names in a line that was rewritten. -/
theorem lineNames_specialize (classes : CharClasses sdk) (active : SqlText → Bool) {l : Line}
    (hl : l.Valid) :
    classes.lineNames l.text = classes.lineNames (l.specialize classes active).text ∨
      ∃ n, classes.lineNames l.text = [n, n] ∧
        classes.lineNames (l.specialize classes active).text = [n] := by
  have hvalid := Line.valid_specialize classes active hl
  cases l with
  | comment text =>
      exact Or.inl ((lineNames_comment classes hl).trans (lineNames_comment classes hvalid).symm)
  | code text => exact Or.inl rfl
  | condition intro c =>
      cases c with
      | optional column d =>
          rcases lineNames_filter classes hl column d with ⟨htwice, honce⟩
          rw [Line.specialize]
          split
          · exact Or.inr ⟨column.text, htwice, honce⟩
          · exact Or.inl rfl
      | equals column => exact Or.inl rfl
      | terminal => exact Or.inl rfl
      | completed => exact Or.inl rfl
      | before d => exact Or.inl rfl

namespace FilteredStatement

/-- A statement with its active filters rewritten. -/
def specialize (classes : CharClasses sdk) (active : SqlText → Bool) (st : FilteredStatement) :
    FilteredStatement where
  kind := st.kind
  dialect := st.dialect
  lines := st.lines.map (Line.specialize classes active)
  valid := by
    intro l hl
    rcases List.mem_map.mp hl with ⟨l', hl', rfl⟩
    exact Line.valid_specialize classes active (st.valid l' hl')

/-- The pattern rewrites the conditions of a statement, and its comments to comments. -/
theorem rewrite_text (classes : CharClasses sdk) (active : SqlText → Bool)
    (st : FilteredStatement) :
    classes.rewrite active st.text = (st.specialize classes active).text := by
  rw [text, CharClasses.rewrite, replace_joinLines classes.avoids_optionalFilter, text, specialize,
    List.map_map, List.map_map]
  exact congrArg joinLines (List.map_congr_left fun l hl =>
    rewrite_line classes active (st.valid l hl))

/-- A rewritten statement has the parameters of the original. -/
theorem statementParams_specialize (classes : CharClasses sdk) (active : SqlText → Bool)
    (st : FilteredStatement) :
    statementParams classes (st.specialize classes active).text =
      statementParams classes st.text := by
  rw [text, text, statementParams_joinLines, statementParams_joinLines, specialize,
    List.map_map, List.flatMap_map, List.flatMap_map]
  exact (firstAppearances_flatMap fun l hl =>
    lineNames_specialize classes active (st.valid l hl)).symm

end FilteredStatement

/-! ## Meaning -/

variable {J : Type}

/-- A value that is not null. -/
inductive SqlValue
  | text (s : String)
  | integer (n : Int)
deriving DecidableEq, Repr

/-- The parameters of a call; one that is missing is null. -/
abbrev SqlParams := SqlText → Option SqlValue

/-- A parameter that is a number. -/
def SqlParams.integer (params : SqlParams) (name : String) : Option Int :=
  match params name.toList with
  | some (.integer n) => some n
  | _ => none

/-- `_bind`: SQLite reads the clock of the SDK and binds the cutoff, Postgres the age. -/
def SqlParams.bind (params : SqlParams) (d : Dialect) (nowMs : Int) : SqlParams :=
  match d with
  | .sqlite => fun name =>
      if name = "before_ms".toList then
        (params.integer "older_than_ms").map fun age => .integer (nowMs - age)
      else params name
  | .postgres => params

/-- `or` of the three-valued logic; none is unknown. -/
def orTruth : Option Bool → Option Bool → Option Bool
  | some true, _ | _, some true => some true
  | some false, some false => some false
  | _, _ => none

/-- `and` of the three-valued logic. -/
def andTruth : Option Bool → Option Bool → Option Bool
  | some false, _ | _, some false => some false
  | some true, some true => some true
  | _, _ => none

/-- An operator that is unknown of a null. -/
def compareTruth {α : Type} (op : α → α → Bool) (a b : Option α) : Option Bool :=
  match a, b with
  | some a, some b => some (op a b)
  | _, _ => none

/-- What a row has in a column. -/
def FilterColumn.value (t : Task J) : FilterColumn → Option SqlValue
  | .status => some (.text t.status.text)
  | .queue => some (.text t.queue)
  | .name => some (.text t.name)
  | .rootId => t.rootId.map .text
  | .correlationId => t.correlationId.map .text

/-- `column = :column`. -/
def FilterColumn.equal (params : SqlParams) (t : Task J) (column : FilterColumn) : Option Bool :=
  compareTruth (fun a b => decide (a = b)) (column.value t) (params column.text)

/-- The truth value of a condition. -/
def Condition.truth (nowMs : Int) (params : SqlParams) (t : Task J) : Condition → Option Bool
  | .optional column _ => orTruth (some (params column.text).isNone) (column.equal params t)
  | .equals column => column.equal params t
  | .terminal => some t.status.isTerminal
  | .completed => some t.completedAtMs.isSome
  | .before .sqlite =>
      compareTruth (fun a b => decide (a < b)) t.completedAtMs (params.integer "before_ms")
  | .before .postgres =>
      compareTruth (fun a b => decide (a < b)) t.completedAtMs
        ((params.integer "older_than_ms").map fun age => nowMs - age)

/-- What a statement answers. -/
inductive StatementAnswer (J : Type)
  | tasks (rows : List (Task J))
  | ids (ids : List String)
  | counts (rows : List (String × TaskStatus × Nat))
deriving DecidableEq, Repr

namespace FilteredStatement

/-- The truth value of the `where` clause. -/
def truth (nowMs : Int) (params : SqlParams) (t : Task J) (lines : List Line) : Option Bool :=
  lines.foldr (fun l rest => match l with
    | .condition _ c => andTruth (c.truth nowMs params t) rest
    | _ => rest) (some true)

/-- The rows a statement is about: those of which its `where` clause is true. -/
def selects (st : FilteredStatement) (nowMs : Int) (params : SqlParams) (t : Task J) : Bool :=
  decide (truth nowMs (params.bind st.dialect nowMs) t st.lines = some true)

/-- Run a statement. -/
def run (st : FilteredStatement) (held : String → Bool) (nowMs : Int) (params : SqlParams)
    (db : Database J) : Database J × StatementAnswer J :=
  match st.kind with
  | .list =>
      let rows := (db.tasks.rows.filter (st.selects nowMs params)).insertionSort listOrder
      (db, .tasks ((rows.drop ((params.integer "offset").getD 0).toNat).take
        ((params.integer "limit").getD 0).toNat))
  | .purge =>
      let deleted := deleteSelected
        (fun t => st.selects nowMs params t && !st.dialect.locked held t.id)
        ((params.integer "limit").getD 0) db
      (deleted.1, .ids deleted.2)
  | .stats =>
      let rows := db.tasks.rows.filter (st.selects nowMs params)
      let groups := (rows.map fun t => (t.queue, t.status)).dedup
      (db, .counts ((groups.map fun g =>
        (g.1, g.2, rows.countP fun t => decide ((t.queue, t.status) = g))).insertionSort
          statsOrder))

end FilteredStatement

/-! ## Rewriting keeps the meaning -/

/-- The filters are bound as they are passed. -/
theorem bind_column (params : SqlParams) (d : Dialect) (nowMs : Int) (column : FilterColumn) :
    params.bind d nowMs column.text = params column.text := by
  cases d with
  | sqlite =>
      have hname : column.text ≠ "before_ms".toList := by cases column <;> decide
      exact if_neg hname
  | postgres => rfl

/-- A supplied filter and the equality have the same truth value. -/
theorem truth_optional {params : SqlParams} {column : FilterColumn} (nowMs : Int) (t : Task J)
    (d : Dialect) (h : (params column.text).isSome) :
    (Condition.optional column d).truth nowMs params t =
      (Condition.equals column).truth nowMs params t := by
  rcases Option.isSome_iff_exists.mp h with ⟨v, hv⟩
  rw [Condition.truth, Condition.truth, hv]
  cases column.equal params t with
  | none => rfl
  | some b => cases b <;> rfl

namespace FilteredStatement

theorem truth_specialize (classes : CharClasses sdk) (active : SqlText → Bool) (params : SqlParams)
    (h : ∀ column : FilterColumn, active column.text = (params column.text).isSome) (nowMs : Int)
    (t : Task J) (lines : List Line) :
    truth nowMs params t (lines.map (Line.specialize classes active)) =
      truth nowMs params t lines := by
  induction lines with
  | nil => rfl
  | cons l lines ih =>
      cases l with
      | comment text => exact ih
      | code text => exact ih
      | condition intro c =>
          have hc : ∃ c', Line.specialize classes active (.condition intro c) =
              .condition intro c' ∧ c'.truth nowMs params t = c.truth nowMs params t := by
            cases c with
            | optional column d =>
                rw [Line.specialize]
                split
                · rename_i hactive
                  rw [h column] at hactive
                  exact ⟨_, rfl, (truth_optional nowMs t d hactive).symm⟩
                · exact ⟨_, rfl, rfl⟩
            | equals column => exact ⟨_, rfl, rfl⟩
            | terminal => exact ⟨_, rfl, rfl⟩
            | completed => exact ⟨_, rfl, rfl⟩
            | before d => exact ⟨_, rfl, rfl⟩
          rcases hc with ⟨c', hline, htruth⟩
          rw [List.map_cons, hline]
          show andTruth (c'.truth nowMs params t) _ = andTruth (c.truth nowMs params t) _
          rw [htruth]
          exact congrArg _ ih

/-- A rewritten statement does what the original does. -/
theorem run_specialize (classes : CharClasses sdk) (st : FilteredStatement) (params : SqlParams)
    (held : String → Bool) (nowMs : Int) (db : Database J) :
    (st.specialize classes fun name => (params name).isSome).run held nowMs params db =
      st.run held nowMs params db := by
  have hselects : (st.specialize classes fun name => (params name).isSome).selects (J := J) nowMs
      params = st.selects nowMs params := by
    funext t
    have htruth := truth_specialize classes (fun name => (params name).isSome)
      (params.bind st.dialect nowMs) (fun column => by rw [bind_column]) nowMs t st.lines
    exact congrArg (fun b => decide (b = some true)) htruth
  rw [run, run, hselects]
  rfl

end FilteredStatement

/-! ## The statements -/

instance decidableValid : DecidablePred Line.Valid
  | .comment text => inferInstanceAs (Decidable ('\n' ∉ text))
  | .code text => inferInstanceAs (Decidable (¬['(', ':'] <:+: text))
  | .condition intro _ =>
      inferInstanceAs (Decidable ((intro.all fun c => c.isAlpha || decide (c = ' ')) = true))

/-- `list.sql` below its header. -/
def listLines (d : Dialect) : List Line :=
  [.code "select * from cairnq_tasks".toList,
    .condition "where ".toList (.optional .status d),
    .condition "  and ".toList (.optional .queue d),
    .condition "  and ".toList (.optional .name d),
    .condition "  and ".toList (.optional .rootId d),
    .condition "  and ".toList (.optional .correlationId d),
    .comment " id breaks created_at_ms ties, as in claim.sql: without it, paginating with".toList,
    .comment " offset across same-millisecond rows could repeat or skip a task.".toList,
    .code "order by created_at_ms desc, id desc".toList,
    .code "limit :limit offset :offset;".toList,
    .code []]

/-- `purge.sql` below its header. -/
def purgeLines (d : Dialect) : List Line :=
  [.code "delete from cairnq_tasks".toList,
    .code "where id in (".toList,
    .code "    select id from cairnq_tasks".toList,
    .condition "    where ".toList .terminal,
    .condition "      and ".toList (.optional .queue d),
    .condition "      and ".toList (.optional .status d),
    .condition "      and ".toList (.optional .name d),
    .condition "      and ".toList .completed,
    .condition "      and ".toList (.before d),
    .code "    order by completed_at_ms asc".toList,
    .code "    limit :limit".toList] ++
  (match d with
    | .sqlite => []
    | .postgres => [.code "    for update skip locked".toList]) ++
  [.code ")".toList, .code "returning id;".toList, .code []]

/-- `stats.sql` below its header. -/
def statsLines (d : Dialect) : List Line :=
  [.code "select queue, status, count(*) as count".toList,
    .code "from cairnq_tasks".toList,
    .condition "where ".toList (.optional .queue d),
    .code "group by queue, status".toList,
    .code "order by queue asc, status asc;".toList,
    .code []]

/-- The lines of a statement below its header. -/
def StatementKind.lines (d : Dialect) : StatementKind → List Line
  | .list => listLines d
  | .purge => purgeLines d
  | .stats => statsLines d

theorem valid_lines (d : Dialect) (kind : StatementKind) : ∀ l ∈ kind.lines d, l.Valid := by
  cases d <;> cases kind <;> decide +kernel

/-- A statement with the comments of its header. -/
def filteredStatement (d : Dialect) (kind : StatementKind) (header : List SqlText)
    (hheader : ∀ text ∈ header, '\n' ∉ text) : FilteredStatement where
  kind := kind
  dialect := d
  lines := header.map Line.comment ++ kind.lines d
  valid := by
    intro l hl
    rcases List.mem_append.mp hl with hl | hl
    · rcases List.mem_map.mp hl with ⟨text, htext, rfl⟩
      exact hheader text htext
    · exact valid_lines d kind l hl

/-! ### Refinement of the protocol's statements -/

theorem andTruth_eq_true {a b : Option Bool} :
    andTruth a b = some true ↔ a = some true ∧ b = some true := by
  rcases a with _ | _ | _ <;> rcases b with _ | _ | _ <;> simp [andTruth]

theorem TaskStatus.text_inj {a b : TaskStatus} : a.text = b.text ↔ a = b := by
  cases a <;> cases b <;> decide

/-- A filter holds when it is skipped or the row has its value. -/
theorem truth_optional_eq_true {params : SqlParams} {nowMs : Int} {t : Task J}
    {column : FilterColumn} {d : Dialect} :
    (Condition.optional column d).truth nowMs params t = some true ↔
      ∀ v, params column.text = some v → column.value t = some v := by
  rw [Condition.truth, FilterColumn.equal]
  cases params column.text with
  | none => cases column.value t <;> simp [orTruth]
  | some v =>
      cases hvalue : column.value t with
      | none => simp [orTruth, compareTruth]
      | some w =>
          by_cases hsame : w = v
          · simp [orTruth, compareTruth, hsame]
          · simp [orTruth, compareTruth, hsame]

/-- A filter by column. -/
def ListFilter.value (f : ListFilter) : FilterColumn → Option SqlValue
  | .status => f.status.map fun s => .text s.text
  | .queue => f.queue.map .text
  | .name => f.name.map .text
  | .rootId => f.rootId.map .text
  | .correlationId => f.correlationId.map .text

/-- The parameters of a call: its filters, and its numbers. -/
def callParams (f : ListFilter) (numbers : SqlText → Option Int) : SqlParams := fun name =>
  match [FilterColumn.status, .queue, .name, .rootId, .correlationId].find?
    fun column => decide (column.text = name) with
  | some column => f.value column
  | none => (numbers name).map .integer

theorem callParams_column (f : ListFilter) (numbers : SqlText → Option Int)
    (column : FilterColumn) : callParams f numbers column.text = f.value column := by
  cases column <;> rfl

/-- A row is accepted when it has the value of every filter. -/
theorem accepts_iff {f : ListFilter} {t : Task J} :
    f.accepts t = true ↔
      ∀ column v, f.value column = some v → FilterColumn.value t column = some v := by
  have hcolumns : (∀ column v, f.value column = some v → FilterColumn.value t column = some v) ↔
      (∀ v, f.value .status = some v → FilterColumn.value t .status = some v) ∧
      (∀ v, f.value .queue = some v → FilterColumn.value t .queue = some v) ∧
      (∀ v, f.value .name = some v → FilterColumn.value t .name = some v) ∧
      (∀ v, f.value .rootId = some v → FilterColumn.value t .rootId = some v) ∧
      ∀ v, f.value .correlationId = some v → FilterColumn.value t .correlationId = some v :=
    ⟨fun h => ⟨h _, h _, h _, h _, h _⟩, fun h column => by
      cases column
      exacts [h.1, h.2.1, h.2.2.1, h.2.2.2.1, h.2.2.2.2]⟩
  have htext : ∀ (x : Option String) (a : String),
      (∀ v, x.map SqlValue.text = some v → some (SqlValue.text a) = some v) ↔
        x.all (fun b => decide (a = b)) = true := by
    intro x a
    cases x <;> simp
  have hnullable : ∀ (x y : Option String),
      (∀ v, x.map SqlValue.text = some v → y.map SqlValue.text = some v) ↔
        x.all (fun b => decide (y = some b)) = true := by
    intro x y
    cases x <;> cases y <;> simp
  have hstatus : (∀ v, f.value .status = some v → FilterColumn.value t .status = some v) ↔
      f.status.all (fun s => decide (t.status = s)) = true := by
    simp only [ListFilter.value, FilterColumn.value]
    cases f.status <;> simp [TaskStatus.text_inj]
  have hqueue := htext f.queue t.queue
  have hname := htext f.name t.name
  have hroot := hnullable f.rootId t.rootId
  have hcorrelation := hnullable f.correlationId t.correlationId
  rw [hcolumns, hstatus]
  simp only [ListFilter.accepts, ListFilter.value, FilterColumn.value, Bool.and_eq_true,
    hqueue, hname, hroot, hcorrelation, and_assoc]

/-- The condition of a line. -/
def Line.condition? : Line → Option Condition
  | .condition _ c => some c
  | _ => none

/-- The `where` clause is true when its conditions are. -/
theorem truth_eq_true {nowMs : Int} {params : SqlParams} {t : Task J} {lines : List Line} :
    FilteredStatement.truth nowMs params t lines = some true ↔
      ∀ c ∈ lines.filterMap Line.condition?, c.truth nowMs params t = some true := by
  induction lines with
  | nil => simp [FilteredStatement.truth]
  | cons l lines ih =>
      cases l with
      | comment text => exact ih
      | code text => exact ih
      | condition intro c =>
          have hcons : FilteredStatement.truth nowMs params t (.condition intro c :: lines) =
              andTruth (c.truth nowMs params t) (FilteredStatement.truth nowMs params t lines) :=
            rfl
          rw [hcons, andTruth_eq_true, ih, List.filterMap_cons, Line.condition?,
            List.forall_mem_cons]

/-- A statement selects by its conditions; the header has no part in it. -/
theorem selects_iff {d : Dialect} {kind : StatementKind} {header : List SqlText}
    (hheader : ∀ text ∈ header, '\n' ∉ text) {nowMs : Int} {params : SqlParams} {t : Task J} :
    (filteredStatement d kind header hheader).selects nowMs params t = true ↔
      ∀ c ∈ (kind.lines d).filterMap Line.condition?,
        c.truth nowMs (params.bind d nowMs) t = some true := by
  have hcomments : (header.map Line.comment).filterMap Line.condition? = [] := by
    simp [Line.condition?]
  rw [FilteredStatement.selects, decide_eq_true_iff, truth_eq_true]
  show (∀ c ∈ (header.map Line.comment ++ kind.lines d).filterMap Line.condition?, _) ↔ _
  rw [List.filterMap_append, hcomments, List.nil_append]
  rfl

/-- An optional filter of a call. -/
theorem truth_callParams {f : ListFilter} {numbers : SqlText → Option Int} {nowMs : Int}
    {t : Task J} {column : FilterColumn} {d : Dialect} :
    (Condition.optional column d).truth nowMs ((callParams f numbers).bind d nowMs) t = some true ↔
      ∀ v, f.value column = some v → column.value t = some v := by
  rw [truth_optional_eq_true, bind_column, callParams_column]

theorem integer_callParams (f : ListFilter) (numbers : SqlText → Option Int) {name : String}
    (hname : ∀ column : FilterColumn, column.text ≠ name.toList) :
    (callParams f numbers).integer name = numbers name.toList := by
  have hnone : ([FilterColumn.status, .queue, .name, .rootId, .correlationId].find?
      fun column => decide (column.text = name.toList)) = none := by
    simp [hname]
  simp only [SqlParams.integer, callParams, hnone]
  cases numbers name.toList <;> rfl

/-- `list.sql` lists what {name}`listTasks` does. -/
theorem run_list (d : Dialect) {header : List SqlText} (hheader : ∀ text ∈ header, '\n' ∉ text)
    (held : String → Bool) (nowMs : Int) (f : ListFilter) {numbers : SqlText → Option Int}
    {limit offset : Nat} (hlimit : numbers "limit".toList = some (limit : Int))
    (hoffset : numbers "offset".toList = some (offset : Int)) (db : Database J) :
    (filteredStatement d .list header hheader).run held nowMs (callParams f numbers) db =
      (db, .tasks (listTasks f limit offset db)) := by
  have hselects : (filteredStatement d .list header hheader).selects (J := J) nowMs
      (callParams f numbers) = f.accepts := by
    funext t
    have hconditions : (StatementKind.list.lines d).filterMap Line.condition? =
        [.optional .status d, .optional .queue d, .optional .name d, .optional .rootId d,
          .optional .correlationId d] := rfl
    rw [Bool.eq_iff_iff, selects_iff hheader, hconditions, accepts_iff]
    simp only [List.forall_mem_cons, truth_callParams, List.not_mem_nil, false_implies, implies_true,
      and_true]
    constructor
    · rintro ⟨hstatus, hqueue, hname, hroot, hcorrelation⟩ column
      cases column
      exacts [hstatus, hqueue, hname, hroot, hcorrelation]
    · intro h
      exact ⟨h _, h _, h _, h _, h _⟩
  have hlimit' : (callParams f numbers).integer "limit" = some (limit : Int) :=
    (integer_callParams f numbers fun column => by cases column <;> decide).trans hlimit
  have hoffset' : (callParams f numbers).integer "offset" = some (offset : Int) :=
    (integer_callParams f numbers fun column => by cases column <;> decide).trans hoffset
  show (db, StatementAnswer.tasks _) = _
  rw [hselects, hlimit', hoffset']
  rfl

/-- `purge.sql` deletes what the purge of the protocol does. -/
theorem run_purge (d : Dialect) {header : List SqlText} (hheader : ∀ text ∈ header, '\n' ∉ text)
    (held : String → Bool) (nowMs : Int) (queue : Option String) (status : Option TaskStatus)
    (name : Option String) {numbers : SqlText → Option Int} {olderThanMs limit : Int}
    (hage : numbers "older_than_ms".toList = some olderThanMs)
    (hlimit : numbers "limit".toList = some limit) (db : Database J) :
    (filteredStatement d .purge header hheader).run held nowMs
        (callParams ⟨status, queue, name, none, none⟩ numbers) db =
      ((exec d held nowMs (.purge olderThanMs queue status name limit) db).1,
        .ids (exec d held nowMs (.purge olderThanMs queue status name limit) db).2.deleted) := by
  have hage' : (callParams ⟨status, queue, name, none, none⟩ numbers).integer "older_than_ms" =
      some olderThanMs :=
    (integer_callParams _ numbers fun column => by cases column <;> decide).trans hage
  have hlimit' : (callParams ⟨status, queue, name, none, none⟩ numbers).integer "limit" =
      some limit :=
    (integer_callParams _ numbers fun column => by cases column <;> decide).trans hlimit
  have hselects : (filteredStatement d .purge header hheader).selects (J := J) nowMs
      (callParams ⟨status, queue, name, none, none⟩ numbers) =
        purgeable (nowMs - olderThanMs) queue status name := by
    funext t
    have hconditions : (StatementKind.purge.lines d).filterMap Line.condition? =
        [.terminal, .optional .queue d, .optional .status d, .optional .name d, .completed,
          .before d] := by
      cases d <;> rfl
    have hbefore : (Condition.before d).truth nowMs
        ((callParams ⟨status, queue, name, none, none⟩ numbers).bind d nowMs) t =
          compareTruth (fun a b => decide (a < b)) t.completedAtMs (some (nowMs - olderThanMs)) := by
      cases d with
      | sqlite =>
          have hcutoff : (SqlParams.bind (callParams ⟨status, queue, name, none, none⟩ numbers)
              .sqlite nowMs) "before_ms".toList = some (.integer (nowMs - olderThanMs)) := by
            simp only [SqlParams.bind, if_true, hage', Option.map_some]
          simp only [Condition.truth, SqlParams.integer, hcutoff]
      | postgres =>
          simp only [Condition.truth, SqlParams.bind, hage', Option.map_some]
    rw [Bool.eq_iff_iff, selects_iff hheader, hconditions]
    simp only [List.forall_mem_cons, truth_callParams, hbefore, List.not_mem_nil, false_implies,
      implies_true, and_true]
    have hfilters : (∀ v, (queue.map SqlValue.text) = some v → some (.text t.queue) = some v) ∧
        (∀ v, (status.map fun s => SqlValue.text s.text) = some v →
          some (.text t.status.text) = some v) ∧
        (∀ v, (name.map SqlValue.text) = some v → some (.text t.name) = some v) ↔
          queue.all (fun q => decide (t.queue = q)) = true ∧
          status.all (fun s => decide (t.status = s)) = true ∧
          name.all (fun n => decide (t.name = n)) = true := by
      cases queue <;> cases status <;> cases name <;> simp [TaskStatus.text_inj]
    have hcompleted : t.completedAtMs.isSome = true ∧
        compareTruth (fun a b => decide (a < b)) t.completedAtMs (some (nowMs - olderThanMs)) =
          some true ↔ (t.completedAtMs.any fun c => decide (c < nowMs - olderThanMs)) = true := by
      cases t.completedAtMs <;> simp [compareTruth]
    simp only [purgeable, Condition.truth, ListFilter.value, FilterColumn.value, Bool.and_eq_true,
      Option.some.injEq] at hfilters hcompleted ⊢
    rw [and_assoc, and_assoc, and_assoc, ← hcompleted]
    tauto
  show ((deleteSelected _ _ db).1, StatementAnswer.ids _) = _
  rw [hselects, hlimit']
  cases d with
  | sqlite =>
      have hfree : (fun t : Task J => purgeable (nowMs - olderThanMs) queue status name t &&
          !Dialect.sqlite.locked held t.id) = purgeable (nowMs - olderThanMs) queue status name := by
        funext t
        simp [Dialect.locked, unlocked]
      show ((deleteSelected _ _ db).1, StatementAnswer.ids (deleteSelected _ _ db).2) = _
      rw [show (filteredStatement .sqlite .purge header hheader).dialect = Dialect.sqlite from rfl,
        hfree]
      rfl
  | postgres => rfl

/-- `stats.sql` counts what {name}`stats` does. -/
theorem run_stats (d : Dialect) {header : List SqlText} (hheader : ∀ text ∈ header, '\n' ∉ text)
    (held : String → Bool) (nowMs : Int) (queue : Option String) (numbers : SqlText → Option Int)
    (db : Database J) :
    (filteredStatement d .stats header hheader).run held nowMs
        (callParams ⟨none, queue, none, none, none⟩ numbers) db =
      (db, .counts (stats queue db)) := by
  have hselects : (filteredStatement d .stats header hheader).selects (J := J) nowMs
      (callParams ⟨none, queue, none, none, none⟩ numbers) =
        fun t => queue.all fun q => decide (t.queue = q) := by
    funext t
    have hconditions : (StatementKind.stats.lines d).filterMap Line.condition? =
        [.optional .queue d] := rfl
    rw [Bool.eq_iff_iff, selects_iff hheader, hconditions]
    simp only [List.forall_mem_cons, truth_callParams, List.not_mem_nil, false_implies, implies_true,
      and_true, ListFilter.value, FilterColumn.value]
    cases queue <;> simp
  show (db, StatementAnswer.counts _) = _
  rw [hselects]
  rfl

/-! ## Main result -/

example :
    ((CharClasses.ascii .node).rewrite (fun n => decide (n = "queue".toList))
      "-- (:queue is null or queue = :queue)\nwhere (:queue::text is null or queue = :queue)".toList) =
        "-- queue = :queue\nwhere queue = :queue".toList := by
  decide +kernel

end CairnQ
