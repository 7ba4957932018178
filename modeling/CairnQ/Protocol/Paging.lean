import CairnQ.Protocol.Dialects
import CairnQ.Protocol.Provenance
import CairnQ.Relational.Pages

/-!
# Paging through a listing

`list` reads by limit and offset, and a caller that wants all tasks reads one page after the
other while others go on submitting, claiming and settling.  The order of `list.sql` has no ties
and goes by columns that never change, so a task can only be moved down, by tasks that were
submitted meanwhile.

Main results:

- Theorem `rank_le_of_steps`: while nothing is deleted, no task moves up.
- Theorem `pages_cover`: a walk through the pages skips no task, and meets one twice only if
  another was submitted before it meanwhile.
-/

namespace CairnQ

open Relational Transition

variable {J : Type}

/-! ## What a listing goes by -/

/-- `list.sql` reads a page. -/
theorem listTasks_eq_page (filter : ListFilter) (limit offset : Nat) (db : Database J) :
    listTasks filter limit offset db = db.tasks.page filter.accepts listOrder limit offset :=
  rfl

/-- Filters other than that of the status go by what was submitted. -/
theorem accepts_of_submission {filter : ListFilter} (hstatus : filter.status = none)
    {t t' : Task J} (h : t'.submission = t.submission) : filter.accepts t' = filter.accepts t := by
  have hqueue : t'.queue = t.queue := congrArg Submission.queue h
  have hname : t'.name = t.name := congrArg Submission.name h
  have hroot : t'.rootId = t.rootId := congrArg Submission.rootId h
  have hcorrelation : t'.correlationId = t.correlationId := congrArg Submission.correlationId h
  simp [ListFilter.accepts, hstatus, hqueue, hname, hroot, hcorrelation]

/-- And so does the order. -/
theorem listOrder_of_submission {t t' u u' : Task J} (ht : t'.submission = t.submission)
    (hu : u'.submission = u.submission) : listOrder t' u' ↔ listOrder t u := by
  have hid : t'.id = t.id := Task.id_of_submission ht
  have hid' : u'.id = u.id := Task.id_of_submission hu
  have hcreated : t'.createdAtMs = t.createdAtMs := congrArg Submission.createdAtMs ht
  have hcreated' : u'.createdAtMs = u.createdAtMs := congrArg Submission.createdAtMs hu
  rw [listOrder, listOrder, hid, hid', hcreated, hcreated']

/-- The step deletes nothing. -/
def DeletesNothing (_ : ProtocolState J) (e : Execution J) : Prop :=
  ∀ olderThanMs queue status name limit, e.statement ≠ .purge olderThanMs queue status name limit

section Walk

variable {d : Dialect} {s s' : ProtocolState J} {es : List (Execution J)} {filter : ListFilter}
  {limit : Nat}

/-- While nothing is deleted, a task stays, as it was submitted. -/
theorem stored_of_steps (hsteps : (protocol d).Steps DeletesNothing s es s') {id : String}
    {t : Task J} (ht : s.db.get id = some t) :
    ∃ t', s'.db.get id = some t' ∧ t'.submission = t.submission := by
  refine hsteps.invariant
    (I := fun u => ∃ t', u.db.get id = some t' ∧ t'.submission = t.submission)
    (fun u e u' h hdeletes hstep => ?_) ⟨t, ht, rfl⟩
  rcases h with ⟨r, hr, hsame⟩
  cases hr' : u'.db.get id with
  | none =>
      rcases get_none_of_step hstep hr hr' with ⟨_, _, _, _, _, hst, -⟩
      exact absurd hst (hdeletes _ _ _ _ _)
  | some r' =>
      refine ⟨r', rfl, ?_⟩
      rcases get_of_step_of_get hstep hr hr' with ⟨rfl, -⟩ | ⟨heff, -⟩
      · exact hsame
      · exact heff.submission_eq.trans hsame

/-- The tasks of the filter that are listed before a task. -/
def listedBefore (filter : ListFilter) (t : Task J) (s : ProtocolState J) : Nat :=
  s.db.tasks.rank filter.accepts listOrder t

/-- A row stands where its submission does. -/
theorem listedBefore_congr (s : ProtocolState J) {t t' : Task J}
    (h : t'.submission = t.submission) : listedBefore filter t' s = listedBefore filter t s := by
  unfold listedBefore KeyedTable.rank
  congr 1
  funext u
  simp only [listOrder_of_submission h (rfl : u.submission = u.submission)]

/-- While nothing is deleted, no task moves up, since those before it stay before it. -/
theorem rank_le_of_steps (hstatus : filter.status = none)
    (hsteps : (protocol d).Steps DeletesNothing s es s') (t : Task J) :
    listedBefore filter t s ≤ listedBefore filter t s' := by
  refine KeyedTable.countP_le_of_keys fun r hr hbefore => ?_
  rcases stored_of_steps hsteps (KeyedTable.find?_of_mem hr) with ⟨r', hr', hsame⟩
  refine ⟨r', (KeyedTable.find?_eq_some_iff.mp hr').1, Task.id_of_submission hsame, ?_⟩
  rw [accepts_of_submission hstatus hsame]
  simpa only [listOrder_of_submission (rfl : t.submission = t.submission) hsame] using hbefore

/-- The task is on a page of the listing. -/
def OnPage (filter : ListFilter) (limit page : Nat) (s : ProtocolState J) (id : String) : Prop :=
  ∃ t, s.db.get id = some t ∧ t ∈ listTasks filter limit (page * limit) s.db

theorem onPage_iff (hstatus : filter.status = none) {page : Nat} {id : String} {t t' : Task J}
    (ht' : s.db.get id = some t') (hsame : t'.submission = t.submission)
    (haccepts : filter.accepts t = true) :
    OnPage filter limit page s id ↔ page * limit ≤ listedBefore filter t s ∧
      listedBefore filter t s < page * limit + limit := by
  have hmem : t' ∈ s.db.tasks.rows := (KeyedTable.find?_eq_some_iff.mp ht').1
  rw [← accepts_of_submission hstatus hsame] at haccepts
  have hpage := KeyedTable.mem_page_iff (separates_listOrder s.db.tasks filter.accepts)
    limit (page * limit) hmem haccepts
  rw [← listedBefore_congr s hsame, listedBefore, ← hpage]
  constructor
  · rintro ⟨r, hr, hon⟩
    rw [ht'] at hr
    cases hr
    exact hon
  · exact fun hon => ⟨t', ht', hon⟩

end Walk

/-! ## A walk through the pages -/

/-- The states in which the pages of a walk are read, one after the other. -/
def Walk (d : Dialect) (s : Nat → ProtocolState J) : Prop :=
  ∀ i, ∃ es, (protocol d).Steps DeletesNothing (s i) es (s (i + 1))

theorem Walk.steps {d : Dialect} {s : Nat → ProtocolState J} (h : Walk d s) {i j : Nat}
    (hij : i ≤ j) : ∃ es, (protocol d).Steps DeletesNothing (s i) es (s j) := by
  induction hij with
  | refl => exact ⟨[], .nil _⟩
  | @step j _ ih =>
      rcases ih with ⟨es, hes⟩
      rcases h j with ⟨es', hes'⟩
      exact ⟨es ++ es', hes.append hes'⟩

/-- A caller reads page after page of a listing that is not filtered by status, while anybody does
anything but purge.  A task that was there at the start is on one of the pages read when a
page comes back that is not full; and where it is on two of them, a task that is listed before
it was submitted in between. -/
theorem pages_cover {d : Dialect} {filter : ListFilter} (hstatus : filter.status = none)
    {s : Nat → ProtocolState J} (hwalk : Walk d s) {id : String} {t : Task J}
    (ht : (s 0).db.get id = some t) (haccepts : filter.accepts t = true) (limit : Nat) :
    (∀ n, (listTasks filter limit (n * limit) (s n).db).length < limit →
      ∃ i ≤ n, OnPage filter limit i (s i) id) ∧
    ∀ i j, i < j → OnPage filter limit i (s i) id → OnPage filter limit j (s j) id →
      ∃ id' t', (s i).db.get id' = none ∧ (s j).db.get id' = some t' ∧
        filter.accepts t' = true ∧ ¬listOrder t t' := by
  have hrow : ∀ i, ∃ t', (s i).db.get id = some t' ∧ t'.submission = t.submission := by
    intro i
    rcases hwalk.steps (Nat.zero_le i) with ⟨es, hes⟩
    exact stored_of_steps hes ht
  have hon : ∀ i, OnPage filter limit i (s i) id ↔ i * limit ≤ listedBefore filter t (s i) ∧
      listedBefore filter t (s i) < i * limit + limit := by
    intro i
    rcases hrow i with ⟨t', ht', hsame⟩
    exact onPage_iff hstatus ht' hsame haccepts
  constructor
  · intro n hshort
    -- as long as it was on no page, the task is past all of them
    have hpast : ∀ i, (∃ j < i, OnPage filter limit j (s j) id) ∨
        i * limit ≤ listedBefore filter t (s i) := by
      intro i
      induction i with
      | zero => exact Or.inr (by simp)
      | succ i ih =>
          rcases ih with ⟨j, hj, hseen⟩ | hle
          · exact Or.inl ⟨j, Nat.lt_succ_of_lt hj, hseen⟩
          · by_cases hlt : listedBefore filter t (s i) < i * limit + limit
            · exact Or.inl ⟨i, Nat.lt_succ_self i, (hon i).mpr ⟨hle, hlt⟩⟩
            · rcases hwalk i with ⟨es, hes⟩
              have hdown := rank_le_of_steps hstatus hes t
              rw [Nat.succ_mul]
              exact Or.inr (by omega)
    rcases hpast n with ⟨j, hj, hseen⟩ | hle
    · exact ⟨j, hj.le, hseen⟩
    · rcases hrow n with ⟨t', ht', hsame⟩
      have hlast := KeyedTable.rank_lt_of_page hshort (KeyedTable.find?_eq_some_iff.mp ht').1
        ((accepts_of_submission hstatus hsame).trans haccepts)
      have hstands : listedBefore filter t' (s n) = listedBefore filter t (s n) :=
        listedBefore_congr (s n) hsame
      rw [listedBefore] at hstands
      exact ⟨n, Nat.le_refl n, (hon n).mpr ⟨hle, hstands ▸ hlast⟩⟩
  · intro i j hij hi hj
    by_contra hnone
    have hup : listedBefore filter t (s j) ≤ listedBefore filter t (s i) := by
      refine KeyedTable.countP_le_of_keys fun r hr hbefore => ?_
      rw [Bool.and_eq_true, Bool.not_eq_true', decide_eq_false_iff_not] at hbefore
      have hget : (s j).db.get r.id = some r := KeyedTable.find?_of_mem hr
      cases hold : (s i).db.get r.id with
      | none => exact absurd ⟨r.id, r, hold, hget, hbefore⟩ hnone
      | some r' =>
          rcases hwalk.steps hij.le with ⟨es, hes⟩
          rcases stored_of_steps hes hold with ⟨r'', hr'', hsame⟩
          rw [hget] at hr''
          cases hr''
          refine ⟨r', (KeyedTable.find?_eq_some_iff.mp hold).1, (Task.id_of_submission hsame).symm,
            ?_⟩
          rw [Bool.and_eq_true, Bool.not_eq_true', decide_eq_false_iff_not,
            ← accepts_of_submission hstatus hsame,
            ← listOrder_of_submission (rfl : t.submission = t.submission) hsame]
          exact hbefore
    have hfirst := ((hon i).mp hi).2
    have hsecond := ((hon j).mp hj).1
    have hpages : (i + 1) * limit ≤ j * limit := Nat.mul_le_mul_right limit hij
    rw [Nat.succ_mul] at hpages
    omega

/-- Two tasks, and a third that is submitted after the first page was read. -/
def growingWalk (i : Nat) : ProtocolState Nat :=
  finalState .sqlite <|
    [.alone 0 (.insertTask (.plain "a" "work" 3 0)),
      .alone 1 (.insertTask (.plain "b" "work" 3 0))] ++
    if i = 0 then [] else [.alone 2 (.insertTask (.plain "c" "work" 3 0))]

/-- Every task of the start is on a page of length one. -/
theorem pages_cover_growingWalk :
    ∃ i ≤ 3, OnPage ⟨none, none, none, none, none⟩ 1 i (growingWalk i) "a" := by
  have hwalk : Walk .sqlite growingWalk := by
    intro i
    cases i with
    | zero =>
        exact ⟨[.alone 2 (.insertTask (.plain "c" "work" 3 0))],
          Machine.Steps.single (fun _ _ _ _ _ h => nomatch h) rfl⟩
    | succ i => exact ⟨[], Machine.Steps.nil _⟩
  exact (pages_cover rfl hwalk rfl rfl 1).1 3 (by decide)

end CairnQ
