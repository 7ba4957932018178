import CairnQ.Protocol.ClaimSession
import CairnQ.Worker.BatchCall

/-!
# When a task may start

A task that is queued with a delay, by its submission or by the failure of an attempt, has a
time before which no claim draws it.  Until that time it is queued or it is over; from that
time on it is drawn in the order of the claims, in which a newcomer never comes first.

Main results:

- Theorem `retryDelayMs_bounds`: the delay of a failed attempt lies in the upper half of its
  window.
- Theorem `delays_honored`: in every run in which nobody forces the task, no worker is handed it
  before its delay is over.
- Theorem `no_overtaking`: in every reachable database, a claim that draws a task draws every
  task before it that it may draw, in particular those that were due when it was submitted.
-/

namespace CairnQ

open Relational Transition

variable {J : Type}

/-! ## Backoff -/

/-- The delay of a failed attempt lies in the upper half of its window. -/
theorem retryDelayMs_bounds (attempt : Int) {baseMs maxMs : Nat} (hbase : 0 < baseMs)
    (hmax : 0 < maxMs) (rand : Fin (2 ^ 53)) :
    retryWindow attempt baseMs maxMs / 2 ≤ retryDelayMs attempt baseMs maxMs rand ∧
      retryDelayMs attempt baseMs maxMs rand < retryWindow attempt baseMs maxMs := by
  have hwindow : 0 < retryWindow attempt baseMs maxMs :=
    Nat.lt_min.mpr ⟨hmax, Nat.mul_pos hbase (Nat.two_pow_pos _)⟩
  have hdelay : retryDelayMs attempt baseMs maxMs rand =
      retryWindow attempt baseMs maxMs / 2 +
        rand.val * (retryWindow attempt baseMs maxMs -
          retryWindow attempt baseMs maxMs / 2) / 2 ^ 53 := by
    rw [retryDelayMs, if_neg (by omega)]
  generalize retryWindow attempt baseMs maxMs = window at hwindow hdelay ⊢
  have hjitter : rand.val * (window - window / 2) / 2 ^ 53 < window - window / 2 :=
    Nat.div_lt_of_lt_mul (Nat.mul_lt_mul_of_pos_right rand.isLt (by omega))
  omega

/-! ## Delays -/

/-- The statement queues the task of that id with a delay. -/
def Statement.Delays (id : String) (delayMs : Int) : Statement J → Prop
  | .insertTask n => n.id = id ∧ n.delayMs = delayMs
  | .owned id' _ (.fail _ retryable delayMs') =>
      id' = id ∧ retryable = true ∧ delayMs' = delayMs
  | _ => False

/-- Nobody has the task run again by hand, or submits another under its id. -/
def Unforced (d : Dialect) (id : String) (s : ProtocolState J) (e : Execution J) : Prop :=
  (∀ resetAttempt, e.statement = .retry id resetAttempt → (e.reply d s.db).names id = false) ∧
    ∀ n, e.statement = .insertTask n → n.id ≠ id

/-- The time has come, or the task is queued for it or for later, or is over. -/
def DueAt (id : String) (dueMs : Int) (s : ProtocolState J) : Prop :=
  dueMs ≤ s.clockMs ∨ ∀ t, s.db.get id = some t →
    (t.status = .queued ∧ dueMs ≤ t.runAtMs) ∨ t.status.isTerminal = true

/-- An effect on a task that waits for its time, or is over. -/
theorem Effect.dueAt {nowMs dueMs : Int} {st : Statement J} {t t' : Task J}
    (heff : Effect nowMs st t t') (hretry : ∀ resetAttempt, st ≠ .retry t.id resetAttempt)
    (hwaits : (t.status = .queued ∧ dueMs ≤ t.runAtMs) ∨ t.status.isTerminal = true) :
    dueMs ≤ nowMs ∨ t'.status.isTerminal = true := by
  have hnot : t.status ≠ .running := by
    rcases hwaits with ⟨hqueued, -⟩ | hover
    · rw [hqueued]
      decide
    · intro hrunning
      rw [hrunning] at hover
      cases hover
  cases heff with
  | claimed hclaimable =>
      left
      rcases hwaits with ⟨-, hdue⟩ | hover
      · exact le_trans hdue hclaimable.2.2.2
      · rw [hclaimable.1] at hover
        cases hover
  | recovered hexpired => exact absurd hexpired.1 hnot
  | written howned => exact absurd howned.1 hnot
  | renewed _ howned => exact absurd howned.1 hnot
  | canceled hlive =>
      right
      have hqueued := hlive.resolve_right hnot
      simp [setCancel, hqueued, TaskStatus.isTerminal]
  | retried _ => exact absurd rfl (hretry _)

theorem DueAt.of_step {d : Dialect} {id : String} {dueMs : Int} {s s' : ProtocolState J}
    {e : Execution J} (hdue : DueAt id dueMs s) (hunforced : Unforced d id s e)
    (hstep : protocol d s e = some s') : DueAt id dueMs s' := by
  rcases protocol_eq_some_iff.mp hstep with ⟨hclock, hs'⟩
  have hnow : s'.clockMs = e.nowMs := by rw [hs']
  rcases hdue with hcome | hwaits
  · exact Or.inl (by omega)
  · by_cases hcome : dueMs ≤ e.nowMs
    · exact Or.inl (by omega)
    · refine Or.inr fun t' ht' => ?_
      rcases get_of_step hstep ht' with ⟨hsame, -⟩ | ⟨t, ht, heff, hnames⟩ | ⟨-, hins, -⟩
      · exact hwaits t' hsame
      · have hretry : ∀ resetAttempt, e.statement ≠ .retry t.id resetAttempt := by
          intro resetAttempt hst
          rw [Database.id_of_get ht] at hst
          rw [hunforced.1 resetAttempt hst] at hnames
          cases hnames
        exact Or.inr ((heff.dueAt hretry (hwaits t ht)).resolve_left hcome)
      · rcases hins with ⟨n, hst, rfl⟩
        exact absurd (Database.id_of_get ht') (hunforced.2 n hst)

/-- A statement that queues a task with a delay leaves it due when the delay is over. -/
theorem DueAt.of_delays {d : Dialect} {id : String} {delayMs : Int} {s s' : ProtocolState J}
    {e : Execution J} (hdelays : e.statement.Delays id delayMs)
    (hstep : protocol d s e = some s') (hnames : (e.reply d s.db).names id = true) :
    DueAt id (e.nowMs + delayMs) s' := by
  refine Or.inr fun t' ht' => ?_
  rcases get_of_step hstep ht' with ⟨-, hunnamed⟩ | ⟨t, ht, heff, -⟩ | ⟨-, hins, -⟩
  · rw [hnames] at hunnamed
    cases hunnamed
  · generalize e.statement = st at hdelays heff
    cases heff with
    | @written workerId write t howned =>
        cases write with
        | fail error retryable delayMs' =>
            rcases hdelays with ⟨-, rfl, rfl⟩
            by_cases hcancel : t.cancelRequestedAtMs.isSome = true
            · exact Or.inr (by simp [OwnedWrite.setList, setFail, hcancel, TaskStatus.isTerminal])
            · by_cases hleft : t.attempt < t.maxAttempts
              · left
                have hnone : t.cancelRequestedAtMs = none := by simpa using hcancel
                simp [OwnedWrite.setList, setFail, failRequeues, hnone, hleft]
              · right
                simp [OwnedWrite.setList, setFail, hcancel, hleft, TaskStatus.isTerminal]
        | heartbeat | progress | complete | succeed => exact hdelays.elim
    | claimed _ | recovered _ | renewed _ _ | canceled _ | retried _ => exact hdelays.elim
  · rcases hins with ⟨n, hst, rfl⟩
    rw [hst] at hdelays
    left
    exact ⟨rfl, by rw [← hdelays.2]; exact le_refl _⟩

/-- Before the time has come no claim draws the task. -/
theorem DueAt.le_of_claimed {d : Dialect} {id : String} {dueMs : Int} {s s' : ProtocolState J}
    {e : Execution J} (hdue : DueAt id dueMs s) (hstep : protocol d s e = some s')
    {filter : ClaimFilter} {workerId : String} {leaseMs limit : Int}
    (hst : e.statement = .claim filter workerId leaseMs limit)
    (hnames : (e.reply d s.db).names id = true) : dueMs ≤ e.nowMs := by
  have hclock := (protocol_eq_some_iff.mp hstep).1
  rcases hdue with hcome | hwaits
  · omega
  · rw [Execution.reply, exec_eq, hst, Postgres.exec_names _ _ _ rfl] at hnames
    rcases hnames with ⟨t, ht, hsel⟩
    have heff := Statement.effect_of_selects ht hsel
    rcases heff.dueAt (fun _ h => by cases h) (hwaits t ht) with hcome | hover
    · exact hcome
    · cases hover

/-- Whoever is handed a task that was queued with a delay is handed it when the delay is over, if
nobody forced it in between; for the delay of a failed attempt this is half of its window at
least. -/
theorem delays_honored {d : Dialect} {id : String} {delayMs : Int} {s s₀ s₁ s' : ProtocolState J}
    {e₀ e : Execution J} {es : List (Execution J)} (hdelays : e₀.statement.Delays id delayMs)
    (hstep₀ : protocol d s e₀ = some s₀) (hnames₀ : (e₀.reply d s.db).names id = true)
    (hsteps : (protocol d).Steps (Unforced d id) s₀ es s₁) (hstep : protocol d s₁ e = some s')
    {filter : ClaimFilter} {workerId : String} {leaseMs limit : Int}
    (hst : e.statement = .claim filter workerId leaseMs limit)
    (hnames : (e.reply d s₁.db).names id = true) :
    e₀.nowMs + delayMs ≤ e.nowMs ∧
      ∀ attempt baseMs maxMs rand, 0 < baseMs → 0 < maxMs →
        delayMs = failDelayMs attempt true baseMs maxMs rand →
          e₀.nowMs + (retryWindow attempt baseMs maxMs / 2 : Nat) ≤ e.nowMs := by
  have hdue : DueAt id (e₀.nowMs + delayMs) s₁ :=
    hsteps.invariant (fun _ _ _ hdue hunforced hstep => hdue.of_step hunforced hstep)
      (DueAt.of_delays hdelays hstep₀ hnames₀)
  have hover : e₀.nowMs + delayMs ≤ e.nowMs := hdue.le_of_claimed hstep hst hnames
  refine ⟨hover, fun attempt baseMs maxMs rand hbase hmax hdelay => ?_⟩
  have hbounds := retryDelayMs_bounds attempt hbase hmax rand
  have heq : delayMs = retryDelayMs attempt baseMs maxMs rand := by
    rw [hdelay, failDelayMs, if_pos rfl]
  omega

/-- A worker fails its task, which is queued again with a delay; somebody sweeps meanwhile. -/
def refailingRun : List (Execution Nat) :=
  [.alone 0 (.insertTask (.plain "t" "work" 3 0)),
    .alone 1 (.claim (.claimOneQueue "default" none) "w" 10 1),
    .alone 3 (.owned "t" "w" (.fail 9 true 7)),
    .alone 4 (.recoverLeases 8)]

/-- The task is drawn at 12, and not before 10. -/
theorem delays_honored_refailingRun :
    ((Execution.alone 12 (.claim (.claimOneQueue "default" none) "w" 10 1)).reply .sqlite
      (finalState .sqlite refailingRun).db).names "t" = true ∧ (3 : Int) + 7 ≤ 12 := by
  have hsteps : (protocol .sqlite).Steps (Unforced .sqlite "t")
      (finalState .sqlite (refailingRun.take 3)) [.alone 4 (.recoverLeases 8)]
      (finalState .sqlite refailingRun) :=
    Machine.Steps.single ⟨(fun _ h => nomatch h), (fun _ h => nomatch h)⟩ rfl
  have hstep₀ : protocol .sqlite (finalState .sqlite (refailingRun.take 2))
      (.alone 3 (.owned "t" "w" (.fail 9 true 7))) =
        some (finalState .sqlite (refailingRun.take 3)) := rfl
  have hdelays : (Statement.owned (J := Nat) "t" "w" (.fail 9 true 7)).Delays "t" 7 :=
    ⟨rfl, rfl, rfl⟩
  have hhonored := delays_honored hdelays hstep₀ rfl hsteps
    (e := .alone 12 (.claim (.claimOneQueue "default" none) "w" 10 1)) rfl rfl rfl
  exact ⟨rfl, hhonored.1⟩

/-! ## The order of the claims -/

/-- Delays are not negative, as `submit` and `retry_delay_ms` see to. -/
def DelaysForward (_ : ProtocolState J) (e : Execution J) : Prop :=
  ∀ id delayMs, e.statement.Delays id delayMs → 0 ≤ delayMs

/-- A row is due at its creation or later, and was created. -/
def CreatedBefore (nowMs : Int) (t : Task J) : Prop :=
  t.createdAtMs ≤ nowMs ∧ t.createdAtMs ≤ t.runAtMs

theorem Effect.createdBefore {nowMs : Int} {st : Statement J} {t t' : Task J}
    (heff : Effect nowMs st t t') (hforward : ∀ delayMs, st.Delays t.id delayMs → 0 ≤ delayMs)
    (hcreated : CreatedBefore nowMs t) : CreatedBefore nowMs t' := by
  rcases hcreated with ⟨hnow, hrun⟩
  cases heff with
  | claimed _ | renewed _ _ | canceled _ => exact ⟨hnow, hrun⟩
  | retried _ => exact ⟨hnow, hnow⟩
  | @recovered error t hexpired =>
      refine ⟨hnow, ?_⟩
      show t.createdAtMs ≤ if recoverRequeues t then nowMs else t.runAtMs
      split
      · exact hnow
      · exact hrun
  | @written workerId write t howned =>
      cases write with
      | heartbeat | progress | complete | succeed => exact ⟨hnow, hrun⟩
      | fail error retryable delayMs =>
          refine ⟨hnow, ?_⟩
          show t.createdAtMs ≤ if failRequeues retryable t then nowMs + delayMs else t.runAtMs
          split
          · next hrequeues =>
            have hretryable : retryable = true := by
              rw [failRequeues, Bool.and_eq_true, Bool.and_eq_true] at hrequeues
              exact hrequeues.1.2
            have hdelay := hforward delayMs ⟨rfl, hretryable, rfl⟩
            omega
          · exact hrun

theorem createdBefore_of_reachable {d : Dialect} {clockMs : Int} {s : ProtocolState J}
    (hreach : (protocol d).Reachable DelaysForward (ProtocolState.fresh clockMs) s) :
    ∀ id t, s.db.get id = some t → CreatedBefore s.clockMs t := by
  refine hreach.invariant
    (I := fun s => ∀ id t, s.db.get id = some t → CreatedBefore s.clockMs t) ?_ ?_
  · intro s e s' hrows hforward hstep id t' ht'
    rcases protocol_eq_some_iff.mp hstep with ⟨hclock, hs'⟩
    have hnow : s'.clockMs = e.nowMs := by rw [hs']
    rw [hnow]
    have hlater : ∀ id t, s.db.get id = some t → CreatedBefore e.nowMs t := fun id t ht =>
      ⟨le_trans (hrows id t ht).1 hclock, (hrows id t ht).2⟩
    rcases get_of_step hstep ht' with ⟨hsame, -⟩ | ⟨t, ht, heff, -⟩ | ⟨-, hins, -⟩
    · exact hlater id t' hsame
    · exact heff.createdBefore (fun delayMs => hforward t.id delayMs) (hlater id t ht)
    · rcases hins with ⟨n, hst, rfl⟩
      have hdelay := hforward n.id n.delayMs (by rw [hst]; exact ⟨rfl, rfl⟩)
      refine ⟨le_refl _, ?_⟩
      show e.nowMs ≤ e.nowMs + n.delayMs
      omega
  · intro id t ht
    cases ht

/-- A claim that draws a task draws every task that it may draw and that comes before it; a task
that was due when another was submitted, and is not of lower priority, comes before it. -/
theorem no_overtaking {d : Dialect} {clockMs : Int} {s : ProtocolState J} {e : Execution J}
    (hreach : (protocol d).Reachable DelaysForward (ProtocolState.fresh clockMs) s)
    {filter : ClaimFilter} {workerId : String} {leaseMs limit : Int}
    (hst : e.statement = .claim filter workerId leaseMs limit)
    {a b : Task J} (ha : s.db.get a.id = some a) (hb : s.db.get b.id = some b)
    (hclaimable : Claimable filter e.nowMs a) (hfree : d.locked e.held a.id = false)
    (hnames : (e.reply d s.db).names b.id = true)
    (hbefore : ¬claimOrder b a ∨ (b.priority ≤ a.priority ∧ a.runAtMs < b.createdAtMs)) :
    (e.reply d s.db).names a.id = true := by
  have hfirst : ¬claimOrder b a := by
    refine hbefore.elim id fun ⟨hpriority, hdue⟩ hle => ?_
    have hcreated := (createdBefore_of_reachable hreach b.id b hb).2
    rcases hle with hlt | ⟨-, hrun | ⟨hrun, -⟩⟩
    · omega
    · omega
    · omega
  rw [Execution.reply, exec_eq, hst, Postgres.exec_names _ _ _ rfl] at hnames ⊢
  rcases hnames with ⟨t, ht, hsel⟩
  have htb : t = b := by
    rw [hb] at ht
    exact (Option.some.inj ht).symm
  refine ⟨a, ha, ?_⟩
  rw [htb] at hsel
  have heligible : (claimable filter.queueOk filter.nameOk e.nowMs a &&
      !d.locked e.held a.id) = true := by
    rw [hfree, Bool.not_false, Bool.and_true]
    exact claimable_iff.mpr hclaimable
  exact decide_eq_true (KeyedTable.mem_selectKeys_of_before
    (KeyedTable.find?_eq_some_iff.mp hb).1 (of_decide_eq_true hsel)
    (KeyedTable.find?_eq_some_iff.mp ha).1 heligible hfirst)

/-- Two submissions, one after the other. -/
def secondComerRun : List (Execution Nat) :=
  [.alone 0 (.insertTask (.plain "a" "work" 3 0)), .alone 1 (.insertTask (.plain "b" "work" 3 0))]

/-- A claim that draws the second task draws the first. -/
theorem no_overtaking_secondComerRun :
    ((Execution.alone 5 (.claim (.claimOneQueue "default" none) "w" 10 2)).reply .sqlite
      (finalState .sqlite secondComerRun).db).names "a" = true := by
  have hreach : (protocol .sqlite).Reachable DelaysForward (ProtocolState.fresh 0)
      (finalState .sqlite secondComerRun) := by
    refine Machine.reachable_drive _ _ _ fun e he _ id delayMs hdelays => ?_
    simp only [secondComerRun, List.mem_cons, List.not_mem_nil, or_false] at he
    rcases he with rfl | rfl <;> exact le_of_eq hdelays.2
  exact no_overtaking hreach
    (e := .alone 5 (.claim (.claimOneQueue "default" none) "w" 10 2)) rfl
    (a := (NewTask.plain "a" "work" 3 0).row 0 0) (b := (NewTask.plain "b" "work" 3 0).row 1 1)
    rfl rfl ⟨rfl, rfl, rfl, by decide⟩ rfl rfl (Or.inr ⟨le_refl _, by decide⟩)

end CairnQ
