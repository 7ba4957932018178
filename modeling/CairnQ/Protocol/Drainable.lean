import CairnQ.Protocol.ClaimSession
import CairnQ.Protocol.RowInvariants

/-!
# Nothing gets stuck

Whatever a run has left behind, crashed workers included, one worker that comes late enough
ends every task it may draw: it recovers the leases that have run out, claims, and completes
what it was handed.

Main results:

- Theorem `le_horizon`: late enough is a time after every due time and every lease.
- Theorem `drainable`: from every reachable database that worker's statements lead to one in
  which all of its tasks are over, each as the state it was left in decides.
-/

namespace CairnQ

open Relational Transition

variable {J : Type}

/-! ## Late enough -/

/-- A time after which every queued task is due and every lease has run out. -/
def horizon (s : ProtocolState J) : Int :=
  (s.db.tasks.rows.map fun t => max t.runAtMs (t.leaseUntilMs.getD t.runAtMs)).foldr max s.clockMs

theorem le_foldr_max {base : Int} {l : List Int} :
    base ≤ l.foldr max base ∧ ∀ n ∈ l, n ≤ l.foldr max base := by
  induction l with
  | nil => exact ⟨le_refl base, fun n hn => (by cases hn)⟩
  | cons a l ih =>
      refine ⟨le_trans ih.1 (le_max_right _ _), fun n hn => ?_⟩
      rcases List.mem_cons.mp hn with rfl | hrest
      · exact le_max_left _ _
      · exact le_trans (ih.2 n hrest) (le_max_right _ _)

theorem clockMs_le_horizon (s : ProtocolState J) : s.clockMs ≤ horizon s :=
  le_foldr_max.1

theorem le_horizon {s : ProtocolState J} {id : String} {t : Task J} (ht : s.db.get id = some t) :
    t.runAtMs ≤ horizon s ∧ ∀ u, t.leaseUntilMs = some u → u ≤ horizon s := by
  have hmem := (KeyedTable.find?_eq_some_iff.mp ht).1
  have hle : max t.runAtMs (t.leaseUntilMs.getD t.runAtMs) ≤ horizon s :=
    le_foldr_max.2 _ (List.mem_map_of_mem hmem)
  refine ⟨le_trans (le_max_left _ _) hle, fun u hu => le_trans ?_ hle⟩
  rw [hu]
  exact le_max_right _ _

/-! ## What the worker's statements do to a row -/

/-- A row after a statement that nobody disturbs. -/
theorem get_exec_alone {d : Dialect} {nowMs : Int} {st : Statement J} (db : Database J)
    (hst : st.updates = true) (id : String) :
    (exec d unlocked nowMs st db).1.get id = (db.get id).map fun t =>
      if st.selects unlocked nowMs db t then (st.assigns nowMs).set t else t := by
  have hlocked : d.locked unlocked = unlocked := by
    cases d <;> rfl
  rw [exec_eq, hlocked]
  exact Postgres.exec_get_update unlocked nowMs db hst id

/-- A recovery of all leases. -/
def recovered (error : J) (nowMs : Int) (t : Task J) : Task J :=
  if leaseExpired nowMs t then (setRecover error nowMs).set t else t

/-- A claim of everything the filter lets through. -/
def drawn (filter : ClaimFilter) (workerId : String) (nowMs : Int) (t : Task J) : Task J :=
  if claimable filter.queueOk filter.nameOk nowMs t then
    (setClaim workerId (nowMs + 1) nowMs).set t
  else t

/-- A completion by the worker. -/
def completed (workerId : String) (result : Option J) (nowMs : Int) (t : Task J) : Task J :=
  if owned workerId nowMs t then (setComplete result nowMs).set t else t

theorem get_recovered {d : Dialect} {nowMs : Int} (error : J) (db : Database J) (id : String) :
    (exec d unlocked nowMs (.recoverLeases error) db).1.get id =
      (db.get id).map (recovered error nowMs) :=
  get_recoverLeases d nowMs error db id

/-- A limit that covers the table draws everything that may be drawn. -/
theorem get_drawn {d : Dialect} {nowMs : Int} (filter : ClaimFilter) (workerId : String)
    (db : Database J) {limit : Int} (hlimit : (db.tasks.rows.length : Int) ≤ limit) (id : String) :
    (exec d unlocked nowMs (.claim filter workerId 1 limit) db).1.get id =
      (db.get id).map (drawn filter workerId nowMs) := by
  rw [get_exec_alone db rfl]
  cases hget : db.get id with
  | none => rfl
  | some t =>
      have hmem := (KeyedTable.find?_eq_some_iff.mp hget).1
      have hselected : t.id ∈ db.tasks.selectKeys
            (fun t => claimable filter.queueOk filter.nameOk nowMs t && !unlocked t.id)
            claimOrder limit ↔
          (claimable filter.queueOk filter.nameOk nowMs t && !unlocked t.id) = true :=
        KeyedTable.mem_selectKeys_iff_of_le (le_trans (Int.ofNat_le.mpr List.countP_le_length) hlimit) hmem
      have hselects : (Statement.claim filter workerId 1 limit).selects unlocked nowMs db t =
          claimable filter.queueOk filter.nameOk nowMs t := by
        rw [Bool.eq_iff_iff, Statement.selects, decide_eq_true_eq, hselected]
        simp [unlocked]
      rw [Option.map_some, Option.map_some, hselects]
      rfl

theorem get_completed {d : Dialect} {nowMs : Int} (workerId : String) (result : Option J)
    (db : Database J) (id id' : String) :
    (exec d unlocked nowMs (.owned id' workerId (.complete result)) db).1.get id =
      (db.get id).map fun t => if id = id' then completed workerId result nowMs t else t := by
  rw [get_exec_alone db rfl]
  cases hget : db.get id with
  | none => rfl
  | some t =>
      have hid := Database.id_of_get hget
      by_cases hsame : id = id'
      · simp [Statement.selects, Statement.assigns, completed, OwnedWrite.setList, hid, hsame]
      · simp [Statement.selects, hid, hsame]

/-- A row that was completed is not owned any more. -/
theorem completed_completed (workerId : String) (result : Option J) (nowMs : Int) (t : Task J) :
    completed workerId result nowMs (completed workerId result nowMs t) =
      completed workerId result nowMs t := by
  have hover : owned workerId nowMs ((setComplete result nowMs).set t) = false := by
    simp [owned, setComplete]
  by_cases howned : owned workerId nowMs t = true
  · simp [completed, howned, hover]
  · simp [completed, howned]

/-! ## The worker's run -/

/-- One completion after another. -/
def completions (workerId : String) (result : Option J) (nowMs : Int) (ids : List String) :
    List (Execution J) :=
  ids.map fun id => .alone nowMs (.owned id workerId (.complete result))

/-- The statements of a worker that draws what it may and completes it. -/
def drainRun (filter : ClaimFilter) (workerId : String) (leaseExpiredError : J)
    (result : Option J) (s : ProtocolState J) : List (Execution J) :=
  .alone (horizon s) (.recoverLeases leaseExpiredError) ::
    .alone (horizon s) (.claim filter workerId 1 s.db.tasks.rows.length) ::
      completions workerId result (horizon s) (s.db.tasks.rows.map Task.id)

/-- A statement at the clock's last reading is enabled. -/
theorem protocol_alone {d : Dialect} {s : ProtocolState J} {nowMs : Int} (h : s.clockMs ≤ nowMs)
    (st : Statement J) : protocol d s (.alone nowMs st) =
      some { clockMs := nowMs, db := (exec d unlocked nowMs st s.db).1 } := by
  have henabled : s.clockMs ≤ (Execution.alone nowMs st).nowMs := h
  rw [protocol, if_pos henabled]
  rfl

theorem run_completions {d : Dialect} (workerId : String) (result : Option J) {nowMs : Int}
    (ids : List String) {s : ProtocolState J} (hclock : s.clockMs ≤ nowMs) :
    ∃ s', (protocol d).run s (completions workerId result nowMs ids) = some s' ∧
      s'.clockMs ≤ nowMs ∧ ∀ id, s'.db.get id = (s.db.get id).map fun t =>
        if id ∈ ids then completed workerId result nowMs t else t := by
  induction ids generalizing s with
  | nil => exact ⟨s, rfl, hclock, fun id => by simp⟩
  | cons id ids ih =>
      rcases ih (s := ⟨nowMs, (exec d unlocked nowMs
        (.owned id workerId (.complete result)) s.db).1⟩) (le_refl _) with ⟨s', hrun, hlast, hget⟩
      refine ⟨s', ?_, hlast, fun id' => ?_⟩
      · rw [completions, List.map_cons, Machine.run, protocol_alone hclock]
        exact hrun
      · rw [hget id', get_completed, Option.map_map]
        refine congrArg (Option.map · _) (funext fun t => ?_)
        by_cases hhead : id' = id
        · by_cases hrest : id' ∈ ids
          · simp [hhead, hhead ▸ hrest, completed_completed]
          · simp [hhead, hhead ▸ hrest]
        · simp [hhead]

/-- What becomes of a row. -/
def drained (filter : ClaimFilter) (workerId : String) (leaseExpiredError : J)
    (result : Option J) (nowMs : Int) (t : Task J) : Task J :=
  completed workerId result nowMs
    (drawn filter workerId nowMs (recovered leaseExpiredError nowMs t))

theorem run_drainRun {d : Dialect} (filter : ClaimFilter) (workerId : String)
    (leaseExpiredError : J) (result : Option J) (s : ProtocolState J) :
    ∃ s', (protocol d).run s (drainRun filter workerId leaseExpiredError result s) = some s' ∧
      ∀ id, s'.db.get id =
        (s.db.get id).map (drained filter workerId leaseExpiredError result (horizon s)) := by
  have hlength : (exec d unlocked (horizon s) (.recoverLeases leaseExpiredError)
      s.db).1.tasks.rows.length = s.db.tasks.rows.length := by
    rw [exec_recoverLeases]
    exact List.length_map ..
  rcases run_completions (d := d) workerId result (s.db.tasks.rows.map Task.id)
    (s := ⟨horizon s, (exec d unlocked (horizon s)
      (.claim filter workerId 1 s.db.tasks.rows.length)
      (exec d unlocked (horizon s) (.recoverLeases leaseExpiredError) s.db).1).1⟩)
    (le_refl (horizon s)) with ⟨s', hrun, -, hget⟩
  refine ⟨s', ?_, fun id => ?_⟩
  · rw [drainRun, Machine.run, protocol_alone (clockMs_le_horizon s), Option.bind_some,
      Machine.run, protocol_alone (le_refl _)]
    exact hrun
  · rw [hget id, get_drawn filter workerId _ (le_of_eq (by rw [hlength])), get_recovered]
    cases hfound : s.db.get id with
    | none => rfl
    | some t =>
        have hmem : id ∈ s.db.tasks.rows.map Task.id :=
          List.mem_map.mpr ⟨t, (KeyedTable.find?_eq_some_iff.mp hfound).1,
            Database.id_of_get hfound⟩
        simp only [Option.map_some, if_pos hmem]
        rfl

/-! ## Where every task ends -/

/-- How a task ends that a late worker may draw, as its row decides: a delivery that is left
succeeds, a requested cancel is carried out, and a last lease that ran out is a failure. -/
def Task.fate (t : Task J) : TaskStatus :=
  match t.status with
  | .queued => .succeeded
  | .running =>
      if t.cancelRequestedAtMs.isSome then .canceled
      else if t.attempt < t.maxAttempts then .succeeded
      else .failed
  | status => status

/-- A queued task that is due is drawn and completed. -/
theorem completed_drawn {filter : ClaimFilter} (workerId : String) (result : Option J)
    {nowMs : Int} {t : Task J} (hclaimable : Claimable filter nowMs t)
    (hcancel : t.cancelRequestedAtMs = none) :
    let t' := completed workerId result nowMs (drawn filter workerId nowMs t)
    t'.status = .succeeded ∧ t'.result = result ∧ t'.attempt = t.attempt + 1 := by
  rw [drawn, if_pos (claimable_iff.mpr hclaimable)]
  have howned : owned workerId nowMs ((setClaim workerId (nowMs + 1) nowMs).set t) = true :=
    owned_iff.mpr ⟨rfl, rfl, nowMs + 1, rfl, by omega⟩
  rw [completed, if_pos howned]
  simp [setComplete, setClaim, hcancel]

theorem TaskStatus.live_ne_of_isTerminal {status : TaskStatus} (h : status.isTerminal = true) :
    status ≠ .queued ∧ status ≠ .running := by
  cases status <;> simp_all [TaskStatus.isTerminal]

/-- A task that is over is neither drawn nor completed. -/
theorem completed_drawn_of_terminal (filter : ClaimFilter) (workerId : String)
    (result : Option J) (nowMs : Int) {t : Task J} (hterminal : t.status.isTerminal = true) :
    completed workerId result nowMs (drawn filter workerId nowMs t) = t := by
  rcases TaskStatus.live_ne_of_isTerminal hterminal with ⟨hqueued, hrunning⟩
  simp [drawn, claimable, completed, owned, hqueued, hrunning]

theorem drained_of_terminal (filter : ClaimFilter) (workerId : String) (leaseExpiredError : J)
    (result : Option J) (nowMs : Int) {t : Task J} (hterminal : t.status.isTerminal = true) :
    drained filter workerId leaseExpiredError result nowMs t = t := by
  have hrunning := (TaskStatus.live_ne_of_isTerminal hterminal).2
  have hkept : recovered leaseExpiredError nowMs t = t := by
    simp [recovered, leaseExpired, hrunning]
  rw [drained, hkept]
  exact completed_drawn_of_terminal filter workerId result nowMs hterminal

/-- What becomes of a row that the worker may draw. -/
theorem drained_spec {filter : ClaimFilter} (workerId : String) (leaseExpiredError : J)
    (result : Option J) {nowMs : Int} {t : Task J} (hsound : t.Sound)
    (hdue : t.runAtMs ≤ nowMs) (hlease : ∀ u, t.leaseUntilMs = some u → u ≤ nowMs)
    (hqueue : filter.queueOk t.queue = true) (hname : filter.nameOk t.name = true) :
    let t' := drained filter workerId leaseExpiredError result nowMs t
    t'.status = t.fate ∧ (t.status.isTerminal = false → t.fate = .succeeded →
      t'.result = result ∧ t'.attempt = t.attempt + 1) := by
  cases hstatus : t.status with
  | queued =>
      have hnot : leaseExpired nowMs t = false := by simp [leaseExpired, hstatus]
      have hdrained := completed_drawn workerId result
        ⟨hstatus, hqueue, hname, hdue⟩ (hsound.queued hstatus).2.2.2.1
      simp only [drained, recovered, hnot, Task.fate, hstatus]
      exact ⟨hdrained.1, fun _ _ => hdrained.2⟩
  | running =>
      -- its lease has run out
      rcases Option.isSome_iff_exists.mp (hsound.lease.mpr hstatus) with ⟨u, hu⟩
      have hexpired : leaseExpired nowMs t = true :=
        leaseExpired_iff.mpr ⟨hstatus, u, hu, hlease u hu⟩
      simp only [drained, recovered, hexpired, if_true, Task.fate, hstatus]
      by_cases hcancel : t.cancelRequestedAtMs.isSome = true
      · have hover : ((setRecover leaseExpiredError nowMs).set t).status = .canceled := by
          simp [setRecover, hcancel]
        rw [completed_drawn_of_terminal filter workerId result nowMs (by rw [hover]; rfl), hover]
        simp [hcancel]
      · have hnone : t.cancelRequestedAtMs = none := by simpa using hcancel
        by_cases hleft : t.attempt < t.maxAttempts
        · have hagain : Claimable filter nowMs ((setRecover leaseExpiredError nowMs).set t) := by
            refine ⟨?_, hqueue, hname, ?_⟩ <;> simp [setRecover, recoverRequeues, hnone, hleft]
          have hdrained := completed_drawn workerId result hagain hnone
          simp only [hnone, hleft]
          exact ⟨hdrained.1, fun _ _ => hdrained.2⟩
        · have hover : ((setRecover leaseExpiredError nowMs).set t).status = .failed := by
            simp [setRecover, hnone, hleft]
          rw [completed_drawn_of_terminal filter workerId result nowMs (by rw [hover]; rfl), hover]
          simp [hnone, hleft]
  | succeeded | failed | canceled =>
      have hterminal : t.status.isTerminal = true := by
        rw [hstatus]
        rfl
      simp only [drained_of_terminal filter workerId leaseExpiredError result nowMs hterminal]
      simp [Task.fate, hstatus, TaskStatus.isTerminal]

/-- From every reachable database one late worker ends every task that it may draw: its run is
as long as the table and two statements, adds no task and loses none, leaves what is over
alone, and ends each live task as its row decides. -/
theorem drainable {d : Dialect} {clockMs : Int} {s : ProtocolState J}
    (hreach : (protocol d).Reachable anyStep (ProtocolState.fresh clockMs) s)
    (filter : ClaimFilter) (workerId : String) (leaseExpiredError : J) (result : Option J) :
    (drainRun filter workerId leaseExpiredError result s).length = s.db.tasks.rows.length + 2 ∧
      ∃ s', (protocol d).run s (drainRun filter workerId leaseExpiredError result s) = some s' ∧
        (∀ id, (s'.db.get id).isSome = (s.db.get id).isSome) ∧
        ∀ id t t', s.db.get id = some t → s'.db.get id = some t' →
          (t.status.isTerminal = true → t' = t) ∧
            (filter.queueOk t.queue = true → filter.nameOk t.name = true →
              t'.status = t.fate ∧ t'.status.isTerminal = true ∧
                (t.status.isTerminal = false → t.fate = .succeeded →
                  t'.result = result ∧ t'.attempt = t.attempt + 1)) := by
  refine ⟨by simp [drainRun, completions], ?_⟩
  rcases run_drainRun (d := d) filter workerId leaseExpiredError result s with ⟨s', hrun, hget⟩
  refine ⟨s', hrun, fun id => by rw [hget, Option.isSome_map], fun id t t' ht ht' => ?_⟩
  rw [hget, ht, Option.map_some, Option.some.injEq] at ht'
  subst ht'
  refine ⟨drained_of_terminal filter workerId leaseExpiredError result _, fun hqueue hname => ?_⟩
  have hlate := le_horizon ht
  have hspec := drained_spec workerId leaseExpiredError result
    (reachable_sound hreach id t ht) hlate.1 hlate.2 hqueue hname
  refine ⟨hspec.1, ?_, hspec.2⟩
  rw [hspec.1]
  unfold Task.fate
  split
  · rfl
  · split
    · rfl
    · split <;> rfl
  · next hqueued hrunning =>
    cases hstatus : t.status with
    | queued => exact absurd hstatus hqueued
    | running => exact absurd hstatus hrunning
    | succeeded | failed | canceled => rfl

/-- A worker crashed on its last attempt, another was asked to cancel, and a task waits. -/
def strandedRun : List (Execution Nat) :=
  [.alone 0 (.insertTask (.plain "a" "work" 1 0)), .alone 0 (.insertTask (.plain "b" "work" 3 0)),
    .alone 1 (.claim (.claimOneQueue "default" none) "v" 10 2), .alone 2 (.cancel "b"),
    .alone 3 (.insertTask (.plain "c" "work" 3 0))]

/-- One worker ends all three, each in its own way. -/
theorem drainable_strandedRun :
    ∃ s', (protocol .sqlite).run (finalState .sqlite strandedRun)
        (drainRun (.claimOneQueue "default" none) "w" 8 (some 5)
          (finalState .sqlite strandedRun)) = some s' ∧
      (∀ t', s'.db.get "a" = some t' → t'.status = .failed) ∧
      (∀ t', s'.db.get "b" = some t' → t'.status = .canceled) ∧
      ∀ t', s'.db.get "c" = some t' → t'.status = .succeeded := by
  rcases (drainable (reachable_finalState .sqlite strandedRun) (.claimOneQueue "default" none) "w" 8
    (some 5)).2 with ⟨s', hrun, -, hends⟩
  exact ⟨s', hrun, fun t' ht' => ((hends "a" _ t' rfl ht').2 rfl rfl).1,
    fun t' ht' => ((hends "b" _ t' rfl ht').2 rfl rfl).1,
    fun t' ht' => ((hends "c" _ t' rfl ht').2 rfl rfl).1⟩

end CairnQ
