import CairnQ.Protocol.ClaimSession
import CairnQ.Relational.BoundedUpdate
import Mathlib.Algebra.Ring.Int.Defs

/-!
# Statements that stand for several

A worker may split a claim into draws, and one heartbeat renews the leases of a whole call.  Both
are as if the parts had been executed one after the other.

Main results:

- Theorem `draws_compose`: the draws of a session under one filter claim what one draw would.
- Theorem `heartbeats_compose`: a shared heartbeat renews what single heartbeats would, and tells
  each task what its own would have told it.
-/

namespace CairnQ

open Relational

variable {J : Type}

/-! ## Draws -/

/-- Draws of one filter, one after the other: the database they leave and the tasks they
return. -/
def claimDraws (d : Dialect) (held : String → Bool) (nowMs : Int) (input : SessionInput)
    (drawNames : Option (List String)) : List Int → Database J → Database J × List (Task J)
  | [], db => (db, [])
  | limit :: limits, db =>
      let first := claimDraw d held nowMs input drawNames limit db
      let rest := claimDraws d held nowMs input drawNames limits first.1
      (rest.1, first.2 ++ rest.2)

/-- Two draws under one condition, which a claimed task does not meet. -/
theorem drawClaim_drawClaim {eligible : Task J → Bool} (workerId : String)
    (leaseUntilMs nowMs : Int) {m n : Int} (hm : 0 ≤ m) (hn : 0 ≤ n)
    (hqueued : ∀ t, eligible t = true → t.status = .queued) (db : Database J) :
    let first := drawClaim eligible workerId leaseUntilMs nowMs m db
    let second := drawClaim eligible workerId leaseUntilMs nowMs n first.1
    second.1 = (drawClaim eligible workerId leaseUntilMs nowMs (m + n) db).1 ∧
      (first.2 ++ second.2).Perm
        (drawClaim eligible workerId leaseUntilMs nowMs (m + n) db).2 := by
  have hclears : ∀ t ∈ db.tasks.rows, eligible t = true →
      eligible ((setClaim workerId leaseUntilMs nowMs).set t) = false := by
    intro t _ _
    by_contra h
    have hstatus := hqueued _ (by simpa using h)
    cases hstatus
  have htwice := KeyedTable.updateFirst_updateFirst (separates_claimOrder db.tasks eligible) hm hn
    hclears
  refine ⟨Database.eq_of_rows (congrArg KeyedTable.rows htwice.1) rfl, htwice.2⟩

theorem claimDraw_of_nothing (d : Dialect) (held : String → Bool) (nowMs : Int)
    (input : SessionInput) (drawNames : Option (List String)) {limit : Int}
    (h : limit ≤ 0 ∨ drawNames = some []) (db : Database J) :
    claimDraw d held nowMs input drawNames limit db = (db, []) :=
  if_pos h

/-- Two draws of a session. -/
theorem claimDraw_claimDraw (d : Dialect) (held : String → Bool) (nowMs : Int)
    (input : SessionInput) (drawNames : Option (List String)) (m n : Int) (db : Database J) :
    let first := claimDraw d held nowMs input drawNames m db
    let second := claimDraw d held nowMs input drawNames n first.1
    let whole := claimDraw d held nowMs input drawNames (max m 0 + max n 0) db
    second.1 = whole.1 ∧ (first.2 ++ second.2).Perm whole.2 := by
  have hnothing : ∀ (limit : Int), limit ≤ 0 ∨ drawNames = some [] → ∀ db : Database J,
      claimDraw d held nowMs input drawNames limit db = (db, []) :=
    fun _ => claimDraw_of_nothing d held nowMs input drawNames
  by_cases hnames : drawNames = some []
  · simp [hnothing _ (Or.inr hnames)]
  · by_cases hm : m ≤ 0
    · rw [hnothing m (Or.inl hm), max_eq_right hm, Int.zero_add]
      by_cases hn : n ≤ 0
      · simp [hnothing n (Or.inl hn), hnothing _ (Or.inl (Int.max_le.mpr ⟨hn, le_refl 0⟩))]
      · rw [max_eq_left (by omega)]
        exact ⟨rfl, List.Perm.refl _⟩
    · by_cases hn : n ≤ 0
      · rw [max_eq_left (by omega), max_eq_right hn, Int.add_zero]
        simp [hnothing n (Or.inl hn)]
      · have hasks : ∀ (limit : Int) (db : Database J), 0 < limit →
            claimDraw d held nowMs input drawNames limit db =
              drawClaim (drawable (d.locked held) nowMs input.queues drawNames) input.workerId
                (nowMs + input.leaseMs) nowMs limit db := fun limit db hlimit =>
          claimDraw_eq_drawClaim d held nowMs input
            (by simp only [hnames, or_false]; omega) db
        rw [max_eq_left (by omega), max_eq_left (by omega), hasks m db (by omega),
          hasks (m + n) db (by omega)]
        have htwice := drawClaim_drawClaim input.workerId (nowMs + input.leaseMs) nowMs
          (le_of_not_ge hm) (le_of_not_ge hn)
          (fun (t : Task J) (ht : drawable (d.locked held) nowMs input.queues drawNames t = true) => by
            simp only [drawable, claimable, Bool.and_eq_true, decide_eq_true_eq] at ht
            exact ht.1.1.1.1) db
        dsimp only at htwice ⊢
        rw [hasks n _ (by omega)]
        exact htwice

/-- `heartbeat_batch` of a store: the tasks still held, each with whether its cancellation was
requested. -/
def heartbeatBatchFlags (d : Dialect) (held : String → Bool) (nowMs : Int) (ids : List String)
    (workerId : String) (leaseMs : Int) (db : Database J) :
    Database J × List (String × Bool) :=
  match ids with
  | [] => (db, [])
  | ids =>
      let out := exec d held nowMs (.heartbeatBatch ids workerId leaseMs) db
      match out.2 with
      | .renewed rows => (out.1, rows.map fun r => (r.1, r.2.isSome))
      | _ => (out.1, [])

/-- `heartbeat` of a store: whether cancellation was requested, or a lost lease. -/
def heartbeatFlag (d : Dialect) (held : String → Bool) (nowMs : Int) (id workerId : String)
    (leaseMs : Int) (db : Database J) : Database J × Option Bool :=
  let out := exec d held nowMs (.owned id workerId (.heartbeat leaseMs)) db
  (out.1, out.2.rows.head?.map fun t => t.cancelRequestedAtMs.isSome)

/-- One heartbeat after the other, with what each was told. -/
def heartbeatEach (d : Dialect) (held : String → Bool) (nowMs : Int) (workerId : String)
    (leaseMs : Int) : List String → Database J → Database J × List (String × Option Bool)
  | [], db => (db, [])
  | id :: ids, db =>
      let first := heartbeatFlag d held nowMs id workerId leaseMs db
      let rest := heartbeatEach d held nowMs workerId leaseMs ids first.1
      (rest.1, (id, first.2) :: rest.2)

/-- What a beat tells about a task: nothing when its row is missing. -/
def flagOf (flags : List (String × Bool)) (id : String) : Option Bool :=
  (flags.find? fun f => f.1 = id).map Prod.snd

/-- What a heartbeat by this worker would find under an id. -/
def heldFlag (workerId : String) (nowMs : Int) (db : Database J) (id : String) : Option Bool :=
  (db.get id).bind fun t =>
    if owned workerId nowMs t then some t.cancelRequestedAtMs.isSome else none

theorem heartbeatFlag_eq (d : Dialect) (held : String → Bool) (nowMs : Int) (id workerId : String)
    (leaseMs : Int) (db : Database J) :
    heartbeatFlag d held nowMs id workerId leaseMs db =
      (db.updateTasks (fun t => decide (t.id = id) && owned workerId nowMs t)
        (setHeartbeat (nowMs + leaseMs) nowMs), heldFlag workerId nowMs db id) := by
  refine Prod.ext ?_ ?_
  · simp only [heartbeatFlag, exec_eq, Postgres.exec, Postgres.execOwned_eq]
    rfl
  · show ((exec d held nowMs (.owned id workerId (.heartbeat leaseMs)) db).2.rows.head?.map
      fun t => t.cancelRequestedAtMs.isSome) = heldFlag workerId nowMs db id
    rcases rows_exec_owned_cases d held nowMs id workerId (.heartbeat leaseMs) db with
      ⟨hnone, hfree⟩ | ⟨r, rest, hrows, hr, howned⟩
    · rw [hnone, heldFlag]
      cases hget : db.get id with
      | none => rfl
      | some t =>
          have hnot : owned workerId nowMs t = false := by
            simpa [← owned_iff] using hfree t hget
          simp [hnot]
    · rw [hrows, heldFlag, hr]
      simp [owned_iff.mpr howned, OwnedWrite.setList, setHeartbeat]

/-- A condition that no row meets updates nothing. -/
theorem updateTasks_of_none {db : Database J} {p : Task J → Bool}
    (h : ∀ t ∈ db.tasks.rows, p t = false) (u : SetList J) : db.updateTasks p u = db := by
  refine Database.eq_of_rows ?_ rfl
  have hmap : (db.tasks.rows.map fun t => if p t then u.set t else t) =
      db.tasks.rows.map id := List.map_congr_left fun t ht => by simp [h t ht]
  exact hmap.trans (List.map_id _)

theorem heartbeatBatchFlags_eq (d : Dialect) (held : String → Bool) (nowMs : Int)
    (ids : List String) (workerId : String) (leaseMs : Int) (db : Database J) :
    (heartbeatBatchFlags d held nowMs ids workerId leaseMs db).1 =
        db.updateTasks (fun t => decide (t.id ∈ ids) && owned workerId nowMs t)
          (setHeartbeat (nowMs + leaseMs) nowMs) ∧
      ∀ id ∈ ids, flagOf (heartbeatBatchFlags d held nowMs ids workerId leaseMs db).2 id =
        heldFlag workerId nowMs db id := by
  cases ids with
  | nil => exact ⟨(updateTasks_of_none (by simp) _).symm, fun id hid => by cases hid⟩
  | cons first ids =>
      generalize hall : first :: ids = all
      have hexec : heartbeatBatchFlags d held nowMs all workerId leaseMs db =
          (db.updateTasks (fun t => decide (t.id ∈ all) && owned workerId nowMs t)
              (setHeartbeat (nowMs + leaseMs) nowMs),
            (db.tasks.rows.filter fun t => decide (t.id ∈ all) && owned workerId nowMs t).map
              fun t => (t.id, t.cancelRequestedAtMs.isSome)) := by
        subst hall
        simp only [heartbeatBatchFlags, exec_eq, Postgres.exec, Postgres.heartbeatBatch,
          updateReturning, KeyedTable.returning, List.map_map]
        rfl
      rw [hexec]
      refine ⟨rfl, fun id hid => ?_⟩
      rw [flagOf, List.find?_map, List.find?_filter, Option.map_map]
      have hfound : (db.tasks.rows.find? fun t =>
          (decide (t.id ∈ all) && owned workerId nowMs t) && decide (t.id = id)) =
            (db.get id).filter fun t => decide (t.id ∈ all) && owned workerId nowMs t :=
        KeyedTable.find?_rows_and_key db.tasks _ id
      simp only [Bool.decide_and, Bool.decide_eq_true, Function.comp_apply]
      rw [hfound, heldFlag]
      cases hget : db.get id with
      | none => rfl
      | some t =>
          have hmem : t.id ∈ all := by
            rw [Database.id_of_get hget]
            exact hid
          by_cases howned : owned workerId nowMs t = true
          · simp [hmem, howned]
          · simp [hmem, howned]

/-- A heartbeat of one task leaves what another's would find. -/
theorem heldFlag_heartbeatFlag (d : Dialect) (held : String → Bool) (nowMs : Int)
    {id id' : String} (hne : id' ≠ id) (workerId : String) (leaseMs : Int) (db : Database J) :
    heldFlag workerId nowMs (heartbeatFlag d held nowMs id workerId leaseMs db).1 id' =
      heldFlag workerId nowMs db id' := by
  simp only [heartbeatFlag_eq, heldFlag, Database.get_updateTasks]
  cases hget : db.get id' with
  | none => rfl
  | some t =>
      have hother : t.id ≠ id := by
        rw [Database.id_of_get hget]
        exact hne
      simp [hother]

theorem heartbeatEach_eq (d : Dialect) (held : String → Bool) (nowMs : Int) {ids : List String}
    (hnodup : ids.Nodup) (workerId : String) (leaseMs : Int) (db : Database J) :
    heartbeatEach d held nowMs workerId leaseMs ids db =
      (db.updateTasks (fun t => decide (t.id ∈ ids) && owned workerId nowMs t)
          (setHeartbeat (nowMs + leaseMs) nowMs),
        ids.map fun id => (id, heldFlag workerId nowMs db id)) := by
  induction ids generalizing db with
  | nil =>
      rw [updateTasks_of_none (by simp)]
      rfl
  | cons id ids ih =>
      rw [List.nodup_cons] at hnodup
      rw [heartbeatEach, ih hnodup.2]
      refine Prod.ext (Database.eq_of_rows ?_ ?_) ?_
      · rw [heartbeatFlag_eq]
        simp only [Database.updateTasks, KeyedTable.updateWhere, List.map_map]
        refine List.map_congr_left fun t _ => ?_
        by_cases hsame : t.id = id
        · by_cases howned : owned workerId nowMs t = true
          · simp [hsame, howned, hnodup.1, setHeartbeat]
          · simp [howned]
        · simp [hsame]
      · rw [heartbeatFlag_eq]
        rfl
      · simp only [List.map_cons, heartbeatFlag_eq, List.cons.injEq, true_and]
        refine List.map_congr_left fun id' hid' => ?_
        have hne : id' ≠ id := fun h => hnodup.1 (h ▸ hid')
        have hkept := heldFlag_heartbeatFlag d held nowMs hne workerId leaseMs db
        rw [heartbeatFlag_eq] at hkept
        rw [hkept]

/-- A shared heartbeat leaves the database as single heartbeats would, and tells each task what
its own would have told it: a lost lease, or whether its cancellation was requested. -/
theorem heartbeats_compose (d : Dialect) (held : String → Bool) (nowMs : Int)
    {ids : List String} (hnodup : ids.Nodup) (workerId : String) (leaseMs : Int)
    (db : Database J) :
    let shared := heartbeatBatchFlags d held nowMs ids workerId leaseMs db
    let single := heartbeatEach d held nowMs workerId leaseMs ids db
    shared.1 = single.1 ∧ single.2 = ids.map fun id => (id, flagOf shared.2 id) := by
  have hshared := heartbeatBatchFlags_eq d held nowMs ids workerId leaseMs db
  dsimp only
  rw [heartbeatEach_eq d held nowMs hnodup]
  refine ⟨hshared.1, List.map_congr_left fun id hid => ?_⟩
  rw [hshared.2 id hid]

/-- A worker that holds one of two tasks. -/
theorem heartbeats_compose_halfHeld :
    let db := (finalState .sqlite ([.alone 0 (.insertTask (.plain "a" "work" 3 0)),
      .alone 0 (.insertTask (.plain "b" "work" 3 0)),
      .alone 1 (.claim (.claimOneQueue "default" none) "w" 10 1)] : List (Execution Nat))).db
    (heartbeatEach .sqlite unlocked 5 "w" 10 ["a", "b"] db).2 = [("a", some false), ("b", none)] ∧
      (heartbeatBatchFlags .sqlite unlocked 5 ["a", "b"] "w" 10 db).1 =
        (heartbeatEach .sqlite unlocked 5 "w" 10 ["a", "b"] db).1 :=
  ⟨rfl, (heartbeats_compose .sqlite unlocked 5 (by decide) "w" 10 _).1⟩

end CairnQ
