import CairnQ.Protocol.Dialects
import CairnQ.Transition.Machine

/-!
# Claim sessions

`claim_session`: one transaction that recovers expired leases and then draws tasks any
number of times, each draw free to depend on what the one before returned.  A draw
picks one of four statements by the lengths of its queue and name lists.  The caller's
plan is left open: a run draws with whatever names and limits it likes.  SQLite holds
the write lock throughout; on Postgres other transactions commit in between, and only
the rows this one has written are out of their reach.

Main results:

- Theorem `claimDraw_eq_reference`: whichever statement it picks, a draw claims the first
  claimable rows, and those alone.
- Theorem `claimSession_refines`: so does every draw of a session; no task is drawn twice,
  and a task just recovered can be drawn.
- Theorem `probe_agrees`: the probe reports work exactly when a session at that clock
  reading would change a row.
-/

namespace CairnQ

open Relational Transition

variable {J : Type}

/-! ## Draws -/

/-- What a session is opened with. -/
structure SessionInput where
  queues : List String
  names : Option (List String)
  workerId : String
  leaseMs : Int
deriving DecidableEq, Repr

/-- The statement a draw picks: an equality for each list of length one. -/
def claimStatement (queues : List String) (drawNames : Option (List String)) : ClaimFilter :=
  match queues, drawNames with
  | [queue], some [name] => .claimOneQueueOneName queue name
  | queues, some [name] => .claimOneName queues name
  | [queue], names => .claimOneQueue queue names
  | queues, names => .claim queues names

/-- `claim(draw_names, limit)`: a draw that asks for nothing, or is filtered to no names,
costs no statement. -/
def claimDraw (d : Dialect) (held : String → Bool) (nowMs : Int) (input : SessionInput)
    (drawNames : Option (List String)) (limit : Int) (db : Database J) :
    Database J × List (Task J) :=
  if limit ≤ 0 ∨ drawNames = some [] then (db, [])
  else
    let out := exec d held nowMs
      (.claim (claimStatement input.queues drawNames) input.workerId input.leaseMs limit) db
    (out.1, out.2.rows)

/-! ## The reference -/

/-- A queued task that is due, in a queue of the list, under a name of the filter, and not
held by another transaction. -/
def drawable (locked : String → Bool) (nowMs : Int) (queues : List String)
    (names : Option (List String)) (t : Task J) : Bool :=
  claimable (fun q => decide (q ∈ queues)) (nameIn names) nowMs t && !locked t.id

/-- The reference: the first tasks by priority descending, run time and id ascending. -/
def claimReference (locked : String → Bool) (nowMs : Int) (queues : List String)
    (names : Option (List String)) (limit : Int) (db : Database J) : List (Task J) :=
  db.tasks.firstRows (drawable locked nowMs queues names) claimOrder limit.toNat

/-- Every statement a draw may pick filters alike. -/
theorem claimStatement_filters (queues : List String) (drawNames : Option (List String))
    (q n : String) :
    (claimStatement queues drawNames).queueOk q = decide (q ∈ queues) ∧
      (claimStatement queues drawNames).nameOk n = nameIn drawNames n := by
  unfold claimStatement
  split <;> simp [ClaimFilter.queueOk, ClaimFilter.nameOk, nameIn]

theorem claimable_claimStatement (queues : List String) (drawNames : Option (List String))
    (nowMs : Int) (t : Task J) :
    claimable (claimStatement queues drawNames).queueOk (claimStatement queues drawNames).nameOk
        nowMs t =
      claimable (fun q => decide (q ∈ queues)) (nameIn drawNames) nowMs t := by
  rcases claimStatement_filters queues drawNames t.queue t.name with ⟨hqueue, hname⟩
  rw [claimable, claimable, hqueue, hname]

/-- No task is drawable under an empty list of names. -/
theorem drawable_nil (locked : String → Bool) (nowMs : Int) (queues : List String) (t : Task J) :
    drawable locked nowMs queues (some []) t = false := by
  simp [drawable, claimable, nameIn]

theorem claimReference_eq_nil {locked : String → Bool} {nowMs : Int} {queues : List String}
    {names : Option (List String)} {limit : Int} (h : limit ≤ 0 ∨ names = some [])
    (db : Database J) : claimReference locked nowMs queues names limit db = [] := by
  rcases h with hlimit | rfl
  · rw [claimReference, Int.toNat_eq_zero.mpr hlimit]
    exact List.take_zero
  · have hnone : db.tasks.rows.filter (drawable locked nowMs queues (some [])) = [] :=
      List.filter_eq_nil_iff.mpr fun t _ => by simp [drawable_nil]
    rw [claimReference, KeyedTable.firstRows, hnone]
    exact List.take_nil

/-- What a draw leaves behind and returns, in terms of its reference. -/
structure Draws (d : Dialect) (held : String → Bool) (nowMs : Int) (input : SessionInput)
    (drawNames : Option (List String)) (limit : Int) (db db' : Database J)
    (rows : List (Task J)) : Prop where
  first : db.tasks.IsFirst (drawable (d.locked held) nowMs input.queues drawNames) claimOrder
    limit.toNat (claimReference (d.locked held) nowMs input.queues drawNames limit db)
  returned : rows.Perm ((claimReference (d.locked held) nowMs input.queues drawNames limit db).map
    (setClaim input.workerId (nowMs + input.leaseMs) nowMs).set)
  claimed : ∀ t ∈ claimReference (d.locked held) nowMs input.queues drawNames limit db,
    db'.get t.id = some ((setClaim input.workerId (nowMs + input.leaseMs) nowMs).set t)
  others : ∀ id, (∀ t ∈ claimReference (d.locked held) nowMs input.queues drawNames limit db,
    t.id ≠ id) → db'.get id = db.get id
  keys : db'.keys = db.keys

/-- A draw that costs a statement. -/
theorem claimDraw_eq_drawClaim (d : Dialect) (held : String → Bool) (nowMs : Int)
    (input : SessionInput) {drawNames : Option (List String)} {limit : Int}
    (hasks : ¬(limit ≤ 0 ∨ drawNames = some [])) (db : Database J) :
    claimDraw d held nowMs input drawNames limit db =
      drawClaim (drawable (d.locked held) nowMs input.queues drawNames) input.workerId
        (nowMs + input.leaseMs) nowMs limit db := by
  have heligible : (fun t : Task J =>
      claimable (claimStatement input.queues drawNames).queueOk
        (claimStatement input.queues drawNames).nameOk nowMs t && !d.locked held t.id) =
      drawable (d.locked held) nowMs input.queues drawNames := by
    funext t
    rw [claimable_claimStatement, drawable]
  rw [claimDraw, if_neg hasks, exec_eq]
  show ((Postgres.execClaim _ _ _ _ _ _ _).1, (Postgres.execClaim _ _ _ _ _ _ _).2) = _
  rw [Postgres.execClaim_eq, heligible]

/-- A draw claims exactly the first claimable rows, whichever statement it picks. -/
theorem claimDraw_eq_reference (d : Dialect) (held : String → Bool) (nowMs : Int)
    (input : SessionInput) (drawNames : Option (List String)) (limit : Int) (db : Database J) :
    Draws d held nowMs input drawNames limit db
      (claimDraw d held nowMs input drawNames limit db).1
      (claimDraw d held nowMs input drawNames limit db).2 := by
  have hfirst := KeyedTable.isFirst_firstRows db.tasks
    (drawable (d.locked held) nowMs input.queues drawNames) claimOrder limit.toNat
  by_cases hasks : limit ≤ 0 ∨ drawNames = some []
  · have hnone : claimReference (d.locked held) nowMs input.queues drawNames limit db = [] :=
      claimReference_eq_nil hasks db
    rw [claimDraw, if_pos hasks]
    refine ⟨hfirst, ?_, ?_, fun _ _ => rfl, rfl⟩
    · rw [hnone]
      exact List.Perm.refl _
    · rw [hnone]
      intro t ht
      cases ht
  · have hlimit : 0 ≤ limit := by
      by_contra hneg
      exact hasks (Or.inl (by omega))
    rw [claimDraw_eq_drawClaim d held nowMs input hasks]
    refine ⟨hfirst, ?_, fun t ht => ?_, fun id hid => ?_, rfl⟩
    · exact (KeyedTable.filter_mem_selectKeys_perm db.tasks _ _ hlimit).map _
    · have hget : db.get t.id = some t := KeyedTable.find?_of_mem (hfirst.eligible t ht).1
      have hkey := List.mem_map_of_mem (f := Task.id) ht
      rw [claimReference, ← KeyedTable.selectKeys_eq_map_firstRows _ _ _ hlimit] at hkey
      show (db.updateTasks _ _).get t.id = _
      rw [Database.get_updateTasks, hget]
      simp [hkey]
    · show (db.updateTasks _ _).get id = _
      rw [Database.get_updateTasks]
      cases hget : db.get id with
      | none => rfl
      | some t =>
          have hmem : t ∈ db.tasks.rows := (KeyedTable.find?_eq_some_iff.mp hget).1
          have hout : t.id ∉ db.tasks.selectKeys
              (drawable (d.locked held) nowMs input.queues drawNames) claimOrder limit := by
            rw [KeyedTable.selectKeys_eq_map_firstRows _ _ _ hlimit,
              KeyedTable.mem_map_firstRows_iff hmem]
            exact fun ht => hid t ht (Database.id_of_get hget)
          simp [hout]

/-! ## Sessions -/

/-- A session under way: the rows that its recovery returned, and what each draw did. -/
structure SessionState (J : Type) where
  db : Database J
  recovered : List (Task J)
  drawn : List (Task J)

/-- The rows this transaction has written. -/
def SessionState.written (s : SessionState J) : List (Task J) :=
  s.recovered ++ s.drawn

/-- `await fetch("recover_leases", base)`, the first statement of a session. -/
def SessionState.opened (d : Dialect) (held : String → Bool) (nowMs : Int)
    (leaseExpiredError : J) (db : Database J) : SessionState J :=
  let out := exec d held nowMs (.recoverLeases leaseExpiredError) db
  { db := out.1, recovered := out.2.rows, drawn := [] }

/-- What happens while a session is open. -/
inductive SessionEvent (J : Type)
  | draw (held : String → Bool) (nowMs : Int) (drawNames : Option (List String)) (limit : Int)
  | commitElsewhere (db : Database J)

/-- One event of a session.  Another transaction neither holds nor changes a row that this
one has written, and on SQLite there is no other. -/
def claimSession [DecidableEq J] (d : Dialect) (input : SessionInput) :
    Machine (SessionState J) (SessionEvent J)
  | s, .draw held nowMs drawNames limit =>
      if s.written.all fun t => !held t.id then
        let out := claimDraw d held nowMs input drawNames limit s.db
        some { s with db := out.1, drawn := s.drawn ++ out.2 }
      else none
  | s, .commitElsewhere db =>
      if d = .postgres ∧ s.written.all fun t => decide (db.get t.id = s.db.get t.id) then
        some { s with db := db }
      else none

/-- What every state of a session keeps: no task was drawn twice, the drawn ones are running,
and a recovered one that was not drawn is as its recovery left it. -/
structure SessionInvariant (s : SessionState J) : Prop where
  nodup : (s.drawn.map Task.id).Nodup
  running : ∀ t ∈ s.drawn, ∃ r, s.db.get t.id = some r ∧ r.status = .running
  recovered : ∀ t ∈ s.recovered, t.id ∈ s.drawn.map Task.id ∨ s.db.get t.id = some t

/-- Recovered rows are in the table. -/
theorem sessionInvariant_opened (d : Dialect) (held : String → Bool) (nowMs : Int)
    (leaseExpiredError : J) (db : Database J) :
    SessionInvariant (SessionState.opened d held nowMs leaseExpiredError db) where
  nodup := List.nodup_nil
  running t ht := by cases ht
  recovered t ht := by
    refine Or.inr ?_
    simp only [SessionState.opened, exec_eq] at ht ⊢
    exact (Postgres.exec_rows ht).1

section Draw

variable {d : Dialect} {held : String → Bool} {nowMs : Int} {input : SessionInput}
  {drawNames : Option (List String)} {limit : Int} {db db' : Database J} {rows : List (Task J)}

/-- A drawn row was queued, due and asked for, and is running now. -/
theorem Draws.of_mem (h : Draws d held nowMs input drawNames limit db db' rows) {t : Task J}
    (ht : t ∈ rows) : db'.get t.id = some t ∧ t.status = .running ∧
      ∃ r, db.get t.id = some r ∧ r.status = .queued := by
  rcases List.mem_map.mp (h.returned.mem_iff.mp ht) with ⟨r, hr, rfl⟩
  rcases h.first.eligible r hr with ⟨hmem, hdrawable⟩
  refine ⟨h.claimed r hr, rfl, r, KeyedTable.find?_of_mem hmem, ?_⟩
  simp only [drawable, claimable, Bool.and_eq_true, decide_eq_true_eq] at hdrawable
  exact hdrawable.1.1.1.1

/-- A draw returns no task twice. -/
theorem Draws.nodup (h : Draws d held nowMs input drawNames limit db db' rows) :
    (rows.map Task.id).Nodup := by
  have hids : (rows.map Task.id).Perm
      ((claimReference (d.locked held) nowMs input.queues drawNames limit db).map Task.id) := by
    have hmap := h.returned.map Task.id
    have hset : ∀ l : List (Task J),
        l.map (Task.id ∘ (setClaim input.workerId (nowMs + input.leaseMs) nowMs).set) =
          l.map Task.id := fun l => List.map_congr_left fun t _ => SetList.id_set _ t
    rwa [List.map_map, hset] at hmap
  refine hids.nodup_iff.mpr (List.Nodup.map_on (fun r hr u hu hid => ?_) h.first.nodup)
  exact KeyedTable.row_unique (h.first.eligible r hr).1 (h.first.eligible u hu).1 hid

/-- A row that a draw did not return is as it was. -/
theorem Draws.get_of_not_mem (h : Draws d held nowMs input drawNames limit db db' rows)
    {id : String} (hid : id ∉ rows.map Task.id) : db'.get id = db.get id := by
  refine h.others id fun t ht hkey => hid ?_
  have hmem := h.returned.mem_iff.mpr (List.mem_map_of_mem ht)
  exact List.mem_map.mpr ⟨_, hmem, by rw [SetList.id_set, hkey]⟩

end Draw

/-- One event keeps the invariant. -/
theorem sessionInvariant_step [DecidableEq J] {d : Dialect} {input : SessionInput}
    {s s' : SessionState J} {e : SessionEvent J} (hinv : SessionInvariant s)
    (hstep : claimSession d input s e = some s') : SessionInvariant s' := by
  cases e with
  | draw held nowMs drawNames limit =>
      simp only [claimSession, Option.ite_none_right_eq_some, Option.some.injEq] at hstep
      rcases hstep with ⟨-, rfl⟩
      have hdraws := claimDraw_eq_reference d held nowMs input drawNames limit s.db
      generalize claimDraw d held nowMs input drawNames limit s.db = out at hdraws ⊢
      -- Only queued rows are drawn, and what this session drew before is running.
      have hfresh : ∀ t ∈ s.drawn, t.id ∉ out.2.map Task.id := by
        intro t ht hid
        rcases List.mem_map.mp hid with ⟨u, hu, hkey⟩
        rcases hdraws.of_mem hu with ⟨-, -, r, hr, hqueued⟩
        rcases hinv.running t ht with ⟨r', hr', hrunning⟩
        rw [← hkey, hr] at hr'
        cases hr'
        rw [hqueued] at hrunning
        cases hrunning
      refine ⟨?_, fun t ht => ?_, fun t ht => ?_⟩
      · rw [List.map_append, List.nodup_append']
        refine ⟨hinv.nodup, hdraws.nodup, fun id hold hnew => ?_⟩
        rcases List.mem_map.mp hold with ⟨t, ht, rfl⟩
        exact hfresh t ht hnew
      · rcases List.mem_append.mp ht with hold | hnew
        · rw [show out.1.get t.id = _ from hdraws.get_of_not_mem (hfresh t hold)]
          exact hinv.running t hold
        · rcases hdraws.of_mem hnew with ⟨hget, hrunning, -⟩
          exact ⟨t, hget, hrunning⟩
      · rw [List.map_append, List.mem_append]
        rcases hinv.recovered t ht with hdrawn | hget
        · exact Or.inl (Or.inl hdrawn)
        · by_cases hnew : t.id ∈ out.2.map Task.id
          · exact Or.inl (Or.inr hnew)
          · exact Or.inr ((hdraws.get_of_not_mem hnew).trans hget)
  | commitElsewhere db =>
      simp only [claimSession, Option.ite_none_right_eq_some, Option.some.injEq,
        List.all_eq_true, decide_eq_true_eq] at hstep
      rcases hstep with ⟨⟨-, hkept⟩, rfl⟩
      refine ⟨hinv.nodup, fun t ht => ?_, fun t ht => ?_⟩
      · rw [show db.get t.id = _ from hkept t (List.mem_append_right _ ht)]
        exact hinv.running t ht
      · rcases hinv.recovered t ht with hdrawn | hget
        · exact Or.inl hdrawn
        · exact Or.inr ((hkept t (List.mem_append_left _ ht)).trans hget)

/-- In any session, over any table and whatever other transactions commit meanwhile, a draw
claims exactly the first claimable tasks, none of them drawn before, and a task that the
recovery put back in line is eligible like any other. -/
theorem claimSession_refines [DecidableEq J] {d : Dialect} {input : SessionInput}
    {held₀ : String → Bool} {openedMs : Int} {leaseExpiredError : J} {db : Database J}
    {s s' : SessionState J}
    (hreach : (claimSession d input).Reachable anyStep
      (SessionState.opened d held₀ openedMs leaseExpiredError db) s)
    {held : String → Bool} {nowMs : Int} {drawNames : Option (List String)} {limit : Int}
    (hstep : claimSession d input s (.draw held nowMs drawNames limit) = some s') :
    ∃ rows, s'.drawn = s.drawn ++ rows ∧
      Draws d held nowMs input drawNames limit s.db s'.db rows ∧
      (s'.drawn.map Task.id).Nodup ∧
      ∀ t ∈ s.recovered, t.status = .queued → t.id ∉ s.drawn.map Task.id →
        t.queue ∈ input.queues → nameIn drawNames t.name = true → t.runAtMs ≤ nowMs →
        t ∈ s.db.tasks.rows ∧
          drawable (d.locked held) nowMs input.queues drawNames t = true := by
  have hinv : SessionInvariant s :=
    hreach.invariant (fun _ _ _ hkept _ h => sessionInvariant_step hkept h)
      (sessionInvariant_opened d held₀ openedMs leaseExpiredError db)
  have hnodup := (sessionInvariant_step hinv hstep).nodup
  simp only [claimSession, Option.ite_none_right_eq_some, Option.some.injEq,
    List.all_eq_true, Bool.not_eq_true'] at hstep
  rcases hstep with ⟨hfree, rfl⟩
  refine ⟨_, rfl, claimDraw_eq_reference d held nowMs input drawNames limit s.db, hnodup, ?_⟩
  intro t ht hqueued hdrawn hqueue hname hdue
  have hget : s.db.get t.id = some t := (hinv.recovered t ht).resolve_left hdrawn
  refine ⟨(KeyedTable.find?_eq_some_iff.mp hget).1, ?_⟩
  have hlocked : d.locked held t.id = false := by
    cases d with
    | sqlite => rfl
    | postgres => exact hfree t (List.mem_append_left _ ht)
  simp [drawable, claimable, hqueued, hqueue, hname, hdue, hlocked]

/-- A caller of one queue and one name. -/
def soloInput : SessionInput where
  queues := ["default"]
  names := some ["work"]
  workerId := "v"
  leaseMs := 10

/-- A session that finds the lease of another worker run out. -/
def soloSession : SessionState Nat :=
  SessionState.opened .postgres unlocked 20 0 deliveredDatabase

/-- The recovered task is drawn in the session that recovered it. -/
theorem claimSession_refines_soloSession :
    ∃ rows, ((claimSession .postgres soloInput soloSession
        (.draw unlocked 20 (some ["work"]) 1)).getD soloSession).drawn =
          soloSession.drawn ++ rows ∧
      Draws .postgres unlocked 20 soloInput (some ["work"]) 1 soloSession.db
        ((claimSession .postgres soloInput soloSession
          (.draw unlocked 20 (some ["work"]) 1)).getD soloSession).db rows ∧
      (((claimSession .postgres soloInput soloSession
        (.draw unlocked 20 (some ["work"]) 1)).getD soloSession).drawn.map Task.id).Nodup ∧
      ∀ t ∈ soloSession.recovered, t.status = .queued → t.id ∉ soloSession.drawn.map Task.id →
        t.queue ∈ soloInput.queues → nameIn (some ["work"]) t.name = true → t.runAtMs ≤ 20 →
        t ∈ soloSession.db.tasks.rows ∧
          drawable (Dialect.postgres.locked unlocked) 20 soloInput.queues (some ["work"]) t =
            true :=
  claimSession_refines
    (Machine.Reachable.start (claimSession .postgres soloInput) anyStep soloSession) rfl

/-! ## The probe -/

/-- `claimable_probe.sql` of a dialect. -/
def claimableProbe (d : Dialect) (nowMs : Int) (queues : List String)
    (names : Option (List String)) (db : Database J) : Bool :=
  match d with
  | .sqlite => Sqlite.claimableProbe queues names nowMs db
  | .postgres => Postgres.claimableProbe nowMs queues names db

/-- The first half of `claim_session`: without work no transaction is opened. -/
def openSession (d : Dialect) (held : String → Bool) (probedMs openedMs : Int)
    (input : SessionInput) (leaseExpiredError : J) (db : Database J) : Option (SessionState J) :=
  if claimableProbe d probedMs input.queues input.names db then
    some (SessionState.opened d held openedMs leaseExpiredError db)
  else none

/-- Several draws in a row at one clock reading, and all they return. -/
def drawAll (d : Dialect) (held : String → Bool) (nowMs : Int) (input : SessionInput) :
    List (Option (List String) × Int) → Database J → Database J × List (Task J)
  | [], db => (db, [])
  | (drawNames, limit) :: draws, db =>
      let out := claimDraw d held nowMs input drawNames limit db
      let rest := drawAll d held nowMs input draws out.1
      (rest.1, out.2 ++ rest.2)

/-- Both dialects ask the same question. -/
theorem claimableProbe_iff {d : Dialect} {nowMs : Int} {queues : List String}
    {names : Option (List String)} {db : Database J} :
    claimableProbe d nowMs queues names db = true ↔
      ∃ t ∈ db.tasks.rows,
        claimable (fun q => decide (q ∈ queues)) (nameIn names) nowMs t = true ∨
          leaseExpired nowMs t = true := by
  cases d with
  | sqlite => simp [claimableProbe, Sqlite.claimableProbe, List.any_eq_true]
  | postgres =>
      simp only [claimableProbe, Postgres.claimableProbe, Bool.or_eq_true, List.any_eq_true]
      constructor
      · rintro (⟨t, ht, h⟩ | ⟨t, ht, h⟩)
        · exact ⟨t, ht, Or.inl h⟩
        · exact ⟨t, ht, Or.inr h⟩
      · rintro ⟨t, ht, h | h⟩
        · exact Or.inl ⟨t, ht, h⟩
        · exact Or.inr ⟨t, ht, h⟩

/-- An update that selects no row changes nothing. -/
theorem updateReturning_of_unselected {p : Task J → Bool} {db : Database J}
    (hnone : ∀ t ∈ db.tasks.rows, p t = false) (u : SetList J) :
    updateReturning p u db = (db, []) := by
  have hnever : updateReturning p u db = updateReturning (fun _ => false) u db :=
    updateReturning_congr hnone u
  rw [hnever]
  simp [updateReturning, Database.updateTasks, KeyedTable.updateWhere, KeyedTable.returning]

/-- Recovery, as one update. -/
theorem exec_recoverLeases (d : Dialect) (held : String → Bool) (nowMs : Int)
    (leaseExpiredError : J) (db : Database J) :
    exec d held nowMs (.recoverLeases leaseExpiredError) db =
      replyTasks (updateReturning (fun t => leaseExpired nowMs t && !d.locked held t.id)
        (setRecover leaseExpiredError nowMs) db) := by
  rw [exec_eq]
  exact congrArg replyTasks (updateSelected_eq ..)

/-- A row after the recovery, when no other transaction is open. -/
theorem get_recoverLeases (d : Dialect) (nowMs : Int) (leaseExpiredError : J) (db : Database J)
    (id : String) :
    (exec d unlocked nowMs (.recoverLeases leaseExpiredError) db).1.get id =
      (db.get id).map fun t =>
        if leaseExpired nowMs t then (setRecover leaseExpiredError nowMs).set t else t := by
  have hfree : ∀ i, d.locked unlocked i = false := by
    intro i
    cases d <;> rfl
  rw [exec_recoverLeases]
  simp only [replyTasks, updateReturning, Database.get_updateTasks, hfree, Bool.not_false,
    Bool.and_true]

/-- Where the probe reports no work, a draw under a filter no wider than the probe's
claims nothing. -/
theorem claimDraw_of_no_work {d : Dialect} {held : String → Bool} {nowMs : Int}
    {input : SessionInput} {db : Database J}
    (hnone : ∀ t ∈ db.tasks.rows,
      claimable (fun q => decide (q ∈ input.queues)) (nameIn input.names) nowMs t = false)
    {drawNames : Option (List String)}
    (hwithin : ∀ n, nameIn drawNames n = true → nameIn input.names n = true) (limit : Int) :
    claimDraw d held nowMs input drawNames limit db = (db, []) := by
  by_cases hasks : limit ≤ 0 ∨ drawNames = some []
  · rw [claimDraw, if_pos hasks]
  · rw [claimDraw_eq_drawClaim d held nowMs input hasks]
    refine updateReturning_of_unselected (fun t ht => decide_eq_false fun hsel => ?_) _
    have hdrawable := eligible_of_mem_selectKeys (KeyedTable.find?_of_mem ht) hsel
    have hno := hnone t ht
    simp only [drawable, claimable, Bool.and_eq_true, decide_eq_true_eq] at hdrawable
    rcases hdrawable.1 with ⟨⟨⟨hqueued, hqueue⟩, hname⟩, hdue⟩
    simp [claimable, hqueued, hqueue, hwithin _ hname, hdue] at hno

theorem drawAll_of_no_work {d : Dialect} {held : String → Bool} {nowMs : Int}
    {input : SessionInput} {db : Database J}
    (hnone : ∀ t ∈ db.tasks.rows,
      claimable (fun q => decide (q ∈ input.queues)) (nameIn input.names) nowMs t = false)
    {draws : List (Option (List String) × Int)}
    (hwithin : ∀ x ∈ draws, ∀ n, nameIn x.1 n = true → nameIn input.names n = true) :
    drawAll d held nowMs input draws db = (db, []) := by
  induction draws with
  | nil => rfl
  | cons x draws ih =>
      have hfirst : claimDraw d held nowMs input x.1 x.2 db = (db, []) :=
        claimDraw_of_no_work hnone (hwithin x List.mem_cons_self) x.2
      have hrest := ih fun y hy => hwithin y (List.mem_cons_of_mem x hy)
      simp only [drawAll, hfirst, hrest, List.append_nil]

section Work

variable {d : Dialect} {nowMs : Int} {input : SessionInput} {leaseExpiredError : J}
  {drawNames : Option (List String)} {limit : Int} {db db' : Database J} {rows : List (Task J)}

/-- A drawn row differs from the one before the recovery: its attempt is one higher. -/
theorem get_ne_of_drawn
    (hdraws : Draws d unlocked nowMs input drawNames limit
      (exec d unlocked nowMs (.recoverLeases leaseExpiredError) db).1 db' rows)
    {u : Task J} (hu : u ∈ rows) : db'.get u.id ≠ db.get u.id := by
  rcases List.mem_map.mp (hdraws.returned.mem_iff.mp hu) with ⟨r, hr, rfl⟩
  have hrecovered := KeyedTable.find?_of_mem (hdraws.first.eligible r hr).1
  change Database.get _ r.id = some r at hrecovered
  rw [get_recoverLeases] at hrecovered
  rcases Option.map_eq_some_iff.mp hrecovered with ⟨t, ht, hset⟩
  have hattempt : r.attempt = t.attempt := by
    rw [← hset]
    split <;> rfl
  rw [SetList.id_set, hdraws.claimed r hr, ht]
  intro hsame
  have hnext : r.attempt + 1 = t.attempt := congrArg Task.attempt (Option.some.inj hsame)
  omega

/-- A row whose lease had run out differs too. -/
theorem get_ne_of_expired
    (hdraws : Draws d unlocked nowMs input drawNames limit
      (exec d unlocked nowMs (.recoverLeases leaseExpiredError) db).1 db' rows)
    {t : Task J} (ht : t ∈ db.tasks.rows) (hexpired : leaseExpired nowMs t = true) :
    db'.get t.id ≠ db.get t.id := by
  by_cases hdrawn : t.id ∈ rows.map Task.id
  · rcases List.mem_map.mp hdrawn with ⟨u, hu, hid⟩
    rw [← hid]
    exact get_ne_of_drawn hdraws hu
  · have hget : db.get t.id = some t := KeyedTable.find?_of_mem ht
    rw [hdraws.get_of_not_mem hdrawn, get_recoverLeases, hget, Option.map_some, if_pos hexpired]
    intro hsame
    have hstatus : ((setRecover leaseExpiredError nowMs).set t).status = t.status :=
      congrArg Task.status (Option.some.inj hsame)
    rw [(leaseExpired_iff.mp hexpired).1] at hstatus
    simp only [setRecover] at hstatus
    split at hstatus
    · cases hstatus
    · split at hstatus <;> cases hstatus

/-- A claimable task makes a draw over its queue and name return something. -/
theorem ne_nil_of_claimable
    (hdraws : Draws d unlocked nowMs input drawNames limit
      (exec d unlocked nowMs (.recoverLeases leaseExpiredError) db).1 db' rows)
    (hlimit : 1 ≤ limit) {t : Task J} (ht : t ∈ db.tasks.rows)
    (hclaimable : claimable (fun q => decide (q ∈ input.queues)) (nameIn drawNames) nowMs t =
      true) : rows ≠ [] := by
  have hlive : leaseExpired nowMs t = false := by
    simp only [claimable, Bool.and_eq_true, decide_eq_true_eq] at hclaimable
    simp [leaseExpired, hclaimable.1.1.1]
  have hget : db.get t.id = some t := KeyedTable.find?_of_mem ht
  have hrecovered := get_recoverLeases d nowMs leaseExpiredError db t.id
  rw [hget, Option.map_some, hlive, if_neg Bool.false_ne_true] at hrecovered
  have hfree : d.locked unlocked t.id = false := by
    cases d <;> rfl
  have hcount := List.countP_pos_iff (p := drawable (d.locked unlocked) nowMs input.queues
    drawNames) |>.mpr
      ⟨t, (KeyedTable.find?_eq_some_iff.mp hrecovered).1, by simp [drawable, hclaimable, hfree]⟩
  have hlength := hdraws.first.length
  rintro rfl
  have hnone := hdraws.returned.length_eq
  rw [List.length_map, List.length_nil] at hnone
  omega

end Work

/-- Without work at a clock reading, the recovery and any draws within the probe's lists at
that reading change no row and return none, whatever other transactions hold.  With work
they change a row, and a claimable one makes the draw return something. -/
theorem probe_agrees (d : Dialect) (nowMs : Int) (input : SessionInput) (leaseExpiredError : J)
    (db : Database J) :
    (claimableProbe d nowMs input.queues input.names db = false →
      ∀ (held : String → Bool) (draws : List (Option (List String) × Int)),
        (∀ x ∈ draws, ∀ n, nameIn x.1 n = true → nameIn input.names n = true) →
        exec d held nowMs (.recoverLeases leaseExpiredError) db = (db, .tasks []) ∧
          drawAll d held nowMs input draws db = (db, [])) ∧
      (claimableProbe d nowMs input.queues input.names db = true → ∀ limit : Int, 1 ≤ limit →
        let recovered := (exec d unlocked nowMs (.recoverLeases leaseExpiredError) db).1
        let out := claimDraw d unlocked nowMs input input.names limit recovered
        (∃ id, out.1.get id ≠ db.get id) ∧
          ((∃ t ∈ db.tasks.rows, claimable (fun q => decide (q ∈ input.queues))
            (nameIn input.names) nowMs t = true) → out.2 ≠ [])) := by
  constructor
  · intro hprobe held draws hwithin
    have hnone : ∀ t ∈ db.tasks.rows,
        claimable (fun q => decide (q ∈ input.queues)) (nameIn input.names) nowMs t = false ∧
          leaseExpired nowMs t = false := by
      intro t ht
      have hneither := fun h => Bool.eq_false_iff.mp hprobe (claimableProbe_iff.mpr ⟨t, ht, h⟩)
      exact ⟨Bool.eq_false_iff.mpr fun h => hneither (Or.inl h),
        Bool.eq_false_iff.mpr fun h => hneither (Or.inr h)⟩
    constructor
    · rw [exec_recoverLeases, updateReturning_of_unselected fun t ht => by simp [(hnone t ht).2]]
      rfl
    · exact drawAll_of_no_work (fun t ht => (hnone t ht).1) hwithin
  · intro hprobe limit hlimit
    have hdraws := claimDraw_eq_reference d unlocked nowMs input input.names limit
      (exec d unlocked nowMs (.recoverLeases leaseExpiredError) db).1
    constructor
    · rcases claimableProbe_iff.mp hprobe with ⟨t, ht, hclaimable | hexpired⟩
      · rcases List.exists_mem_of_ne_nil _ (ne_nil_of_claimable hdraws hlimit ht hclaimable)
          with ⟨u, hu⟩
        exact ⟨u.id, get_ne_of_drawn hdraws hu⟩
      · exact ⟨t.id, get_ne_of_expired hdraws ht hexpired⟩
    · rintro ⟨t, ht, hclaimable⟩
      exact ne_nil_of_claimable hdraws hlimit ht hclaimable

/-- An empty table has no work, and a lease that ran out is work. -/
theorem probe_agrees_soloInput :
    (exec .sqlite unlocked 20 (.recoverLeases 0) (Database.empty (J := Nat)) =
        (Database.empty, .tasks []) ∧
      drawAll .sqlite unlocked 20 soloInput [(some ["work"], 3)] (Database.empty (J := Nat)) =
        (Database.empty, [])) ∧
      ∃ id, (claimDraw .postgres unlocked 20 soloInput soloInput.names 1
        (exec .postgres unlocked 20 (.recoverLeases 0) deliveredDatabase).1).1.get id ≠
          deliveredDatabase.get id :=
  ⟨(probe_agrees .sqlite 20 soloInput 0 Database.empty).1 rfl unlocked [(some ["work"], 3)]
      (fun x hx n hn => by
        cases hx with
        | head => exact hn
        | tail _ h => cases h),
    ((probe_agrees .postgres 20 soloInput 0 deliveredDatabase).2 rfl 1 (by decide)).1⟩

end CairnQ
