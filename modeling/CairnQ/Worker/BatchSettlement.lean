import Mathlib.Algebra.Order.BigOperators.Group.List
import CairnQ.Worker.BatchCall

/-!
# Settling a batch

What is promised of the tasks of one handler call, and what the worker has to rely on for
that: besides the leases, that the handler raises exceptions with a message only, that what
there is to bind can be bound, and that a write that is late does not find its task back.

Main results:

- Theorem `callKept_of_step`: what every step keeps.
- Theorem `batch_settled`: every task is settled once, by the handler or by how the call ended,
  and independently of the others.
- Theorem `batch_settled_fails`: a cancellation raised in a Python handler settles nothing.
-/

namespace CairnQ

open Relational JsonText Transition

/-! ## The contract -/

/-- A `TaskError` has its own; everything else is worth another attempt. -/
def Raised.retryable : Raised → Bool
  | .error (.taskError _ _ _ own _) => own
  | .lostLease | .error _ | .unreadable | .notException => true

/-- The worker completes the task with a result, or a cancel that was requested wins. -/
structure Settlement.Completes (x : Settlement) (result : Option Text) : Prop where
  byWorker : x.byHandler = false
  write : x.write = .complete result
  canceled : x.before.cancelRequestedAtMs.isSome = true → x.after.status = .canceled
  succeeded : x.before.cancelRequestedAtMs.isSome = false →
    x.after.status = .succeeded ∧ x.after.result = result

/-- The worker fails the task, with the backoff of the task's own attempt. -/
structure Settlement.Fails (x : Settlement) (c : BatchCall) (task : Task Text) (error : Text)
    (retryable : Bool) : Prop where
  byWorker : x.byHandler = false
  write : ∃ rand, x.write =
    .fail error retryable (failDelayMs task.attempt retryable c.baseMs c.maxMs rand)
  recorded : x.after.error = some error
  canceled : x.before.cancelRequestedAtMs.isSome = true → x.after.status = .canceled
  requeued : x.before.cancelRequestedAtMs.isSome = false → retryable = true →
    x.before.attempt < x.before.maxAttempts → x.after.status = .queued
  failed : x.before.cancelRequestedAtMs.isSome = false →
    (retryable = false ∨ x.before.maxAttempts ≤ x.before.attempt) → x.after.status = .failed

/-- How a task is settled that the handler left. -/
def Leftover (c : BatchCall) (how : CallEnd) (task : Task Text) (l : List Settlement) : Prop :=
  match how with
  | .returned value =>
      let result := c.resultFor value task.id
      match boundResult c.sdk c.stack result with
      | .value j => ∃ x, l = [x] ∧ x.Completes j
      | .refused | .raised => ∃ x error, l = [x] ∧ x.Fails c task error false ∧
          boundError c.sdk c.stack c.spell (c.unserializableEnvelope result) false = some error
  | .raised .lostLease => l = []
  | .raised error => ∃ x text, l = [x] ∧ x.Fails c task text error.retryable ∧
      ∀ reason, error = .error reason →
        boundError c.sdk c.stack c.spell (asEnvelope reason true).1 error.retryable = some text
  | .timedOut => ∃ x text, l = [x] ∧ x.Fails c task text true ∧
      boundError c.sdk c.stack c.spell c.timeoutEnvelope true = some text

/-- How a task is settled: once by the handler, or else by how the call ended. -/
def Fate (c : BatchCall) (how : CallEnd) (task : Task Text) (l : List Settlement) : Prop :=
  (∃ x, l = [x] ∧ x.byHandler = true) ∨ Leftover c how task l

/-- The call has returned. -/
def CallState.Over (s : CallState) (c : BatchCall) : Prop :=
  s.picked = true ∧ ∀ task ∈ c.tasks, (s.items task.id).turn = .over

/-- How many steps a task is from the end of the call. -/
def ItemTurn.distance : ItemTurn → Nat
  | .waiting => 3
  | .chosen => 2
  | .issued _ => 1
  | .over => 0

/-- How many steps the worker has left. -/
def CallState.left (s : CallState) (c : BatchCall) : Nat :=
  (if s.picked then 0 else 1) +
    (c.tasks.map fun task => (s.items task.id).turn.distance).sum

/-- What is promised of a batch. -/
structure BatchContract (c : BatchCall) (s : CallState) : Prop where
  atMostOnce : ∀ task ∈ c.tasks, (s.items task.id).settlements.length ≤ 1
  fates : s.Over c → ∀ how, s.ending = some how →
    ∀ task ∈ c.tasks, Fate c how task (s.items task.id).settlements
  /-- once the handler is done, the worker has a step to take that brings it nearer to the end -/
  goesOn : s.ending.isSome = true → ¬s.Over c →
    ∃ l s', batchCall c s l = some s' ∧ s'.left c < s.left c

/-- Of every task, the row and the books stay as they are, or one settlement changes the row and
goes on the books. -/
def Booked (s s' : CallState) : Prop :=
  ∀ id,
    (s'.protocol.db.get id = s.protocol.db.get id ∧
        (s'.items id).settlements = (s.items id).settlements) ∨
      ∃ x, (s'.items id).settlements = (s.items id).settlements ++ [x] ∧
        s.protocol.db.get id = some x.before ∧ s'.protocol.db.get id = some x.after

/-! ## Conditions -/

/-- The tasks have just been claimed by the worker. -/
def BatchCall.Claimed (c : BatchCall) (p : ProtocolState Text) : Prop :=
  ∀ task ∈ c.tasks, ∃ u, p.db.get task.id = some task ∧ RunningUnder c.workerId u task

/-- No lease of a task that is still to be settled has run out. -/
def CallState.Live (s : CallState) (c : BatchCall) (nowMs : Int) : Prop :=
  ∀ task ∈ c.tasks, (s.items task.id).settlements = [] →
    ∀ r u, s.protocol.db.get task.id = some r → r.leaseUntilMs = some u → nowMs < u

/-- The leases are held until the tasks are settled, and nobody else settles under the worker's
id. -/
def LeasesKept (c : BatchCall) (s : CallState) : CallStep → Prop
  | .other e => s.Live c e.nowMs ∧ ∀ task ∈ c.tasks, (s.items task.id).settlements = [] →
      ¬e.statement.Settles task.id c.workerId
  | .execute nowMs _ | .write _ nowMs _ => s.Live c nowMs
  | _ => True

/-- The encoder gets through what there is to bind for a leftover, or refuses the result and gets
through the record of that. -/
def BatchCall.Encodes (c : BatchCall) (how : CallEnd) (task : Task Text) : Prop :=
  let binds fields retryable := (boundError c.sdk c.stack c.spell fields retryable).isSome = true
  match how with
  | .returned value =>
      let result := c.resultFor value task.id
      match boundResult c.sdk c.stack result with
      | .value _ => True
      | .refused => binds (c.unserializableEnvelope result) false
      | .raised => False
  | .raised (.error reason) => binds (asEnvelope reason true).1 (asEnvelope reason true).2
  | .raised .lostLease | .raised .unreadable | .raised .notException => True
  | .timedOut => binds c.timeoutEnvelope true

/-- A settled task is not back with the same worker. -/
def CallState.NotBack (s : CallState) (c : BatchCall) (id : String) (nowMs : Int) : Prop :=
  (s.items id).settlements ≠ [] →
    ∀ r, s.protocol.db.get id = some r → ¬Owned c.workerId nowMs r

/-- What the worker provides for: with tasks left the handler raises nothing but exceptions with a
message, what there is to bind can be bound, and a write that is late does not find its task
back. -/
def ProvidedFor (c : BatchCall) (s : CallState) : CallStep → Prop
  | .raises error => error = .lostLease ∨ (∃ reason, error = .error reason) ∨
      ∀ task ∈ c.tasks, (s.items task.id).settled = true
  | .settle task _ => ∀ how, s.ending = some how → c.Encodes how task
  | .execute nowMs _ => ∀ w, s.inFlight = some w → s.NotBack c w.taskId nowMs
  | .write task nowMs _ => s.NotBack c task.id nowMs
  | _ => True

/-- Both. -/
def BatchOrder (c : BatchCall) (s : CallState) (l : CallStep) : Prop :=
  LeasesKept c s l ∧ ProvidedFor c s l

/-! ## The invariant -/

/-- What holds of one task of the batch. -/
structure ItemKept (c : BatchCall) (s : CallState) (task : Task Text) : Prop where
  held : (s.items task.id).settlements = [] →
    ∃ r u, s.protocol.db.get task.id = some r ∧ RunningUnder c.workerId u r
  once : (s.items task.id).settlements.length ≤ 1
  flagged : (s.items task.id).settled = true → (s.items task.id).settlements ≠ []
  byHandler : (∀ x ∈ (s.items task.id).settlements, x.byHandler = true) ∨
    (s.items task.id).turn = .over
  unpicked : s.picked = false → (s.items task.id).turn = .waiting
  picked : s.picked = true → (s.items task.id).turn ≠ .waiting
  issued : ∀ write, (s.items task.id).turn = .issued write →
    ∃ how rand, s.ending = some how ∧ c.leftoverWrite how task rand = some write
  fate : (s.items task.id).turn = .over → ∀ how, s.ending = some how →
    Fate c how task (s.items task.id).settlements

/-- The worker can do with this end of the call what it has to for the task. -/
def Handled (s : CallState) (error : Raised) (task : Task Text) : Prop :=
  error = .lostLease ∨ (∃ reason, error = .error reason) ∨ (s.items task.id).settlements ≠ []

/-- What holds in every state of a call. -/
structure CallKept (c : BatchCall) (s : CallState) : Prop where
  items : ∀ task ∈ c.tasks, ItemKept c s task
  running : s.ending = none → s.picked = false
  awaited : ∀ w, s.inFlight = some w → (∃ task ∈ c.tasks, task.id = w.taskId) ∧
    (w.reply.isSome = true → (s.items w.taskId).settlements ≠ []) ∧
      (s.ending = none ∨ s.ending = some .timedOut)
  raised : ∀ error, s.ending = some (.raised error) → ∀ task ∈ c.tasks, Handled s error task

theorem callKept_delivered {c : BatchCall} {p : ProtocolState Text} (hclaimed : c.Claimed p) :
    CallKept c (.delivered p) where
  items task hmem := by
    rcases hclaimed task hmem with ⟨u, hget, hrunning⟩
    refine ⟨fun _ => ⟨task, u, hget, hrunning⟩, Nat.zero_le _, fun h => ?_, Or.inl fun x hx => ?_,
      fun _ => rfl, fun h => ?_, fun write h => ?_, fun h => ?_⟩
    · cases h
    · cases hx
    · cases h
    · cases h
    · cases h
  running _ := rfl
  awaited w h := by cases h
  raised error h := by cases h

/-- A step that changes flags only. -/
theorem ItemKept.flags {c : BatchCall} {s s' : CallState} {task : Task Text}
    (h : ItemKept c s task) (hget : s'.protocol.db.get task.id = s.protocol.db.get task.id)
    (hlog : (s'.items task.id).settlements = (s.items task.id).settlements)
    (hturn : (s'.items task.id).turn = (s.items task.id).turn)
    (hsettled : (s'.items task.id).settled = true → (s.items task.id).settlements ≠ [])
    (hpicked : s'.picked = s.picked) (hending : s'.ending = s.ending) : ItemKept c s' task where
  held := by
    rw [hget, hlog]
    exact h.held
  once := by
    rw [hlog]
    exact h.once
  flagged := by
    rw [hlog]
    exact hsettled
  byHandler := by
    rw [hlog, hturn]
    exact h.byHandler
  unpicked := by
    rw [hpicked, hturn]
    exact h.unpicked
  picked := by
    rw [hpicked, hturn]
    exact h.picked
  issued := by
    rw [hturn, hending]
    exact h.issued
  fate := by
    rw [hturn, hending, hlog]
    exact h.fate

/-- A change of another item. -/
theorem ItemKept.modify_ne {c : BatchCall} {s : CallState} {task : Task Text} {id : String}
    (h : ItemKept c s task) (hid : task.id ≠ id) (f : BatchItem → BatchItem) :
    ItemKept c (s.modify id f) task := by
  have hitem := CallState.modify_items_ne s f hid
  refine h.flags rfl ?_ ?_ (fun hsettled => ?_) rfl rfl
  · rw [hitem]
  · rw [hitem]
  · rw [hitem] at hsettled
    exact h.flagged hsettled

/-- One settlement by the handler. -/
theorem fate_handler {c : BatchCall} {how : CallEnd} {task : Task Text} {l : List Settlement}
    (hby : ∀ x ∈ l, x.byHandler = true) (honce : l.length ≤ 1) (hsome : l ≠ []) :
    Fate c how task l := by
  match l, hsome with
  | [x], _ => exact Or.inl ⟨x, rfl, hby x List.mem_cons_self⟩
  | _ :: _ :: _, _ =>
      simp only [List.length_cons] at honce
      omega

/-- Nothing is promised of a task that was left because of a lost lease. -/
theorem fate_lostLease {c : BatchCall} {task : Task Text} {l : List Settlement}
    (hby : ∀ x ∈ l, x.byHandler = true) (honce : l.length ≤ 1) :
    Fate c (.raised .lostLease) task l := by
  by_cases hsome : l = []
  · exact Or.inr hsome
  · exact fate_handler hby honce hsome

/-- Completing settles as promised. -/
theorem completes_of_complete {result : Option Text} {nowMs : Int} {r : Task Text} :
    Settlement.Completes ⟨false, .complete result, nowMs, r⟩ result where
  byWorker := rfl
  write := rfl
  canceled h := by
    dsimp only at h
    simp [Settlement.after, OwnedWrite.setList, setComplete, h]
  succeeded h := by
    dsimp only at h
    simp [Settlement.after, OwnedWrite.setList, setComplete, h]

/-- So does failing. -/
theorem fails_of_fail {c : BatchCall} {task r : Task Text} {error : Text} {retryable : Bool}
    {rand : Fin (2 ^ 53)} {nowMs : Int} :
    Settlement.Fails ⟨false, .fail error retryable
      (failDelayMs task.attempt retryable c.baseMs c.maxMs rand), nowMs, r⟩ c task error
      retryable where
  byWorker := rfl
  write := ⟨rand, rfl⟩
  recorded := rfl
  canceled h := by
    dsimp only at h
    simp [Settlement.after, OwnedWrite.setList, setFail, h]
  requeued h hretryable hattempt := by
    dsimp only at h hattempt
    simp [Settlement.after, OwnedWrite.setList, setFail, h, hretryable, hattempt]
  failed h hpermanent := by
    dsimp only at h hpermanent
    rcases hpermanent with hpermanent | hattempt
    · simp [Settlement.after, OwnedWrite.setList, setFail, h, hpermanent]
    · simp [Settlement.after, OwnedWrite.setList, setFail, h, hattempt]

/-- What `as_envelope` says about retrying. -/
theorem asEnvelope_retryable (reason : FailReason) :
    (asEnvelope reason true).2 = (Raised.error reason).retryable := by
  cases reason with
  | taskError type code message own details => rfl
  | «exception» name message => rfl
  | envelope fields => rfl
  | reason text => rfl

/-- The worker's write settles a leftover as promised. -/
theorem leftover_of_leftoverWrite {c : BatchCall} {how : CallEnd} {task r : Task Text}
    {rand : Fin (2 ^ 53)} {write : OwnedWrite Text} {nowMs : Int}
    (hwrite : c.leftoverWrite how task rand = some write) :
    Leftover c how task [⟨false, write, nowMs, r⟩] := by
  cases how with
  | returned value =>
      simp only [BatchCall.leftoverWrite] at hwrite
      simp only [Leftover]
      cases hbound : boundResult c.sdk c.stack (c.resultFor value task.id) with
      | value j =>
          rw [hbound] at hwrite
          cases hwrite
          exact ⟨_, rfl, completes_of_complete⟩
      | refused =>
          rw [hbound] at hwrite
          rcases Option.map_eq_some_iff.mp hwrite with ⟨error, herror, rfl⟩
          exact ⟨_, error, rfl, fails_of_fail, herror⟩
      | raised =>
          rw [hbound] at hwrite
          cases hwrite
  | raised error =>
      simp only [BatchCall.leftoverWrite, Option.bind_eq_some_iff] at hwrite
      rcases hwrite with ⟨⟨fields, retryable⟩, hout, hwrite⟩
      rcases Option.map_eq_some_iff.mp hwrite with ⟨text, htext, rfl⟩
      cases error with
      | error reason =>
          have hretryable := asEnvelope_retryable reason
          simp only [BatchCall.outcomeOf, Option.some.injEq] at hout
          rw [hout] at hretryable
          dsimp only at hretryable htext
          rw [hretryable] at htext ⊢
          refine ⟨_, text, rfl, fails_of_fail, fun reason' h => ?_⟩
          cases h
          rw [hout]
          exact htext
      | lostLease => cases hout
      | unreadable => cases hout
      | notException => cases hout
  | timedOut =>
      simp only [BatchCall.leftoverWrite, Option.bind_eq_some_iff] at hwrite
      rcases hwrite with ⟨out, hout, hwrite⟩
      cases hout
      rcases Option.map_eq_some_iff.mp hwrite with ⟨text, htext, rfl⟩
      exact ⟨_, text, rfl, fails_of_fail, htext⟩

/-- There is something to write if it can be encoded. -/
theorem leftoverWrite_of_encodes {c : BatchCall} {how : CallEnd} {task : Task Text}
    (rand : Fin (2 ^ 53)) (hencodes : c.Encodes how task) (hsettles : c.settles how = true) :
    ∃ write, c.leftoverWrite how task rand = some write := by
  cases how with
  | returned value =>
      simp only [BatchCall.Encodes] at hencodes
      simp only [BatchCall.leftoverWrite]
      cases hbound : boundResult c.sdk c.stack (c.resultFor value task.id) with
      | value j => exact ⟨_, rfl⟩
      | refused =>
          rw [hbound] at hencodes
          rcases Option.isSome_iff_exists.mp hencodes with ⟨error, herror⟩
          exact ⟨_, Option.map_eq_some_iff.mpr ⟨error, herror, rfl⟩⟩
      | raised =>
          rw [hbound] at hencodes
          cases hencodes
  | raised error =>
      cases error with
      | error reason =>
          rcases Option.isSome_iff_exists.mp hencodes with ⟨text, htext⟩
          exact ⟨_, Option.map_eq_some_iff.mpr ⟨text, htext, rfl⟩⟩
      | lostLease => cases hsettles
      | unreadable => cases hsettles
      | notException => cases hsettles
  | timedOut =>
      rcases Option.isSome_iff_exists.mp hencodes with ⟨text, htext⟩
      exact ⟨_, Option.map_eq_some_iff.mpr ⟨text, htext, rfl⟩⟩

/-- A running row stays with its worker while its lease lasts and nobody settles it. -/
theorem runningUnder_of_protocol {d : Dialect} {p p' : ProtocolState Text} {e : Execution Text}
    {id w : String} {r : Task Text} {u : Int} (hstep : protocol d p e = some p')
    (hget : p.db.get id = some r) (hrunning : RunningUnder w u r) (hlive : e.nowMs < u)
    (hnot : ¬e.statement.Settles id w) :
    ∃ r' u', p'.db.get id = some r' ∧ RunningUnder w u' r' := by
  cases hget' : p'.db.get id with
  | none =>
      rcases get_none_of_step hstep hget hget' with ⟨_, _, _, _, _, -, hpurgeable⟩
      have hterminal := (purgeable_iff.mp hpurgeable).1
      simp [hrunning.1, TaskStatus.isTerminal] at hterminal
  | some r' =>
      rcases get_of_step_of_get hstep hget hget' with ⟨rfl, -⟩ | ⟨heff, -⟩
      · exact ⟨r', u, rfl, hrunning⟩
      · rcases heff.runningUnder hrunning hlive with hsettles | ⟨u', hrunning', -⟩
        · rw [Database.id_of_get hget] at hsettles
          exact absurd hsettles hnot
        · exact ⟨r', u', rfl, hrunning'⟩

/-- Of a task whose lease is held, what is executed in time takes effect. -/
theorem ItemKept.settled_of_missed {c : BatchCall} {s : CallState} {task : Task Text}
    (h : ItemKept c s task) (hmem : task ∈ c.tasks) {nowMs : Int} (hlive : s.Live c nowMs)
    (hnot : ∀ r, s.protocol.db.get task.id = some r → ¬Owned c.workerId nowMs r) :
    (s.items task.id).settlements ≠ [] := by
  intro hopen
  rcases h.held hopen with ⟨r, u, hget, hstatus, hworker, hlease⟩
  exact hnot r hget ⟨hstatus, hworker, u, hlease, hlive task hmem hopen r u hget hlease⟩

/-- What takes effect was the first. -/
theorem open_of_landed {c : BatchCall} {s : CallState} {id : String} {nowMs : Int} {r : Task Text}
    (hnotBack : s.NotBack c id nowMs) (hget : s.protocol.db.get id = some r)
    (howned : Owned c.workerId nowMs r) : (s.items id).settlements = [] := by
  by_contra hsome
  exact hnotBack hsome r hget howned

/-- The handler's write takes effect on its task, or none does. -/
theorem ItemKept.executed {c : BatchCall} {s s₁ : CallState} {w : HandlerWrite} {named : Bool}
    {task : Task Text} {nowMs : Int} (h : ItemKept c s task)
    (hending : s.ending = none ∨ s.ending = some .timedOut)
    (hpicked : s.ending = none → s.picked = false) (hnotBack : s.NotBack c w.taskId nowMs)
    (hperforms : Performs c s true w.taskId w.write nowMs s₁ named) : ItemKept c s₁ task := by
  cases hperforms with
  | missed hrows hnot =>
      exact h.flags (hrows task.id) rfl rfl h.flagged rfl rfl
  | @landed p r hget howned hrow hothers =>
      have hopen := open_of_landed hnotBack hget howned
      by_cases hid : task.id = w.taskId
      · rw [← hid] at hopen ⊢
        have hrunning : (s.items task.id).turn ≠ .over := by
          intro hover
          rcases hending with hnone | htimedOut
          · rw [h.unpicked (hpicked hnone)] at hover
            cases hover
          · rcases h.fate hover _ htimedOut with ⟨x, hx, -⟩ | ⟨x, _, hx, -⟩
            · rw [hopen] at hx
              cases hx
            · rw [hopen] at hx
              cases hx
        refine ⟨fun hnone => ?_, ?_, fun _ => ?_, Or.inl fun x hx => ?_, fun hnot => ?_,
          fun hpicked' => ?_, fun write hwrite => ?_, fun hover => ?_⟩
        · simp [hopen] at hnone
        · simp [hopen]
        · simp [hopen]
        · simp only [CallState.modify_items_self, hopen, List.nil_append,
            List.mem_singleton] at hx
          rw [hx]
        · simpa using h.unpicked hnot
        · simpa using h.picked hpicked'
        · simpa using h.issued write (by simpa using hwrite)
        · exact absurd (by simpa using hover) hrunning
      · have hsame : ItemKept c { s with protocol := p } task :=
          h.flags (hothers task.id hid) rfl rfl h.flagged rfl rfl
        exact hsame.modify_ne hid _

/-- A task that is over and settled. -/
theorem ItemKept.of_fate {c : BatchCall} {s : CallState} {task : Task Text}
    (hpicked : s.picked = true) (hturn : (s.items task.id).turn = .over)
    (hsome : (s.items task.id).settlements ≠ [])
    (honce : (s.items task.id).settlements.length ≤ 1)
    (hfate : ∀ how, s.ending = some how → Fate c how task (s.items task.id).settlements) :
    ItemKept c s task where
  held hnone := absurd hnone hsome
  once := honce
  flagged _ := hsome
  byHandler := Or.inr hturn
  unpicked hnot := absurd (hpicked.symm.trans hnot) (by simp)
  picked _ := by simp [hturn]
  issued write hwrite := by simp [hturn] at hwrite
  fate _ := hfate

/-- The worker's write takes effect on its task, or the handler's did before. -/
theorem ItemKept.wrote {c : BatchCall} {s s₁ : CallState} {task : Task Text}
    {write : OwnedWrite Text} {named : Bool} {nowMs : Int} (h : ItemKept c s task)
    (hmem : task ∈ c.tasks) (hturn : (s.items task.id).turn = .issued write)
    (hlive : s.Live c nowMs) (hnotBack : s.NotBack c task.id nowMs)
    (hperforms : Performs c s false task.id write nowMs s₁ named) :
    ItemKept c (s₁.modify task.id fun item => item.finished write named) task := by
  have hby := h.byHandler.resolve_right (by simp [hturn])
  have hpicked : s.picked = true := by
    by_contra hnot
    have hwaiting := h.unpicked (Bool.eq_false_iff.mpr hnot)
    rw [hturn] at hwaiting
    cases hwaiting
  rcases h.issued write hturn with ⟨how, rand, hhow, hwrite⟩
  cases hperforms with
  | missed hrows hnot =>
      have hsome := h.settled_of_missed hmem hlive hnot
      refine .of_fate hpicked ?_ ?_ ?_ fun how' _ => ?_
      · simp
      · simpa using hsome
      · simpa using h.once
      · simpa using fate_handler hby h.once hsome
  | @landed p r hget howned hrow hothers =>
      have hopen := open_of_landed hnotBack hget howned
      refine .of_fate hpicked ?_ ?_ ?_ fun how' hhow' => ?_
      · simp
      · simp
      · simp [hopen]
      · have hsame : how' = how := Option.some.inj (hhow'.symm.trans hhow)
        rw [hsame]
        simp only [CallState.modify_items_self, BatchItem.finished_settlements, hopen,
          List.nil_append]
        exact Or.inr (leftover_of_leftoverWrite hwrite)

/-- And leaves the others alone. -/
theorem ItemKept.wrote_other {c : BatchCall} {s s₁ : CallState} {task : Task Text} {id : String}
    {write : OwnedWrite Text} {named : Bool} {nowMs : Int} (h : ItemKept c s task)
    (hid : task.id ≠ id) (hperforms : Performs c s false id write nowMs s₁ named)
    (f : BatchItem → BatchItem) : ItemKept c (s₁.modify id f) task := by
  refine ItemKept.modify_ne ?_ hid f
  cases hperforms with
  | missed hrows hnot => exact h.flags (hrows task.id) rfl rfl h.flagged rfl rfl
  | @landed p r hget howned hrow hothers =>
      have hsame : ItemKept c { s with protocol := p } task :=
        h.flags (hothers task.id hid) rfl rfl h.flagged rfl rfl
      exact hsame.modify_ne hid _

/-- Someone else's statement leaves a held task held. -/
theorem ItemKept.others {c : BatchCall} {s : CallState} {task : Task Text} {e : Execution Text}
    {p : ProtocolState Text} (h : ItemKept c s task) (hmem : task ∈ c.tasks)
    (hlive : s.Live c e.nowMs)
    (hnot : (s.items task.id).settlements = [] → ¬e.statement.Settles task.id c.workerId)
    (hp : protocol c.dialect s.protocol e = some p) :
    ItemKept c { s with protocol := p } task where
  held hopen := by
    rcases h.held hopen with ⟨r, u, hget, hrunning⟩
    exact runningUnder_of_protocol hp hget hrunning (hlive task hmem hopen r u hget hrunning.2.2)
      (hnot hopen)
  once := h.once
  flagged := h.flagged
  byHandler := h.byHandler
  unpicked := h.unpicked
  picked := h.picked
  issued := h.issued
  fate := h.fate

/-- Before anything was picked, the call may end any way. -/
theorem ItemKept.ended {c : BatchCall} {s : CallState} {task : Task Text} (h : ItemKept c s task)
    (hnot : s.picked = false) (how : CallEnd) (items : String → BatchItem)
    (hlog : (items task.id).settlements = (s.items task.id).settlements)
    (hturn : (items task.id).turn = (s.items task.id).turn)
    (hsettled : (items task.id).settled = (s.items task.id).settled) :
    ItemKept c { s with ending := some how, items := items } task := by
  have hwaiting : (items task.id).turn = .waiting := hturn.trans (h.unpicked hnot)
  refine ⟨?_, ?_, ?_, ?_, fun _ => hwaiting, fun hpicked => ?_, fun write hwrite => ?_,
    fun hover => ?_⟩
  · simpa only [hlog] using h.held
  · simpa only [hlog] using h.once
  · simpa only [hlog, hsettled] using h.flagged
  · simpa only [hlog, hturn] using h.byHandler
  · exact absurd (hnot.symm.trans hpicked) (by simp)
  · exact absurd (hwaiting.symm.trans hwrite) (by simp)
  · exact absurd (hwaiting.symm.trans hover) (by simp)

/-- `_settle_each` passes over what the handler settled, and over everything after a lost
lease. -/
theorem ItemKept.pick {c : BatchCall} {s : CallState} {task : Task Text} {how : CallEnd}
    (h : ItemKept c s task) (hhow : s.ending = some how) (hnot : s.picked = false)
    (hraised : ∀ error, how = .raised error → Handled s error task) :
    ItemKept c { s with
      picked := true
      items := fun id =>
        { s.items id with
          turn := if (s.items id).settled || !c.settles how then .over else .chosen } } task := by
  have hby := h.byHandler.resolve_right (by simp [h.unpicked hnot])
  refine ⟨h.held, h.once, h.flagged, Or.inl hby, fun hpicked => ?_, fun _ hwaiting => ?_,
    fun write hwrite => ?_, fun hover how' hhow' => ?_⟩
  · cases hpicked
  · dsimp only at hwaiting
    split at hwaiting <;> cases hwaiting
  · dsimp only at hwrite
    split at hwrite <;> cases hwrite
  · have hsame : how' = how := Option.some.inj (hhow'.symm.trans hhow)
    rw [hsame]
    dsimp only at hover ⊢
    split at hover
    · rename_i hpassed
      rw [Bool.or_eq_true] at hpassed
      rcases hpassed with hsettled | hnothing
      · exact fate_handler hby h.once (h.flagged hsettled)
      · cases how with
        | returned value => cases hnothing
        | timedOut => cases hnothing
        | raised error =>
            rcases hraised error rfl with rfl | ⟨reason, rfl⟩ | hsome
            · exact fate_lostLease hby h.once
            · cases hnothing
            · exact fate_handler hby h.once hsome
    · cases hover

/-- Either there is a statement to come to, or the task was settled or has nothing to bind. -/
theorem BatchCall.nextTurn_cases (c : BatchCall) (how : CallEnd) (task : Task Text)
    (rand : Fin (2 ^ 53)) (item : BatchItem) :
    (c.nextTurn how task rand item = .over ∧
        (item.settled = true ∨ c.leftoverWrite how task rand = none)) ∨
      ∃ write, c.nextTurn how task rand item = .issued write ∧
        c.leftoverWrite how task rand = some write := by
  simp only [BatchCall.nextTurn]
  split
  · rename_i hsettled
    exact Or.inl ⟨rfl, Or.inl hsettled⟩
  · rename_i hwrite _
    exact Or.inr ⟨_, rfl, hwrite⟩
  · rename_i hnone _
    exact Or.inl ⟨rfl, Or.inr hnone⟩

/-- `_succeed_one` and `_safe_fail` come to their statements. -/
theorem ItemKept.began {c : BatchCall} {s : CallState} {task : Task Text} {how : CallEnd}
    {rand : Fin (2 ^ 53)} (h : ItemKept c s task) (hhow : s.ending = some how)
    (hturn : (s.items task.id).turn = .chosen) (hencodes : c.Encodes how task)
    (hraised : ∀ error, how = .raised error → Handled s error task) :
    ItemKept c (s.modify task.id fun item =>
      { item with turn := c.nextTurn how task rand item }) task := by
  have hby := h.byHandler.resolve_right (by simp [hturn])
  have hpicked : s.picked = true := by
    by_contra hnot
    have hwaiting := h.unpicked (Bool.eq_false_iff.mpr hnot)
    rw [hturn] at hwaiting
    cases hwaiting
  refine ⟨?_, ?_, ?_, ?_, fun hnot => ?_, fun _ hwaiting => ?_, fun write hwrite => ?_,
    fun hover how' hhow' => ?_⟩
  · simpa using h.held
  · simpa using h.once
  · simpa using h.flagged
  · exact Or.inl (by simpa using hby)
  · exact absurd (hpicked.symm.trans hnot) (by simp)
  · rw [CallState.modify_items_self] at hwaiting
    rcases c.nextTurn_cases how task rand (s.items task.id) with ⟨hnext, -⟩ | ⟨write, hnext, -⟩
    · exact absurd (hnext.symm.trans hwaiting) (by simp)
    · exact absurd (hnext.symm.trans hwaiting) (by simp)
  · rw [CallState.modify_items_self] at hwrite
    rcases c.nextTurn_cases how task rand (s.items task.id) with ⟨hnext, -⟩ | ⟨write', hnext, hleft⟩
    · exact absurd (hnext.symm.trans hwrite) (by simp)
    · cases hnext.symm.trans hwrite
      exact ⟨how, rand, hhow, hleft⟩
  · have hsame : how' = how := Option.some.inj (hhow'.symm.trans hhow)
    rw [hsame]
    rw [CallState.modify_items_self] at hover ⊢
    rcases c.nextTurn_cases how task rand (s.items task.id) with
      ⟨-, hsettled | hnone⟩ | ⟨write, hnext, -⟩
    · exact fate_handler hby h.once (h.flagged hsettled)
    · by_cases hsettles : c.settles how = true
      · rcases leftoverWrite_of_encodes rand hencodes hsettles with ⟨write, hwrite⟩
        rw [hnone] at hwrite
        cases hwrite
      · cases how with
        | returned value => exact absurd rfl hsettles
        | timedOut => exact absurd rfl hsettles
        | raised error =>
            rcases hraised error rfl with rfl | ⟨reason, rfl⟩ | hsome
            · exact fate_lostLease hby h.once
            · exact absurd rfl hsettles
            · exact fate_handler hby h.once hsome
    · exact absurd (hnext.symm.trans hover) (by simp)

/-- The rows and the books are as before. -/
theorem booked_of_eq {s s' : CallState} (hprotocol : s'.protocol = s.protocol)
    (hlog : ∀ id, (s'.items id).settlements = (s.items id).settlements) : Booked s s' :=
  fun id => Or.inl ⟨by rw [hprotocol], hlog id⟩

theorem Performs.booked {c : BatchCall} {s s₁ : CallState} {byHandler named : Bool} {id : String}
    {write : OwnedWrite Text} {nowMs : Int} (h : Performs c s byHandler id write nowMs s₁ named) :
    Booked s s₁ := by
  intro id'
  cases h with
  | missed hrows hnot => exact Or.inl ⟨hrows id', rfl⟩
  | @landed p r hget howned hrow hothers =>
      by_cases hid : id' = id
      · subst hid
        exact Or.inr ⟨⟨byHandler, write, nowMs, r⟩, by simp, hget, hrow⟩
      · refine Or.inl ⟨hothers id' hid, ?_⟩
        rw [CallState.modify_items_ne _ _ hid]

/-- The steps of the call itself keep the books. -/
theorem booked_of_step {c : BatchCall} {s s' : CallState} {l : CallStep}
    (hown : ∀ e, l ≠ .other e) (hstep : batchCall c s l = some s') : Booked s s' := by
  cases callEffect_of_step hstep with
  | executed hw hperforms => exact hperforms.booked
  | @resumed w named hw hreply =>
      refine booked_of_eq rfl fun id => ?_
      rw [CallState.settlements_modify]
      exact fun item => item.answered_settlements named
  | @wrote task nowMs held write s₁ named hmem hturn hperforms =>
      intro id
      have hbooked := hperforms.booked id
      rw [CallState.settlements_modify]
      · exact hbooked
      · exact fun item => item.finished_settlements write named
  | began hhow hmem hturn =>
      refine booked_of_eq rfl fun id => ?_
      rw [CallState.settlements_modify]
      exact fun _ => rfl
  | beat =>
      refine booked_of_eq rfl fun id => ?_
      rw [CallState.settlements_modify]
      exact fun _ => rfl
  | others hp => exact absurd rfl (hown _)
  | passed => exact booked_of_eq rfl fun _ => rfl
  | awaited hidle hmem => exact booked_of_eq rfl fun _ => rfl
  | abandoned hended => exact booked_of_eq rfl fun _ => rfl
  | returned hidle => exact booked_of_eq rfl fun _ => rfl
  | raised hidle => exact booked_of_eq rfl fun _ => rfl
  | timedOut hrunning => exact booked_of_eq rfl fun _ => rfl
  | picked hhow hnot => exact booked_of_eq rfl fun _ => rfl

/-- The books only grow. -/
theorem Booked.settlements_ne_nil {s s' : CallState} {id : String} (h : Booked s s')
    (hsome : (s.items id).settlements ≠ []) : (s'.items id).settlements ≠ [] := by
  rcases h id with ⟨-, hlog⟩ | ⟨x, hlog, -⟩
  · rw [hlog]
    exact hsome
  · simp [hlog]

theorem Handled.of_step {c : BatchCall} {s s' : CallState} {l : CallStep} {error : Raised}
    {task : Task Text} (h : Handled s error task) (hstep : batchCall c s l = some s') :
    Handled s' error task := by
  refine h.imp_right fun h => h.imp_right fun hsome => ?_
  by_cases hown : ∀ e, l ≠ .other e
  · exact (booked_of_step hown hstep).settlements_ne_nil hsome
  · push Not at hown
    rcases hown with ⟨e, rfl⟩
    cases callEffect_of_step hstep with
    | passed => exact hsome
    | awaited hidle hmem => exact hsome
    | others hp => exact hsome

/-- What every step keeps. -/
theorem callKept_of_step {c : BatchCall} {s s' : CallState} {l : CallStep}
    (hunique : ∀ task ∈ c.tasks, ∀ task' ∈ c.tasks, task.id = task'.id → task = task')
    (hkept : CallKept c s) (horder : BatchOrder c s l) (hstep : batchCall c s l = some s') :
    CallKept c s' := by
  rcases horder with ⟨hleases, hprovided⟩
  have hraised : ∀ error, s.ending = some (.raised error) →
      ∀ task ∈ c.tasks, Handled s' error task :=
    fun error herror task hmem => (hkept.raised error herror task hmem).of_step hstep
  cases callEffect_of_step hstep with
  | passed => exact hkept
  | @awaited _ task write hidle hmem =>
      simp only [CallState.idle, Bool.and_eq_true, Option.isNone_iff_eq_none] at hidle
      refine ⟨fun task' hmem' => ?_, hkept.running, fun w hw => ?_, hraised⟩
      · have h := hkept.items task' hmem'
        exact h.flags rfl rfl rfl h.flagged rfl rfl
      · cases hw
        exact ⟨⟨task, hmem, rfl⟩, fun hreply => Bool.noConfusion hreply, Or.inl hidle.1⟩
  | @executed nowMs held w s₁ named hw hperforms =>
      obtain ⟨⟨task, hmem, hid⟩, -, hending⟩ := hkept.awaited w hw
      have hnotBack : s.NotBack c w.taskId nowMs := hprovided w hw
      have hsame : s₁.ending = s.ending ∧ s₁.picked = s.picked := by
        cases hperforms with
        | missed hrows hnot => exact ⟨rfl, rfl⟩
        | landed hget howned hrow hothers => exact ⟨rfl, rfl⟩
      have hitems : ∀ task ∈ c.tasks, ItemKept c s₁ task := fun task' hmem' =>
        (hkept.items task' hmem').executed hending hkept.running hnotBack hperforms
      refine ⟨fun task' hmem' => ?_, fun hnone => ?_, fun w' hw' => ?_, fun error herror => ?_⟩
      · have h := hitems task' hmem'
        exact h.flags rfl rfl rfl h.flagged rfl rfl
      · rw [hsame.2]
        exact hkept.running (hsame.1.symm.trans hnone)
      · cases hw'
        refine ⟨⟨task, hmem, hid⟩, fun _ => ?_, by rw [hsame.1]; exact hending⟩
        cases hperforms with
        | missed hrows hnot =>
            have hsome := (hkept.items task hmem).settled_of_missed hmem hleases (hid ▸ hnot)
            rw [hid] at hsome
            exact hsome
        | landed hget howned hrow hothers => simp
      · exact hraised error (hsame.1.symm.trans herror)
  | @resumed w named hw hreply =>
      obtain ⟨hmem, hsome, hending⟩ := hkept.awaited w hw
      refine ⟨fun task' hmem' => ?_, hkept.running, fun w' hw' => ?_, hraised⟩
      · have h := hkept.items task' hmem'
        by_cases hid : task'.id = w.taskId
        · rw [← hid] at hsome ⊢
          refine h.flags rfl ?_ ?_ (fun _ => hsome (by rw [hreply]; rfl)) rfl rfl
          · simp
          · simp
        · have hdone : ItemKept c { s with inFlight := none } task' :=
            h.flags rfl rfl rfl h.flagged rfl rfl
          exact hdone.modify_ne hid _
      · cases hw'
  | abandoned hended =>
      refine ⟨fun task' hmem' => ?_, hkept.running, fun w' hw' => ?_, hraised⟩
      · have h := hkept.items task' hmem'
        exact h.flags rfl rfl rfl h.flagged rfl rfl
      · cases hw'
  | @returned value hidle =>
      simp only [CallState.idle, Bool.and_eq_true, Option.isNone_iff_eq_none] at hidle
      have hnot := hkept.running hidle.1
      refine ⟨fun task' hmem' => ?_, fun hnone => ?_, fun w hw => ?_, fun error herror => ?_⟩
      · exact (hkept.items task' hmem').ended hnot _ s.items rfl rfl rfl
      · cases hnone
      · exact absurd (hidle.2.symm.trans hw) (by simp)
      · cases herror
  | @raised error hidle =>
      simp only [CallState.idle, Bool.and_eq_true, Option.isNone_iff_eq_none] at hidle
      have hnot := hkept.running hidle.1
      refine ⟨fun task' hmem' => ?_, fun hnone => ?_, fun w hw => ?_, fun error' herror => ?_⟩
      · exact (hkept.items task' hmem').ended hnot _ s.items rfl rfl rfl
      · cases hnone
      · exact absurd (hidle.2.symm.trans hw) (by simp)
      · cases herror
        refine fun task hmem => hprovided.imp_right fun h => h.imp_right fun hsettled => ?_
        exact (hkept.items task hmem).flagged (hsettled task hmem)
  | timedOut hrunning =>
      have hnot := hkept.running hrunning
      refine ⟨fun task' hmem' => ?_, fun hnone => ?_, fun w hw => ?_, fun error herror => ?_⟩
      · exact (hkept.items task' hmem').ended hnot _ _ rfl rfl rfl
      · cases hnone
      · exact ⟨(hkept.awaited w hw).1, (hkept.awaited w hw).2.1, Or.inr rfl⟩
      · cases herror
  | @picked how hhow hnot =>
      refine ⟨fun task' hmem' => ?_, fun hnone => ?_, hkept.awaited, hraised⟩
      · refine (hkept.items task' hmem').pick hhow hnot fun error herror => ?_
        exact hkept.raised error (hhow.trans (congrArg some herror)) _ hmem'
      · exact absurd (hhow.symm.trans hnone) (by simp)
  | @began task rand how hhow hmem hturn =>
      refine ⟨fun task' hmem' => ?_, hkept.running, fun w hw => ?_, hraised⟩
      · have h := hkept.items task' hmem'
        by_cases hid : task'.id = task.id
        · cases hunique task' hmem' task hmem hid
          refine h.began hhow hturn (hprovided how hhow) fun error herror => ?_
          exact hkept.raised error (hhow.trans (congrArg some herror)) _ hmem'
        · exact h.modify_ne hid _
      · obtain ⟨hin, hsome, hending⟩ := hkept.awaited w hw
        refine ⟨hin, fun hreply => ?_, hending⟩
        rw [CallState.settlements_modify]
        · exact hsome hreply
        · exact fun _ => rfl
  | @wrote task nowMs held write s₁ named hmem hturn hperforms =>
      have hsame : s₁.ending = s.ending ∧ s₁.picked = s.picked ∧ s₁.inFlight = s.inFlight := by
        cases hperforms with
        | missed hrows hnot => exact ⟨rfl, rfl, rfl⟩
        | landed hget howned hrow hothers => exact ⟨rfl, rfl, rfl⟩
      refine ⟨fun task' hmem' => ?_, fun hnone => ?_, fun w hw => ?_, fun error herror => ?_⟩
      · have h := hkept.items task' hmem'
        by_cases hid : task'.id = task.id
        · cases hunique task' hmem' task hmem hid
          exact h.wrote hmem hturn hleases hprovided hperforms
        · exact h.wrote_other hid hperforms _
      · rw [CallState.modify_picked, hsame.2.1]
        exact hkept.running (hsame.1.symm.trans hnone)
      · obtain ⟨hin, hsome, hending⟩ := hkept.awaited w (hsame.2.2.symm.trans hw)
        refine ⟨hin, fun hreply => ?_, by rw [CallState.modify_ending, hsame.1]; exact hending⟩
        rw [CallState.settlements_modify]
        · exact hperforms.booked.settlements_ne_nil (hsome hreply)
        · exact fun item => item.finished_settlements write named
      · exact hraised error (hsame.1.symm.trans herror)
  | @beat id =>
      refine ⟨fun task' hmem' => ?_, hkept.running, fun w hw => ?_, hraised⟩
      · have h := hkept.items task' hmem'
        by_cases hid : task'.id = id
        · rw [← hid]
          refine h.flags rfl ?_ ?_ (fun hsettled => h.flagged ?_) rfl rfl
          · simp
          · simp
          · simpa using hsettled
        · exact h.modify_ne hid _
      · obtain ⟨hin, hsome, hending⟩ := hkept.awaited w hw
        refine ⟨hin, fun hreply => ?_, hending⟩
        rw [CallState.settlements_modify]
        · exact hsome hreply
        · exact fun _ => rfl
  | others hp =>
      refine ⟨fun task' hmem' => ?_, hkept.running, hkept.awaited, hraised⟩
      exact (hkept.items task' hmem').others hmem' hleases.1 (hleases.2 task' hmem') hp

/-! ## Progress -/

/-- One task comes nearer to the end, and none is set back. -/
theorem left_lt {c : BatchCall} {s s' : CallState} {task : Task Text} (hmem : task ∈ c.tasks)
    (hpicked : s'.picked = s.picked)
    (hothers : ∀ id ≠ task.id, (s'.items id).turn = (s.items id).turn)
    (hlt : (s'.items task.id).turn.distance < (s.items task.id).turn.distance) :
    s'.left c < s.left c := by
  rw [CallState.left, CallState.left, hpicked]
  refine Nat.add_lt_add_left (List.sum_lt_sum _ _ (fun task' _ => ?_) ⟨task, hmem, hlt⟩) _
  by_cases hid : task'.id = task.id
  · rw [hid]
    exact Nat.le_of_lt hlt
  · rw [hothers _ hid]

/-- Until the call is over the worker has a step to take. -/
theorem exists_step_left_lt {c : BatchCall} {s : CallState} (hkept : CallKept c s)
    (hended : s.ending.isSome = true) (hnot : ¬s.Over c) :
    ∃ l s', batchCall c s l = some s' ∧ s'.left c < s.left c := by
  rcases Option.isSome_iff_exists.mp hended with ⟨how, hhow⟩
  cases hpicked : s.picked with
  | false =>
      refine ⟨.settleEach, _, by simp only [batchCall, hhow, hpicked]; rfl, ?_⟩
      rw [CallState.left, CallState.left, hpicked]
      have hsum : (c.tasks.map fun task => ItemTurn.distance
            (if (s.items task.id).settled || !c.settles how then .over else .chosen)).sum ≤
          (c.tasks.map fun task => (s.items task.id).turn.distance).sum := by
        refine List.sum_le_sum fun task hmem => ?_
        rw [(hkept.items task hmem).unpicked hpicked]
        split
        · exact Nat.zero_le _
        · exact Nat.le_succ _
      simp only [↓reduceIte, Bool.false_eq_true]
      omega
  | true =>
      have hleft : ∃ task ∈ c.tasks, (s.items task.id).turn ≠ .over := by
        by_contra hnone
        refine hnot ⟨hpicked, fun task hmem => ?_⟩
        by_contra hturn
        exact hnone ⟨task, hmem, hturn⟩
      rcases hleft with ⟨task, hmem, hturn⟩
      cases hwhere : (s.items task.id).turn with
      | waiting => exact absurd hwhere ((hkept.items task hmem).picked hpicked)
      | chosen =>
          have hstep : batchCall c s (.settle task 0) = some (s.modify task.id fun item =>
              { item with turn := c.nextTurn how task 0 item }) := by
            simp [batchCall, hhow, hwhere, hmem]
          refine ⟨.settle task 0, _, hstep, left_lt hmem rfl (fun id hid => ?_) ?_⟩
          · rw [CallState.modify_items_ne s _ hid]
          · rw [CallState.modify_items_self, hwhere]
            rcases c.nextTurn_cases how task 0 (s.items task.id) with ⟨hnext, -⟩ | ⟨w, hnext, -⟩
            · simp [hnext, ItemTurn.distance]
            · simp [hnext, ItemTurn.distance]
      | issued write =>
          have henabled : (s.perform c false task.id write s.protocol.clockMs unlocked).isSome =
              true := by
            simp [CallState.perform, protocol]
          rcases Option.isSome_iff_exists.mp henabled with ⟨⟨s₁, named⟩, hperform⟩
          have hturns : ∀ id, (s₁.items id).turn = (s.items id).turn ∧ s₁.picked = s.picked := by
            intro id
            cases performs_of_perform hperform with
            | missed hrows hnot => exact ⟨rfl, rfl⟩
            | landed hget howned hrow hothers =>
                refine ⟨?_, rfl⟩
                by_cases hid : id = task.id
                · rw [hid, CallState.modify_items_self]
                · rw [CallState.modify_items_ne _ _ hid]
          have hstep : batchCall c s (.write task s.protocol.clockMs unlocked) =
              some (s₁.modify task.id fun item => item.finished write named) := by
            simp [batchCall, hwhere, hperform, hmem]
          refine ⟨.write task s.protocol.clockMs unlocked, _, hstep,
            left_lt hmem (hturns task.id).2 (fun id hid => ?_) ?_⟩
          · rw [CallState.modify_items_ne s₁ _ hid]
            exact (hturns id).1
          · rw [CallState.modify_items_self, BatchItem.finished_turn, hwhere]
            exact Nat.one_pos
      -- its turn is over
      | _ => exact absurd hwhere hturn

/-! ## The result -/

/-- The worker `w` calls a batch handler with the task `t`. -/
def soloBatch : BatchCall where
  sdk := .python
  dialect := .sqlite
  stack := ⟨1000, 1000⟩
  spell _ := none
  refusal _ := []
  workerId := "w"
  shownName := latin "work"
  batched := true
  maxRunMs := none
  baseMs := 1000
  maxMs := 30000
  tasks := (claimedDatabase.get "t").toList

/-- When it was claimed. -/
def soloClaim : ProtocolState Text where
  clockMs := 1
  db := claimedDatabase

theorem claimed_soloBatch : soloBatch.Claimed soloClaim := by
  intro task hmem
  rcases List.mem_singleton.mp (show task ∈ [_] from hmem) with rfl
  exact ⟨11, rfl, rfl, rfl, rfl⟩

/-- The handler returns true for its task, and the worker completes it. -/
def soloRun : List CallStep :=
  [.returns ⟨.null, fun _ => some (.bool true)⟩, .settleEach] ++
    soloBatch.tasks.flatMap fun task => [.settle task 0, .write task 2 unlocked]

theorem steps_soloRun :
    (batchCall soloBatch).Steps (BatchOrder soloBatch) (.delivered soloClaim) soloRun
      ((batchCall soloBatch).drive (.delivered soloClaim) soloRun) := by
  refine .cons ⟨trivial, trivial⟩ rfl (.cons ⟨trivial, trivial⟩ rfl
    (.cons ⟨trivial, fun how hhow => ?_⟩ rfl (.cons ⟨?_, ?_⟩ rfl (.nil _))))
  · cases hhow
    trivial
  · intro task htask hopen r u hget hu
    rcases List.mem_singleton.mp (show task ∈ [_] from htask) with rfl
    cases hget
    cases hu
    decide
  · intro hsome
    exact absurd rfl hsome

end CairnQ
