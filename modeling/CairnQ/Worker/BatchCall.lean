import CairnQ.Protocol.FailureRecord
import CairnQ.Protocol.Leases

/-!
# A handler call

One handler call over any number of tasks.  The handler settles whichever of them it likes,
one awaited call at a time, and ends as it likes; what it leaves, the worker settles by how
the call ended.  Cancel requests, heartbeats and everybody else's statements come in between,
and a handler that was abandoned on timeout may still have one write on the way.

Main results:

- Theorem `performs_of_perform`: a settlement finds no row, or takes effect and is booked.
- Theorem `callEffect_of_step`: what each step of a call does.
-/

namespace CairnQ

open Relational JsonText Transition

/-! ## Backoff -/

/-- How far the window of the backoff has opened. -/
def retryWindow (attempt : Int) (baseMs maxMs : Nat) : Nat :=
  min maxMs (baseMs * 2 ^ (attempt - 1).toNat)

/-- `retry_delay_ms`; a random number is so many times 2^-53. -/
def retryDelayMs (attempt : Int) (baseMs maxMs : Nat) (rand : Fin (2 ^ 53)) : Nat :=
  if baseMs = 0 then 0
  else
    let window := retryWindow attempt baseMs maxMs
    window / 2 + rand.val * (window - window / 2) / 2 ^ 53

/-- `fail_delay_ms`. -/
def failDelayMs (attempt : Int) (retryable : Bool) (baseMs maxMs : Nat) (rand : Fin (2 ^ 53)) :
    Int :=
  if retryable then retryDelayMs attempt baseMs maxMs rand else 0

/-! ## The call -/

/-- The worker and the registration that a call belongs to, and the tasks as they were claimed.
`refusal` is what the encoder's error says about a value. -/
structure BatchCall where
  sdk : Sdk
  dialect : Dialect
  stack : EncoderStack
  spell : Json .value → Option Text
  refusal : Json .value → Text
  workerId : String
  shownName : Text
  batched : Bool
  maxRunMs : Option Nat
  baseMs : Nat
  maxMs : Nat
  tasks : List (Task Text)

/-- What a handler returned, and what looking up a task id in it finds if it is a mapping. -/
structure HandlerValue where
  value : Json .value
  entry : String → Option (Json .value)

/-- What a handler can raise. -/
inductive Raised
  | lostLease
  | error (reason : FailReason)
  /-- an error whose message cannot be had -/
  | unreadable
  /-- a Python `BaseException` that is no `Exception`, such as a `CancelledError` -/
  | notException

/-- Everything that Node throws is caught. -/
def Raised.possible (sdk : Sdk) : Raised → Bool
  | .notException => decide (sdk = .python)
  | .lostLease | .error _ | .unreadable => true

/-- How the attempt ends. -/
inductive CallEnd
  | returned (value : HandlerValue)
  | raised (error : Raised)
  | timedOut

/-- What `complete` binds for a result, if its encoder does not fail. -/
inductive BoundResult
  | value (j : Option Text)
  | refused
  | raised
deriving DecidableEq, Repr

/-- `None`; in Node also `undefined`. -/
def isNone (sdk : Sdk) : Json .value → Bool
  | .null => true
  | .absent => decide (sdk = .node)
  | _ => false

/-- The result as `complete` encodes it. -/
def boundResult (sdk : Sdk) (stack : EncoderStack) (result : Json .value) : BoundResult :=
  if isNone sdk result then .value none
  else
    match dumpJson sdk stack result with
    | .text t => .value (some t)
    | .refused => .refused
    | .raised => .raised

namespace BatchCall

/-- `_timeout_envelope`. -/
def timeoutEnvelope (c : BatchCall) : Json .fields :=
  let shownMs := latin (toString (c.maxRunMs.getD 0))
  let limit :=
    match c.sdk with
    | .python => latin " exceeded max_run_ms="
    | .node => latin " exceeded maxRunMs="
  errorEnvelope (latin "HandlerTimeout") (latin "handler_timeout")
    (latin "handler for " ++ c.shownName ++ limit ++ shownMs ++
      latin "ms; the attempt was abandoned") true .noFields

/-- The envelope of a result that the encoder refused. -/
def unserializableEnvelope (c : BatchCall) (result : Json .value) : Json .fields :=
  errorEnvelope (latin "SerializationError") (latin "unserializable_result")
    (latin "handler result is not JSON-serializable: " ++ c.refusal result) false .noFields

/-- `_outcome_of`: what there is to record of an attempt that ended badly.  An error without a
message makes it raise, and what is no exception does not come here; nothing is recorded
then either. -/
def outcomeOf (c : BatchCall) : CallEnd → Option (Json .fields × Bool)
  | .raised (.error reason) => some (asEnvelope reason true)
  | .timedOut => some (c.timeoutEnvelope, true)
  | .returned _ | .raised .lostLease | .raised .unreadable | .raised .notException => none

/-- The result of one task: its entry in what a batch handler returned, or all of what a handler
of single tasks did. -/
def resultFor (c : BatchCall) (value : HandlerValue) (id : String) : Json .value :=
  if c.batched then (value.entry id).getD .null else value.value

/-- The statement of a failure, unless its record cannot be bound. -/
def failWrite (c : BatchCall) (task : Task Text) (fields : Json .fields) (retryable : Bool)
    (rand : Fin (2 ^ 53)) : Option (OwnedWrite Text) :=
  (boundError c.sdk c.stack c.spell fields retryable).map fun error =>
    .fail error retryable (failDelayMs task.attempt retryable c.baseMs c.maxMs rand)

/-- What the worker writes for a task that the handler left. -/
def leftoverWrite (c : BatchCall) (how : CallEnd) (task : Task Text) (rand : Fin (2 ^ 53)) :
    Option (OwnedWrite Text) :=
  match how with
  | .returned value =>
      let result := c.resultFor value task.id
      match boundResult c.sdk c.stack result with
      | .value j => some (.complete j)
      | .refused => c.failWrite task (c.unserializableEnvelope result) false rand
      | .raised => none
  | .raised _ | .timedOut =>
      (c.outcomeOf how).bind fun out => c.failWrite task out.1 out.2 rand

end BatchCall

/-! ## State -/

/-- How far the worker has come with one task. -/
inductive ItemTurn
  | waiting
  /-- among those that `_settle_each` settles -/
  | chosen
  | issued (write : OwnedWrite Text)
  | over

/-- A settlement that took effect: whose it was, and the row before it. -/
structure Settlement where
  byHandler : Bool
  write : OwnedWrite Text
  nowMs : Int
  before : Task Text

/-- The row after it. -/
def Settlement.after (x : Settlement) : Task Text :=
  (x.write.setList x.nowMs).set x.before

/-- The context of one task, and the settlements that took effect. -/
structure BatchItem where
  settled : Bool
  leaseLost : Bool
  turn : ItemTurn
  settlements : List Settlement

/-- As it is delivered. -/
def BatchItem.fresh : BatchItem where
  settled := false
  leaseLost := false
  turn := .waiting
  settlements := []

/-- The write a handler waits for; once it is executed, whether it found its row. -/
structure HandlerWrite where
  taskId : String
  write : OwnedWrite Text
  reply : Option Bool

/-- One call in progress. -/
structure CallState where
  protocol : ProtocolState Text
  items : String → BatchItem
  inFlight : Option HandlerWrite
  ending : Option CallEnd
  picked : Bool

namespace CallState

/-- As it starts. -/
def delivered (p : ProtocolState Text) : CallState where
  protocol := p
  items _ := .fresh
  inFlight := none
  ending := none
  picked := false

/-- The handler runs and waits for nothing. -/
def idle (s : CallState) : Bool :=
  s.ending.isNone && s.inFlight.isNone

/-- Change one item. -/
def modify (s : CallState) (id : String) (f : BatchItem → BatchItem) : CallState :=
  { s with items := fun id' => if id' = id then f (s.items id') else s.items id' }

/-- Execute the settlement of one task; the second part says whether it found its row. -/
def perform (s : CallState) (c : BatchCall) (byHandler : Bool) (id : String)
    (write : OwnedWrite Text) (nowMs : Int) (held : String → Bool) : Option (CallState × Bool) := do
  let e : Execution Text :=
    { nowMs := nowMs, held := held, statement := .owned id c.workerId write }
  let p ← CairnQ.protocol c.dialect s.protocol e
  let named := (e.reply c.dialect s.protocol.db).names id
  let recorded :=
    if named then (s.protocol.db.get id).toList.map (Settlement.mk byHandler write nowMs) else []
  some (({ s with protocol := p } : CallState).modify id fun item =>
    { item with settlements := item.settlements ++ recorded }, named)

end CallState

/-! ## Steps -/

/-- A label of a call. -/
inductive CallStep
  /-- the handler calls `ctx.succeed` -/
  | succeed (task : Task Text) (result : Json .value)
  /-- the handler calls `ctx.fail` -/
  | fail (task : Task Text) (error : FailReason) (retryable : Bool) (rand : Fin (2 ^ 53))
  /-- the store executes the write the handler waits for -/
  | execute (nowMs : Int) (held : String → Bool)
  /-- the handler goes on -/
  | resume
  /-- or, abandoned, it never does -/
  | abandon
  | returns (value : HandlerValue)
  | raises (error : Raised)
  | timesOut
  /-- `_settle_each` looks what is left -/
  | settleEach
  /-- `_succeed_one` or `_safe_fail` begins -/
  | settle (task : Task Text) (rand : Fin (2 ^ 53))
  /-- and its statement is executed -/
  | write (task : Task Text) (nowMs : Int) (held : String → Bool)
  /-- a heartbeat that came after the settlement did not find the task -/
  | beatMisses (id : String)
  /-- anyone else executes a statement, heartbeats included -/
  | other (e : Execution Text)

/-- The worker has something to settle after this end. -/
def BatchCall.settles (c : BatchCall) : CallEnd → Bool
  | .returned _ => true
  | .raised error => (c.outcomeOf (.raised error)).isSome
  | .timedOut => true

/-- Where `_succeed_one` or `_safe_fail` gets before its statement is executed. -/
def BatchCall.nextTurn (c : BatchCall) (how : CallEnd) (task : Task Text) (rand : Fin (2 ^ 53))
    (item : BatchItem) : ItemTurn :=
  match how, item.settled, c.leftoverWrite how task rand with
  | .returned _, true, _ => .over
  | _, _, some write => .issued write
  | _, _, none => .over

/-- The flags after the answer to a settlement. -/
def BatchItem.answered (item : BatchItem) (named : Bool) : BatchItem :=
  if named then { item with settled := true } else { item with leaseLost := true }

/-- The flags after the answer to the worker's own; `_safe_fail` passes over a lost lease. -/
def BatchItem.finished (item : BatchItem) (write : OwnedWrite Text) (named : Bool) : BatchItem :=
  match named, write with
  | true, _ => { item with turn := .over, settled := true }
  | false, .fail _ _ _ => { item with turn := .over }
  | false, _ => { item with turn := .over, leaseLost := true }

/-- One call. -/
def batchCall (c : BatchCall) : Machine CallState CallStep := fun s l =>
  match l with
  | .succeed task result =>
      if s.idle = true ∧ task ∈ c.tasks then
        let item := s.items task.id
        if item.settled || item.leaseLost then some s
        else
          match boundResult c.sdk c.stack result with
          | .value j => some { s with inFlight := some ⟨task.id, .complete j, none⟩ }
          | .refused | .raised => some s
      else none
  | .fail task error retryable rand =>
      if s.idle = true ∧ task ∈ c.tasks then
        let item := s.items task.id
        let out := asEnvelope error retryable
        if item.settled || item.leaseLost then some s
        else
          match c.failWrite task out.1 out.2 rand with
          | some write => some { s with inFlight := some ⟨task.id, write, none⟩ }
          | none => some s
      else none
  | .execute nowMs held => do
      let w ← s.inFlight
      let (s', named) ← s.perform c true w.taskId w.write nowMs held
      if w.reply.isNone then some { s' with inFlight := some { w with reply := some named } }
      else none
  | .resume => do
      let w ← s.inFlight
      let named ← w.reply
      some (({ s with inFlight := none } : CallState).modify w.taskId fun item =>
        item.answered named)
  | .abandon => if s.ending.isSome then some { s with inFlight := none } else none
  | .returns value => if s.idle then some { s with ending := some (.returned value) } else none
  | .raises error =>
      if s.idle = true ∧ error.possible c.sdk = true then
        some { s with ending := some (.raised error) }
      else none
  | .timesOut =>
      if s.ending.isNone = true ∧ c.maxRunMs.isSome = true then
        some { s with
          ending := some .timedOut
          items := fun id => { s.items id with leaseLost := true } }
      else none
  | .settleEach => do
      let how ← s.ending
      if s.picked then none
      else
        some { s with
          picked := true
          items := fun id =>
            let item := s.items id
            { item with turn := if item.settled || !c.settles how then .over else .chosen } }
  | .settle task rand => do
      let how ← s.ending
      match (s.items task.id).turn with
      | .chosen =>
          if task ∈ c.tasks then
            some (s.modify task.id fun item =>
              { item with turn := c.nextTurn how task rand item })
          else none
      | .waiting | .issued _ | .over => none
  | .write task nowMs held =>
      match (s.items task.id).turn with
      | .issued write => do
          let (s', named) ← s.perform c false task.id write nowMs held
          if task ∈ c.tasks then some (s'.modify task.id fun item => item.finished write named)
          else none
      | .waiting | .chosen | .over => none
  | .beatMisses id =>
      let item := s.items id
      if item.settlements.isEmpty || item.settled then none
      else some (s.modify id fun item => { item with leaseLost := true })
  | .other e => do
      let p ← protocol c.dialect s.protocol e
      some { s with protocol := p }

/-! ## What a step does -/

namespace CallState

@[simp] theorem modify_protocol (s : CallState) (id : String) (f : BatchItem → BatchItem) :
    (s.modify id f).protocol = s.protocol := rfl

@[simp] theorem modify_inFlight (s : CallState) (id : String) (f : BatchItem → BatchItem) :
    (s.modify id f).inFlight = s.inFlight := rfl

@[simp] theorem modify_ending (s : CallState) (id : String) (f : BatchItem → BatchItem) :
    (s.modify id f).ending = s.ending := rfl

@[simp] theorem modify_picked (s : CallState) (id : String) (f : BatchItem → BatchItem) :
    (s.modify id f).picked = s.picked := rfl

@[simp] theorem modify_items_self (s : CallState) (id : String) (f : BatchItem → BatchItem) :
    (s.modify id f).items id = f (s.items id) := by
  simp [modify]

theorem modify_items_ne (s : CallState) {id id' : String} (f : BatchItem → BatchItem)
    (h : id' ≠ id) : (s.modify id f).items id' = s.items id' := by
  simp [modify, h]

/-- A change of flags and turns leaves the books as they are. -/
theorem settlements_modify {s : CallState} {id : String} {f : BatchItem → BatchItem}
    (hf : ∀ item, (f item).settlements = item.settlements) (id' : String) :
    ((s.modify id f).items id').settlements = (s.items id').settlements := by
  by_cases h : id' = id
  · rw [h, modify_items_self, hf]
  · rw [modify_items_ne s f h]

end CallState

@[simp] theorem BatchItem.finished_turn (item : BatchItem) (write : OwnedWrite Text)
    (named : Bool) : (item.finished write named).turn = .over := by
  cases named with
  | true => rfl
  | false => cases write <;> rfl

@[simp] theorem BatchItem.finished_settlements (item : BatchItem) (write : OwnedWrite Text)
    (named : Bool) : (item.finished write named).settlements = item.settlements := by
  cases named with
  | true => rfl
  | false => cases write <;> rfl

@[simp] theorem BatchItem.answered_turn (item : BatchItem) (named : Bool) :
    (item.answered named).turn = item.turn := by
  cases named <;> rfl

@[simp] theorem BatchItem.answered_settlements (item : BatchItem) (named : Bool) :
    (item.answered named).settlements = item.settlements := by
  cases named <;> rfl

/-- The row of one task after an ownership-checked write of another, or of this one. -/
theorem get_exec_owned (d : Dialect) (held : String → Bool) (nowMs : Int) (id workerId : String)
    (write : OwnedWrite Text) (db : Database Text) (id' : String) :
    (exec d held nowMs (.owned id workerId write) db).1.get id' =
      (db.get id').map fun t =>
        if decide (t.id = id) && owned workerId nowMs t then (write.setList nowMs).set t
        else t := by
  rw [exec_eq, Postgres.exec_get_update _ _ _ rfl]
  rfl

/-- How executing a settlement changes the call: it finds no row of its own and changes nothing,
or it settles the row and the books say so. -/
inductive Performs (c : BatchCall) (s : CallState) (byHandler : Bool) (id : String)
    (write : OwnedWrite Text) (nowMs : Int) : CallState → Bool → Prop
  | missed {p : ProtocolState Text} (hrows : ∀ id', p.db.get id' = s.protocol.db.get id')
      (hnot : ∀ r, s.protocol.db.get id = some r → ¬Owned c.workerId nowMs r) :
      Performs c s byHandler id write nowMs { s with protocol := p } false
  | landed {p : ProtocolState Text} {r : Task Text} (hget : s.protocol.db.get id = some r)
      (howned : Owned c.workerId nowMs r)
      (hrow : p.db.get id = some ((write.setList nowMs).set r))
      (hothers : ∀ id' ≠ id, p.db.get id' = s.protocol.db.get id') :
      Performs c s byHandler id write nowMs
        (({ s with protocol := p } : CallState).modify id fun item =>
          { item with settlements := item.settlements ++ [⟨byHandler, write, nowMs, r⟩] }) true

theorem performs_of_perform {c : BatchCall} {s s' : CallState} {byHandler named : Bool}
    {id : String} {write : OwnedWrite Text} {nowMs : Int} {held : String → Bool}
    (h : s.perform c byHandler id write nowMs held = some (s', named)) :
    Performs c s byHandler id write nowMs s' named := by
  simp only [CallState.perform, Option.bind_eq_bind, Option.bind_eq_some_iff, Option.some.injEq,
    Prod.mk.injEq] at h
  rcases h with ⟨p, hp, rfl, hnamed⟩
  have hdb : p.db = (exec c.dialect held nowMs (.owned id c.workerId write) s.protocol.db).1 := by
    rcases protocol_eq_some_iff.mp hp with ⟨-, rfl⟩
    rfl
  have hiff : named = true ↔ ∃ r, s.protocol.db.get id = some r ∧ Owned c.workerId nowMs r := by
    rw [← hnamed]
    exact exec_checksOwner_names ⟨rfl, rfl⟩
  cases named with
  | true =>
      rcases hiff.mp rfl with ⟨r, hget, howned⟩
      rw [hnamed, hget]
      refine .landed hget howned ?_ fun id' hne => ?_
      · rw [hdb, get_exec_owned, hget]
        simp [Database.id_of_get hget, owned_iff.mpr howned]
      · rw [hdb, get_exec_owned]
        cases hget' : s.protocol.db.get id' with
        | none => rfl
        | some t => simp [Database.id_of_get hget', hne]
  | false =>
      have hnot : ∀ r, s.protocol.db.get id = some r → ¬Owned c.workerId nowMs r :=
        fun r hget howned => Bool.false_ne_true (hiff.mpr ⟨r, hget, howned⟩)
      have hsame : (({ s with protocol := p } : CallState).modify id fun item =>
          { item with settlements := item.settlements ++ [] }) = { s with protocol := p } := by
        simp [CallState.modify]
      rw [hnamed]
      simp only [Bool.false_eq_true, ↓reduceIte]
      rw [hsame]
      refine .missed (fun id' => ?_) hnot
      rw [hdb, get_exec_owned]
      cases hget' : s.protocol.db.get id' with
      | none => rfl
      | some t =>
          by_cases hid : id' = id
          · subst hid
            have hunowned : owned c.workerId nowMs t = false :=
              Bool.eq_false_iff.mpr fun h => hnot t hget' (owned_iff.mp h)
            simp [hunowned]
          · simp [Database.id_of_get hget', hid]

/-- The behaviours of a call. -/
inductive CallEffect (c : BatchCall) (s : CallState) : CallStep → CallState → Prop
  /-- a settle call that was refused, or had nothing to do -/
  | passed {l : CallStep} : CallEffect c s l s
  | awaited {l : CallStep} {task : Task Text} {write : OwnedWrite Text} (hidle : s.idle = true)
      (hmem : task ∈ c.tasks) :
      CallEffect c s l { s with inFlight := some ⟨task.id, write, none⟩ }
  | executed {nowMs : Int} {held : String → Bool} {w : HandlerWrite} {s₁ : CallState} {named : Bool}
      (hw : s.inFlight = some w) (h : Performs c s true w.taskId w.write nowMs s₁ named) :
      CallEffect c s (.execute nowMs held)
        { s₁ with inFlight := some { w with reply := some named } }
  | resumed {w : HandlerWrite} {named : Bool} (hw : s.inFlight = some w)
      (hreply : w.reply = some named) :
      CallEffect c s .resume (({ s with inFlight := none } : CallState).modify w.taskId fun item =>
        item.answered named)
  | abandoned (hended : s.ending.isSome = true) :
      CallEffect c s .abandon { s with inFlight := none }
  | returned {value : HandlerValue} (hidle : s.idle = true) :
      CallEffect c s (.returns value) { s with ending := some (.returned value) }
  | raised {error : Raised} (hidle : s.idle = true) :
      CallEffect c s (.raises error) { s with ending := some (.raised error) }
  | timedOut (hrunning : s.ending = none) :
      CallEffect c s .timesOut { s with
        ending := some .timedOut
        items := fun id => { s.items id with leaseLost := true } }
  | picked {how : CallEnd} (hhow : s.ending = some how) (hnot : s.picked = false) :
      CallEffect c s .settleEach { s with
        picked := true
        items := fun id =>
          { s.items id with
            turn := if (s.items id).settled || !c.settles how then .over else .chosen } }
  | began {task : Task Text} {rand : Fin (2 ^ 53)} {how : CallEnd} (hhow : s.ending = some how)
      (hmem : task ∈ c.tasks) (hturn : (s.items task.id).turn = .chosen) :
      CallEffect c s (.settle task rand) (s.modify task.id fun item =>
        { item with turn := c.nextTurn how task rand item })
  | wrote {task : Task Text} {nowMs : Int} {held : String → Bool} {write : OwnedWrite Text}
      {s₁ : CallState} {named : Bool} (hmem : task ∈ c.tasks)
      (hturn : (s.items task.id).turn = .issued write)
      (h : Performs c s false task.id write nowMs s₁ named) :
      CallEffect c s (.write task nowMs held)
        (s₁.modify task.id fun item => item.finished write named)
  | beat {id : String} :
      CallEffect c s (.beatMisses id) (s.modify id fun item => { item with leaseLost := true })
  | others {e : Execution Text} {p : ProtocolState Text}
      (hp : protocol c.dialect s.protocol e = some p) :
      CallEffect c s (.other e) { s with protocol := p }

theorem callEffect_of_step {c : BatchCall} {s s' : CallState} {l : CallStep}
    (h : batchCall c s l = some s') : CallEffect c s l s' := by
  cases l with
  | succeed task result =>
      simp only [batchCall] at h
      split at h
      · rename_i henabled
        split at h
        · cases h
          exact .passed
        · split at h
          · cases h
            exact .awaited henabled.1 henabled.2
          · cases h
            exact .passed
          · cases h
            exact .passed
      · cases h
  | fail task error retryable rand =>
      simp only [batchCall] at h
      split at h
      · rename_i henabled
        split at h
        · cases h
          exact .passed
        · split at h
          · cases h
            exact .awaited henabled.1 henabled.2
          · cases h
            exact .passed
      · cases h
  | execute nowMs held =>
      simp only [batchCall, Option.bind_eq_bind, Option.bind_eq_some_iff] at h
      rcases h with ⟨w, hw, ⟨s₁, named⟩, hperform, h⟩
      split at h
      · cases h
        exact .executed hw (performs_of_perform hperform)
      · cases h
  | resume =>
      simp only [batchCall, Option.bind_eq_bind, Option.bind_eq_some_iff] at h
      rcases h with ⟨w, hw, named, hreply, h⟩
      cases h
      exact .resumed hw hreply
  | abandon =>
      simp only [batchCall] at h
      split at h
      · rename_i hended
        cases h
        exact .abandoned hended
      · cases h
  | returns value =>
      simp only [batchCall] at h
      split at h
      · rename_i hidle
        cases h
        exact .returned hidle
      · cases h
  | raises error =>
      simp only [batchCall] at h
      split at h
      · rename_i henabled
        cases h
        exact .raised henabled.1
      · cases h
  | timesOut =>
      simp only [batchCall] at h
      split at h
      · rename_i henabled
        cases h
        exact .timedOut (Option.isNone_iff_eq_none.mp henabled.1)
      · cases h
  | settleEach =>
      simp only [batchCall, Option.bind_eq_bind, Option.bind_eq_some_iff] at h
      rcases h with ⟨how, hhow, h⟩
      split at h
      · cases h
      · rename_i hnot
        cases h
        exact .picked hhow (Bool.eq_false_iff.mpr hnot)
  | settle task rand =>
      simp only [batchCall, Option.bind_eq_bind, Option.bind_eq_some_iff] at h
      rcases h with ⟨how, hhow, h⟩
      split at h
      · rename_i hturn
        split at h
        · rename_i hmem
          cases h
          exact .began hhow hmem hturn
        · cases h
      · cases h
      · cases h
      · cases h
  | write task nowMs held =>
      simp only [batchCall] at h
      split at h
      · rename_i write hturn
        simp only [Option.bind_eq_bind, Option.bind_eq_some_iff] at h
        rcases h with ⟨⟨s₁, named⟩, hperform, h⟩
        split at h
        · rename_i hmem
          cases h
          exact .wrote hmem hturn (performs_of_perform hperform)
        · cases h
      · cases h
      · cases h
      · cases h
  | beatMisses id =>
      simp only [batchCall] at h
      split at h
      · cases h
      · cases h
        exact .beat
  | other e =>
      simp only [batchCall, Option.bind_eq_bind, Option.bind_eq_some_iff] at h
      rcases h with ⟨p, hp, h⟩
      cases h
      exact .others hp

end CairnQ
