import CairnQ.Json.Traces
import CairnQ.Protocol.Dialects

/-!
# Failure records

How an attempt that failed is recorded: the classifier that makes an envelope of whatever
ended it, the encoders of the two SDKs, the fallback for an envelope that the encoder
refuses, and the column the text is bound to.  SQLite stores any text; the {lit}`jsonb` of
Postgres takes the texts of {name}`JsonText.IsJsonb`.

An encoder recurses, so a document nested deeper than the stack allows makes it fail.
Python's does with an error that `dump_json` does not catch; Node's first pass is caught,
its second is not.

Main results:

- Theorem `recorded_iff`: a failure is recorded exactly when its envelope, or what is left of
  one that the encoder refused, is within the stack and on Postgres has storable strings only.
- Theorem `fail_records_always_fails`: so not every failure is.
-/

namespace CairnQ

open Relational JsonText

/-! ## Encoders -/

/-- What an encoder is doing: Python's encodes, Node's first pass encodes, and its second looks
for what the first has mangled. -/
inductive EncoderPass
  | python
  | plain
  | strict
deriving DecidableEq, Repr

/-- Why an encoder gives up: a value it refuses, or the end of the stack. -/
inductive Obstacle
  | refused
  | tooDeep
deriving DecidableEq, Repr

/-- The first thing an encoder stumbles over, with so many levels of the stack left. -/
def firstObstacle (pass : EncoderPass) : {k : Kind} → Json k → Nat → Option Obstacle
  | _, .array items, depth + 1 => firstObstacle pass items depth
  | _, .object fields, depth + 1 => firstObstacle pass fields depth
  | _, .array _, 0 | _, .object _, 0 => some .tooDeep
  | _, .notFinite, _ | _, .hidden, _ | _, .absent, _ =>
      if pass = .plain then none else some .refused
  | _, .failing, _ => some .refused
  | _, .item value rest, depth =>
      (firstObstacle pass value depth).or (firstObstacle pass rest depth)
  | _, .field _ value rest, depth =>
      if value.isAbsent = true ∧ pass ≠ .python then firstObstacle pass rest depth
      else (firstObstacle pass value depth).or (firstObstacle pass rest depth)
  | _, .null, _ | _, .bool _, _ | _, .number _, _ | _, .text _, _ | _, .noItems, _
  | _, .noFields, _ => none

/-- How deep a document nests. -/
def depth : {k : Kind} → Json k → Nat
  | _, .array items => depth items + 1
  | _, .object fields => depth fields + 1
  | _, .item value rest => max (depth value) (depth rest)
  | _, .field _ value rest => max (depth value) (depth rest)
  | _, _ => 0

/-- How deep the passes of an encoder can nest. -/
structure EncoderStack where
  encode : Nat
  strict : Nat
deriving DecidableEq, Repr

/-- A text occurs in another. -/
def occursIn (needle t : Text) : Bool :=
  t.tails.any fun tail => needle.isPrefixOf tail

/-- `text.includes("null") || text.includes("\x7b\x7d") || text.includes('\x7b"0":')`. -/
def hasTrace (t : Text) : Bool :=
  occursIn (latin "null") t || occursIn [123, 125] t || occursIn [123, 34, 48, 34, 58] t

theorem occursIn_iff (needle t : Text) : occursIn needle t = true ↔ needle <:+: t :=
  occurs_iff needle t

theorem hasTrace_iff (t : Text) : hasTrace t = true ↔ HasTrace t := by
  simp only [hasTrace, Bool.or_eq_true, occursIn_iff, HasTrace, emptyObject, zeroKeyed, or_assoc]

/-- How `dump_json` ends: with a text, with a `SerializationError`, or with another error. -/
inductive Dumped
  | text (t : Text)
  | refused
  | raised
deriving DecidableEq, Repr

/-- `dump_json`. -/
def dumpJson (sdk : Sdk) (stack : EncoderStack) (value : Json .value) : Dumped :=
  match sdk with
  | .python =>
      match firstObstacle .python value stack.encode with
      | none => .text (value.render .ascii)
      | some .refused => .refused
      | some .tooDeep => .raised
  | .node =>
      match firstObstacle .plain value stack.encode with
      | some _ => .refused
      | none =>
          let t := value.render .minimal
          if hasTrace t then
            match firstObstacle .strict value stack.strict with
            | none => .text t
            | some .refused => .refused
            | some .tooDeep => .raised
          else .text t

/-! ## Envelopes -/

/-- `error_envelope`. -/
def errorEnvelope (type code message : Text) (retryable : Bool) (details : Json .fields) :
    Json .fields :=
  .field (latin "type") (.text type) <|
    .field (latin "code") (.text code) <|
      .field (latin "message") (.text message) <|
        .field (latin "retryable") (.bool retryable) <|
          .field (latin "details") (.object details) .noFields

/-- Whatever can end an attempt: an exception with the name of its class and its message, a
`TaskError`, a ready envelope, or a bare reason. -/
inductive FailReason
  | exception (name message : Text)
  | taskError (type code message : Text) (retryable : Bool) (details : Json .fields)
  | envelope (fields : Json .fields)
  | reason (text : Text)

/-- `as_envelope`. -/
def asEnvelope (error : FailReason) (retryable : Bool) : Json .fields × Bool :=
  match error with
  | .taskError type code message own details =>
      (errorEnvelope type code message own details, own)
  | .exception name message =>
      (errorEnvelope name (latin "handler_error") message retryable .noFields, retryable)
  | .envelope fields => (fields, retryable)
  | .reason text =>
      (errorEnvelope (latin "TaskError") (latin "task_error") text retryable .noFields, retryable)

/-- `error.get(key)`. -/
def fieldOf (key : Text) : Json .fields → Option (Json .value)
  | .noFields => none
  | .field key' value rest => if key' = key then some value else fieldOf key rest

/-- One field as a string, `str` or `String` of it or else the default; Node takes the default
for null as well. -/
def fieldText (sdk : Sdk) (spell : Json .value → Option Text) (fields : Json .fields)
    (key default : Text) : Option Text :=
  match sdk, fieldOf key fields with
  | _, none => some default
  | .node, some .null | .node, some .absent => some default
  | _, some value => spell value

/-- The envelope stripped to its string fields. -/
def strippedEnvelope (sdk : Sdk) (spell : Json .value → Option Text) (fields : Json .fields)
    (retryable : Bool) : Option (Json .value) := do
  let type ← fieldText sdk spell fields (latin "type") (latin "TaskError")
  let code ← fieldText sdk spell fields (latin "code") (latin "task_error")
  let message ← fieldText sdk spell fields (latin "message") []
  some (.object (errorEnvelope type code message retryable .noFields))

/-- The text `fail` binds, if it gets that far. -/
def boundError (sdk : Sdk) (stack : EncoderStack) (spell : Json .value → Option Text)
    (fields : Json .fields) (retryable : Bool) : Option Text :=
  match dumpJson sdk stack (.object fields) with
  | .text t => some t
  | .raised => none
  | .refused =>
      (strippedEnvelope sdk spell fields retryable).bind fun stripped =>
        match dumpJson sdk stack stripped with
        | .text t => some t
        | .refused | .raised => none

/-! ## Recording -/

/-- The column takes the text: SQLite any, Postgres what its strict parser accepts. -/
def columnAccepts (d : Dialect) (t : Text) : Prop :=
  d = .postgres → IsJsonb t

/-- A failed attempt is recorded: `fail` binds a text that the column takes, and its statement
settles the row. -/
def Recorded (sdk : Sdk) (d : Dialect) (stack : EncoderStack)
    (spell : Json .value → Option Text) (error : FailReason) (retryable : Bool)
    (id workerId : String) (held : String → Bool) (nowMs delayMs : Int)
    (db : Database Text) : Prop :=
  let out := asEnvelope error retryable
  ∃ t r, boundError sdk stack spell out.1 out.2 = some t ∧ columnAccepts d t ∧
    db.get id = some r ∧
    (exec d held nowMs (.owned id workerId (.fail t out.2 delayMs)) db).1.get id =
      some ((setFail t out.2 delayMs nowMs).set r)

/-- How an SDK escapes. -/
def Sdk.style : Sdk → EscapeStyle
  | .python => .ascii
  | .node => .minimal

/-- What is encoded is the rendering of the value. -/
theorem eq_render_of_dumpJson {sdk : Sdk} {stack : EncoderStack} {value : Json .value} {t : Text}
    (h : dumpJson sdk stack value = .text t) : t = value.render sdk.style := by
  cases sdk with
  | python =>
      simp only [dumpJson] at h
      split at h
      · exact (Dumped.text.inj h).symm
      · cases h
      · cases h
  | node =>
      simp only [dumpJson] at h
      split at h
      · cases h
      · split at h
        · split at h
          · exact (Dumped.text.inj h).symm
          · cases h
          · cases h
        · exact (Dumped.text.inj h).symm

theorem columnAccepts_render_iff (d : Dialect) (style : EscapeStyle) (value : Json .value) :
    columnAccepts d (value.render style) ↔
      (d = .postgres → ∀ s ∈ value.strings, Storable s = true) := by
  rw [columnAccepts, isJsonb_render_iff]

section Owned

variable {sdk : Sdk} {d : Dialect} {stack : EncoderStack} {spell : Json .value → Option Text}
  {error : FailReason} {retryable : Bool} {id workerId : String} {held : String → Bool}
  {nowMs delayMs : Int} {db : Database Text} {r : Task Text}

/-- With the lease held, whatever the column takes settles the row. -/
theorem recorded_iff_accepted (hget : db.get id = some r) (howned : Owned workerId nowMs r) :
    Recorded sdk d stack spell error retryable id workerId held nowMs delayMs db ↔
      ∃ t, boundError sdk stack spell (asEnvelope error retryable).1
        (asEnvelope error retryable).2 = some t ∧ columnAccepts d t := by
  constructor
  · rintro ⟨t, _, hbound, haccepts, -⟩
    exact ⟨t, hbound, haccepts⟩
  · rintro ⟨t, hbound, haccepts⟩
    refine ⟨t, r, hbound, haccepts, hget, ?_⟩
    rw [exec_eq, Postgres.exec_get_update _ _ _ rfl, hget]
    simp [Statement.selects, Statement.assigns, OwnedWrite.setList, Database.id_of_get hget,
      owned_iff.mpr howned]

/-- The encoder gets through the value, and on Postgres none of its strings has a null or a
surrogate alone. -/
def Encodable (sdk : Sdk) (d : Dialect) (stack : EncoderStack) (value : Json .value) : Prop :=
  (∃ t, dumpJson sdk stack value = .text t) ∧
    (d = .postgres → ∀ s ∈ value.strings, Storable s = true)

theorem encodable_iff (sdk : Sdk) (d : Dialect) (stack : EncoderStack) (value : Json .value) :
    Encodable sdk d stack value ↔ ∃ t, dumpJson sdk stack value = .text t ∧ columnAccepts d t := by
  constructor
  · rintro ⟨⟨t, ht⟩, hstrings⟩
    refine ⟨t, ht, ?_⟩
    rw [eq_render_of_dumpJson ht, columnAccepts_render_iff]
    exact hstrings
  · rintro ⟨t, ht, haccepts⟩
    rw [eq_render_of_dumpJson ht, columnAccepts_render_iff] at haccepts
    exact ⟨⟨t, ht⟩, haccepts⟩

/-- Exactly when a failure is recorded: its envelope is encodable, or the encoder refuses it and
what is left of it is encodable. -/
theorem recorded_iff (hget : db.get id = some r) (howned : Owned workerId nowMs r) :
    Recorded sdk d stack spell error retryable id workerId held nowMs delayMs db ↔
      let out := asEnvelope error retryable
      Encodable sdk d stack (.object out.1) ∨
        (dumpJson sdk stack (.object out.1) = .refused ∧
          ∃ stripped, strippedEnvelope sdk spell out.1 out.2 = some stripped ∧
            Encodable sdk d stack stripped) := by
  rw [recorded_iff_accepted hget howned]
  simp only [encodable_iff, boundError]
  cases hdump : dumpJson sdk stack (.object (asEnvelope error retryable).1) with
  | text t => simp
  | raised => simp
  | refused =>
      simp only [reduceCtorEq, false_and, exists_false, false_or, true_and,
        Option.bind_eq_some_iff]
      constructor
      · rintro ⟨t, ⟨stripped, hstripped, hbound⟩, haccepts⟩
        refine ⟨stripped, hstripped, t, ?_, haccepts⟩
        cases hagain : dumpJson sdk stack stripped with
        | text t' =>
            rw [hagain] at hbound
            cases hbound
            rfl
        | refused =>
            rw [hagain] at hbound
            cases hbound
        | raised =>
            rw [hagain] at hbound
            cases hbound
      · rintro ⟨stripped, hstripped, t, ht, haccepts⟩
        exact ⟨t, ⟨stripped, hstripped, by rw [ht]⟩, haccepts⟩

end Owned

/-! ## A failed attempt -/

/-- The worker `w` holds the task `t`. -/
def claimedDatabase : Database Text :=
  ([.insertTask (.plain "t" "work" 3 (latin "null")),
      .claim (.claimOneQueue "default" none) "w" 10 1] : List (Statement Text)).foldl
    (fun db st => (Postgres.exec unlocked 1 st db).1) Database.empty

theorem owned_claimedDatabase :
    ∃ r, claimedDatabase.get "t" = some r ∧ Owned "w" 2 r := by
  refine ⟨_, rfl, ?_⟩
  rw [← owned_iff]
  decide

/-- A value error whose message is a null character. -/
def nullMessage : FailReason :=
  .exception (latin "ValueError") [0]

/-- SQLite records it. -/
theorem recorded_iff_nullMessage :
    ∃ r, claimedDatabase.get "t" = some r ∧
      (Recorded .python .sqlite ⟨1000, 1000⟩ (fun _ => none) nullMessage true "t" "w" unlocked
          2 0 claimedDatabase ↔
        let out := asEnvelope nullMessage true
        Encodable .python .sqlite ⟨1000, 1000⟩ (.object out.1) ∨
          (dumpJson .python ⟨1000, 1000⟩ (.object out.1) = .refused ∧
            ∃ stripped, strippedEnvelope .python (fun _ => none) out.1 out.2 = some stripped ∧
              Encodable .python .sqlite ⟨1000, 1000⟩ stripped)) := by
  rcases owned_claimedDatabase with ⟨r, hget, howned⟩
  exact ⟨r, hget, recorded_iff hget howned⟩

/-- On Postgres neither SDK records it. -/
theorem fail_records_always_fails :
    ∃ r, claimedDatabase.get "t" = some r ∧ Owned "w" 2 r ∧
      ∀ sdk spell, ¬Recorded sdk .postgres ⟨1000, 1000⟩ spell nullMessage true "t" "w" unlocked
        2 0 claimedDatabase := by
  rcases owned_claimedDatabase with ⟨r, hget, howned⟩
  refine ⟨r, hget, howned, fun sdk spell hrecorded => ?_⟩
  rw [recorded_iff_accepted hget howned] at hrecorded
  rcases hrecorded with ⟨t, hbound, haccepts⟩
  have hdump : dumpJson sdk ⟨1000, 1000⟩ (.object (asEnvelope nullMessage true).1) =
      .text ((Json.object (asEnvelope nullMessage true).1).render sdk.style) := by
    cases sdk with
    | python => rfl
    | node => rfl
  rw [boundError, hdump] at hbound
  rw [← Option.some.inj hbound, columnAccepts_render_iff] at haccepts
  have hstorable := haccepts rfl [0] (by simp [nullMessage, asEnvelope, errorEnvelope,
    Json.strings, Json.isAbsent])
  exact absurd hstorable (by decide)

end CairnQ
