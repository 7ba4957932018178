import CairnQ.Protocol.Documents
import CairnQ.Protocol.TwinEncoders
import CairnQ.Transition.Past

/-!
# Wire forms

A document on its way from one process to another: written by `dump_json` of one SDK, bound as a
text, kept by a column, delivered by a driver, as text or decoded, and read by `Task.from_row` of
the other SDK or of the same.  SQLite keeps the text itself.  What `jsonb` of Postgres keeps is a
parameter: it may change the order of fields, and what it gives back has to be JSON for what it
keeps.  A delivered string does not tell whether it is a text or a decoded value, so a store asks
the driver about a string it knows.

Main results:

- Theorem `detectJsonWireForm_iff`: the probe tells the two forms apart.
- Theorem `reads_stored`: a row reads back with the values its texts stand for.
- Theorem `documents_travel`: processes of both SDKs over one database do what the protocol does to
  the values themselves, and read them in what it replies.
-/

namespace CairnQ

open Relational Transition JsonText

/-! ## Columns -/

/-- The same value, but for the order of fields. -/
inductive Reordered : {k : Kind} → Json k → Json k → Prop
  | refl {k : Kind} (v : Json k) : Reordered v v
  | trans {k : Kind} {u v w : Json k} (hfirst : Reordered u v) (hthen : Reordered v w) :
      Reordered u w
  | array {items items' : Json .items} (h : Reordered items items') :
      Reordered (.array items) (.array items')
  | object {fields fields' : Json .fields} (h : Reordered fields fields') :
      Reordered (.object fields) (.object fields')
  | item {value value' : Json .value} {rest rest' : Json .items} (hvalue : Reordered value value')
      (hrest : Reordered rest rest') : Reordered (.item value rest) (.item value' rest')
  | field {key : Text} {value value' : Json .value} {rest rest' : Json .fields}
      (hvalue : Reordered value value') (hrest : Reordered rest rest') :
      Reordered (.field key value rest) (.field key value' rest')
  | swap (key key' : Text) (value value' : Json .value) (rest : Json .fields) :
      Reordered (.field key value (.field key' value' rest))
        (.field key' value' (.field key value rest))

/-- The value stands for none. -/
def isNull : {k : Kind} → Json k → Bool
  | _, .null => true
  | _, _ => false

theorem Reordered.isNull {k : Kind} {v w : Json k} (h : Reordered v w) : isNull w = isNull v := by
  induction h with
  | trans _ _ ihfirst ihthen => exact ihthen.trans ihfirst
  | _ => rfl

/-- The string `"cairnq"`, as JSON. -/
def probeText : Text :=
  quoted .minimal (latin "cairnq")

/-- What an engine makes of the texts that are bound to a column for documents, and the texts it
gives back. -/
structure DocumentColumn where
  Stored : Type
  store : Text → Option Stored
  output : Stored → Text
  /-- the value it keeps of a value that is bound -/
  kept : TwinValue → TwinValue
  reordered : ∀ v : TwinValue, Reordered v.document (kept v).document
  reads : ∀ (v : TwinValue) (style : EscapeStyle) (stored : Stored),
    store (v.document.render style) = some stored →
      ∀ sdk : Sdk, parse sdk.reader (output stored) = some (kept v).document
  probe : (store probeText).map output = some probeText

/-- The `text` of SQLite. -/
def textColumn : DocumentColumn where
  Stored := Text
  store := some
  output := id
  kept := id
  reordered v := .refl v.document
  reads v style stored hstored sdk := by
    cases hstored
    exact v.parse_text style sdk
  probe := rfl

/-- The columns of a database, given what {lit}`jsonb` does. -/
def Dialect.column (jsonb : DocumentColumn) : Dialect → DocumentColumn
  | .sqlite => textColumn
  | .postgres => jsonb

/-! ## Drivers -/

/-- How a driver hands over what it could decode: as text, or decoded. -/
inductive WireForm
  | text
  | decoded
deriving DecidableEq, Repr

/-- A JSON column, as a value of the language. -/
def WireForm.json (sdk : Sdk) : WireForm → Text → Option (Json .value)
  | .text, t => some (.text t)
  | .decoded, t => parse sdk.reader t

/-- A bigint column. -/
def WireForm.int8 (sdk : Sdk) : WireForm → Int → Json .value
  | .text, i => .text (decimalText i)
  | .decoded, i => .number (decimal (sdk.integer i))

/-- `_detect_json_wire_form`. -/
def detectJsonWireForm (jsonb : DocumentColumn) (sdk : Sdk) (form : WireForm) : Bool :=
  match (jsonb.store probeText).bind fun stored => form.json sdk (jsonb.output stored) with
  | some (.text t) => decide (t = probeText)
  | _ => false

theorem parse_probeText (sdk : Sdk) : parse sdk.reader probeText = some (.text (latin "cairnq")) :=
  parse_render (v := .text (latin "cairnq")) trivial

/-- The probe arrives with its quotes exactly from a driver that delivers text. -/
theorem detectJsonWireForm_iff (jsonb : DocumentColumn) (sdk : Sdk) (form : WireForm) :
    detectJsonWireForm jsonb sdk form = true ↔ form = .text := by
  rcases Option.map_eq_some_iff.mp jsonb.probe with ⟨stored, hstored, houtput⟩
  rw [detectJsonWireForm, hstored, Option.bind_some, houtput]
  cases form with
  | text => simp [WireForm.json]
  | decoded =>
      have hplain : latin "cairnq" ≠ probeText := by decide
      simp [WireForm.json, parse_probeText, hplain]

/-- A process with a store: its SDK, how deep its encoder gets, and what its Postgres driver does
with JSON and with bigint. -/
structure StoreProcess where
  sdk : Sdk
  stack : EncoderStack
  json : WireForm
  int8 : WireForm
deriving DecidableEq, Repr

/-- How JSON arrives: `sqlite3` hands over the text. -/
def StoreProcess.jsonForm (d : Dialect) (p : StoreProcess) : WireForm :=
  match d with
  | .sqlite => .text
  | .postgres => p.json

/-- How a bigint arrives. -/
def StoreProcess.int8Form (d : Dialect) (p : StoreProcess) : WireForm :=
  match d with
  | .sqlite => .decoded
  | .postgres => p.int8

/-- `_json_is_text`: true by default, and on Postgres what the probe says. -/
def StoreProcess.jsonIsText (jsonb : DocumentColumn) (d : Dialect) (p : StoreProcess) : Bool :=
  match d with
  | .sqlite => true
  | .postgres => detectJsonWireForm jsonb p.sdk p.json

/-- The store knows its driver. -/
theorem StoreProcess.jsonIsText_iff (jsonb : DocumentColumn) (d : Dialect) (p : StoreProcess) :
    p.jsonIsText jsonb d = true ↔ p.jsonForm d = .text := by
  cases d with
  | sqlite => simp [StoreProcess.jsonIsText, StoreProcess.jsonForm]
  | postgres => exact detectJsonWireForm_iff jsonb p.sdk p.json

/-! ## Rows -/

/-- A row of `cairnq_tasks` as a driver delivers it; null where there is no value. -/
structure WireRow where
  id : String
  name : String
  queue : String
  status : TaskStatus
  payload : Json .value
  result : Json .value
  error : Json .value
  metadata : Json .value
  progress : Option Double
  message : Option String
  attempt : Int
  maxAttempts : Int
  priority : Int
  workerId : Option String
  leaseUntilMs : Json .value
  runAtMs : Json .value
  cancelRequestedAtMs : Json .value
  parentId : Option String
  rootId : Option String
  correlationId : Option String
  createdAtMs : Json .value
  updatedAtMs : Json .value
  completedAtMs : Json .value

/-- One of `_JSON_COLUMNS`. -/
def loadJson (sdk : Sdk) (jsonIsText : Bool) : Json .value → Option (Json .value)
  | .null => some .null
  | .text t => if jsonIsText then parse sdk.reader t else some (.text t)
  | v => if jsonIsText then none else some v

/-- One of `_MS_COLUMNS`: `int(v)`, or `Number(v)`. -/
def loadMs (sdk : Sdk) : Json .value → Option (Option Int)
  | .null => some none
  | .number n => (integerOf n.text).map some
  | .text t => (integerOf t).map fun i => some (sdk.integer i)
  | _ => none

/-- A null and no value are the same. -/
def nullable (v : Json .value) : Option (Json .value) :=
  if isNull v then none else some v

/-- `Task.from_row` and `rowToTask`; none where they throw. -/
def fromRow (sdk : Sdk) (jsonIsText : Bool) (row : WireRow) : Option (Task (Json .value)) := do
  let payload ← loadJson sdk jsonIsText row.payload
  let result ← loadJson sdk jsonIsText row.result
  let error ← loadJson sdk jsonIsText row.error
  let metadata ← loadJson sdk jsonIsText row.metadata
  let leaseUntilMs ← loadMs sdk row.leaseUntilMs
  let runAtMs ← (← loadMs sdk row.runAtMs)
  let cancelRequestedAtMs ← loadMs sdk row.cancelRequestedAtMs
  let createdAtMs ← (← loadMs sdk row.createdAtMs)
  let updatedAtMs ← (← loadMs sdk row.updatedAtMs)
  let completedAtMs ← loadMs sdk row.completedAtMs
  return {
    id := row.id
    name := row.name
    queue := row.queue
    status := row.status
    payload := payload
    result := nullable result
    error := nullable error
    metadata := metadata
    progress := row.progress
    message := row.message
    attempt := row.attempt
    maxAttempts := row.maxAttempts
    priority := row.priority
    workerId := row.workerId
    leaseUntilMs := leaseUntilMs
    runAtMs := runAtMs
    cancelRequestedAtMs := cancelRequestedAtMs
    parentId := row.parentId
    rootId := row.rootId
    correlationId := row.correlationId
    createdAtMs := createdAtMs
    updatedAtMs := updatedAtMs
    completedAtMs := completedAtMs }

section Delivery

variable (jsonb : DocumentColumn) (d : Dialect) (p : StoreProcess)

/-- A document that a driver delivers. -/
def StoreProcess.deliverJson (stored : (d.column jsonb).Stored) : Option (Json .value) :=
  (p.jsonForm d).json p.sdk ((d.column jsonb).output stored)

/-- A document, if there is one. -/
def StoreProcess.deliverNullable : Option (d.column jsonb).Stored → Option (Json .value)
  | none => some .null
  | some stored => p.deliverJson jsonb d stored

/-- A time, if there is one. -/
def StoreProcess.deliverMs : Option Int → Json .value
  | none => .null
  | some i => (p.int8Form d).int8 p.sdk i

/-- The row that a driver delivers; none where it cannot decode. -/
def StoreProcess.deliver (t : Task (d.column jsonb).Stored) : Option WireRow := do
  let payload ← p.deliverJson jsonb d t.payload
  let result ← p.deliverNullable jsonb d t.result
  let error ← p.deliverNullable jsonb d t.error
  let metadata ← p.deliverJson jsonb d t.metadata
  return {
    id := t.id
    name := t.name
    queue := t.queue
    status := t.status
    payload := payload
    result := result
    error := error
    metadata := metadata
    progress := t.progress
    message := t.message
    attempt := t.attempt
    maxAttempts := t.maxAttempts
    priority := t.priority
    workerId := t.workerId
    leaseUntilMs := p.deliverMs d t.leaseUntilMs
    runAtMs := p.deliverMs d (some t.runAtMs)
    cancelRequestedAtMs := p.deliverMs d t.cancelRequestedAtMs
    parentId := t.parentId
    rootId := t.rootId
    correlationId := t.correlationId
    createdAtMs := p.deliverMs d (some t.createdAtMs)
    updatedAtMs := p.deliverMs d (some t.updatedAtMs)
    completedAtMs := p.deliverMs d t.completedAtMs }

/-- `_to_task`, on a stored row. -/
def StoreProcess.toTask (t : Task (d.column jsonb).Stored) : Option (Task (Json .value)) :=
  (p.deliver jsonb d t).bind (fromRow p.sdk (p.jsonIsText jsonb d))

/-- A reply, its rows read. -/
def StoreProcess.toReply : Reply (d.column jsonb).Stored → Option (Reply (Json .value))
  | .tasks rows => (rows.mapM (p.toTask jsonb d)).map .tasks
  | .renewed rows => some (.renewed rows)
  | .ids rows => some (.ids rows)
  | .done => some .done
  | .error e => some (.error e)

end Delivery

/-- The times of a row. -/
def Task.times {J : Type} (t : Task J) : List Int :=
  t.runAtMs :: t.createdAtMs :: t.updatedAtMs ::
    (t.leaseUntilMs.toList ++ t.cancelRequestedAtMs.toList ++ t.completedAtMs.toList)

/-- The language of an SDK keeps the times exactly: Python any, a double those until the year
287396. -/
def Task.TimesExact {J : Type} (sdk : Sdk) (t : Task J) : Prop :=
  ∀ i ∈ t.times, sdk.integer i = i

/-! ## Writing -/

/-- A value other than null, which stands for none. -/
structure Payload where
  value : TwinValue
  present : isNull value.document = false

/-- `dump_json`, bound to a column; none where the encoder or the engine refuses. -/
def StoreProcess.dump (column : DocumentColumn) (p : StoreProcess) (v : Payload) :
    Option column.Stored :=
  match dumpJson p.sdk p.stack v.value.document with
  | .text t => column.store t
  | .refused | .raised => none

/-- A stored document, with the value it was written from. -/
structure Written (column : DocumentColumn) where
  value : Payload
  stored : column.Stored
  reads : ∀ sdk : Sdk, parse sdk.reader (column.output stored) = some (column.kept value.value).document

/-- What a value is kept as. -/
def Payload.meaning (column : DocumentColumn) (v : Payload) : Json .value :=
  (column.kept v.value).document

/-- What is written is in one of the styles, whichever SDK wrote it. -/
theorem render_of_dumpJson {sdk : Sdk} {stack : EncoderStack} {v : TwinValue} {t : Text}
    (h : dumpJson sdk stack v.document = .text t) : ∃ style, v.document.render style = t := by
  cases sdk with
  | python =>
      rw [v.dumpJson_python] at h
      split at h
      · exact ⟨.ascii, Dumped.text.inj h⟩
      · cases h
  | node => exact ⟨.minimal, ((v.dumpJson_node_iff stack t).mp h).1.symm⟩

/-- What a process stores is a document with its value. -/
theorem StoreProcess.exists_written {column : DocumentColumn} {p : StoreProcess} {v : Payload}
    {stored : column.Stored} (h : p.dump column v = some stored) :
    ∃ w : Written column, w.value = v ∧ w.stored = stored := by
  unfold StoreProcess.dump at h
  split at h
  · next t ht =>
    rcases render_of_dumpJson ht with ⟨style, rfl⟩
    exact ⟨⟨v, stored, column.reads v.value style stored h⟩, rfl, rfl⟩
  · cases h
  · cases h

theorem Payload.isNull_meaning (column : DocumentColumn) (v : Payload) :
    isNull (v.meaning column) = false :=
  (column.reordered v.value).isNull.trans v.present

/-! ## Reading -/

section Reading

variable {jsonb : DocumentColumn} {d : Dialect} {p : StoreProcess}

/-- A document arrives as a value that its SDK reads, in either form. -/
theorem load_deliverJson (w : Written (d.column jsonb)) :
    ∃ v, p.deliverJson jsonb d w.stored = some v ∧
      loadJson p.sdk (p.jsonIsText jsonb d) v = some (w.value.meaning (d.column jsonb)) := by
  have hreads := w.reads p.sdk
  cases hform : p.jsonForm d with
  | text =>
      have htext : p.jsonIsText jsonb d = true := (p.jsonIsText_iff jsonb d).mpr hform
      refine ⟨.text ((d.column jsonb).output w.stored), ?_, ?_⟩
      · rw [StoreProcess.deliverJson, hform, WireForm.json]
      · rw [htext]
        exact hreads
  | decoded =>
      have hdecoded : p.jsonIsText jsonb d = false := by
        rw [← Bool.not_eq_true, p.jsonIsText_iff jsonb d, hform]
        simp
      refine ⟨w.value.meaning (d.column jsonb), ?_, ?_⟩
      · rw [StoreProcess.deliverJson, hform, WireForm.json]
        exact hreads
      · rw [hdecoded]
        cases w.value.meaning (d.column jsonb) <;> rfl

theorem load_deliverNullable (w : Option (Written (d.column jsonb))) :
    ∃ v v', p.deliverNullable jsonb d (w.map Written.stored) = some v ∧
      loadJson p.sdk (p.jsonIsText jsonb d) v = some v' ∧
        nullable v' = w.map fun w => w.value.meaning (d.column jsonb) := by
  cases w with
  | none => exact ⟨.null, .null, rfl, rfl, rfl⟩
  | some w =>
      rcases load_deliverJson (p := p) w with ⟨v, hdeliver, hload⟩
      refine ⟨v, _, hdeliver, hload, ?_⟩
      rw [nullable, w.value.isNull_meaning]
      rfl

/-- A time arrives exactly, in either form. -/
theorem load_deliverMs {i : Option Int} (h : ∀ n ∈ i, p.sdk.integer n = n) :
    loadMs p.sdk (p.deliverMs d i) = some i := by
  cases i with
  | none => rfl
  | some i =>
      have hexact : p.sdk.integer i = i := h i rfl
      have hinteger : integerOf (decimalText i) = some i := integerOf_decimal i
      cases hform : p.int8Form d with
      | text => simp [StoreProcess.deliverMs, hform, WireForm.int8, loadMs, hinteger, hexact]
      | decoded =>
          simp [StoreProcess.deliverMs, hform, WireForm.int8, loadMs, hexact, decimal, hinteger]

/-- A row reads back with the values its documents were written from. -/
theorem toTask_stored {t : Task (Written (d.column jsonb))} (hexact : t.TimesExact p.sdk) :
    p.toTask jsonb d (t.mapDocuments Written.stored) =
      some (t.mapDocuments fun w => w.value.meaning (d.column jsonb)) := by
  have htime : ∀ {i : Option Int}, (∀ n ∈ i, n ∈ t.times) →
      loadMs p.sdk (p.deliverMs d i) = some i :=
    fun h => load_deliverMs fun n hn => hexact n (h n hn)
  have hlease := htime (i := t.leaseUntilMs) fun n hn => by
    simp [Task.times, Option.mem_def.mp hn]
  have hrun := htime (i := some t.runAtMs) fun n hn => by
    simp [Task.times, Option.some.inj hn]
  have hcancel := htime (i := t.cancelRequestedAtMs) fun n hn => by
    simp [Task.times, Option.mem_def.mp hn]
  have hcreated := htime (i := some t.createdAtMs) fun n hn => by
    simp [Task.times, Option.some.inj hn]
  have hupdated := htime (i := some t.updatedAtMs) fun n hn => by
    simp [Task.times, Option.some.inj hn]
  have hcompleted := htime (i := t.completedAtMs) fun n hn => by
    simp [Task.times, Option.mem_def.mp hn]
  rcases load_deliverJson (p := p) t.payload with ⟨payload, hpayload, hpayload'⟩
  rcases load_deliverNullable (p := p) t.result with ⟨result, result', hresult, hresult', hnull⟩
  rcases load_deliverNullable (p := p) t.error with ⟨error, error', herror, herror', hnone⟩
  rcases load_deliverJson (p := p) t.metadata with ⟨metadata, hmetadata, hmetadata'⟩
  simp only [StoreProcess.toTask, StoreProcess.deliver, Task.mapDocuments, hpayload, hresult,
    herror, hmetadata, Option.bind_eq_bind, Option.bind_some, fromRow, hpayload', hresult',
    herror', hmetadata', hlease, hrun, hcancel, hcreated, hupdated, hcompleted, hnull, hnone,
    Option.pure_def]

end Reading

/-! ## Processes over one database -/

/-- A process executes a statement. -/
structure WiredStep where
  process : StoreProcess
  execution : Execution Payload

/-- What it sends: the texts of its encoder in place of the values. -/
def WiredStep.bound (column : DocumentColumn) (l : WiredStep) : Option (Execution column.Stored) :=
  (l.execution.statement.bindDocuments (l.process.dump column)).map fun statement =>
    { nowMs := l.execution.nowMs, held := l.execution.held, statement := statement }

/-- What it means: the values that are kept. -/
def WiredStep.meant (column : DocumentColumn) (l : WiredStep) : Execution (Json .value) :=
  l.execution.mapDocuments (Payload.meaning column)

/-- The protocol over the texts, or whatever the engine keeps of them. -/
def wired (jsonb : DocumentColumn) (d : Dialect) :
    Machine (ProtocolState (d.column jsonb).Stored) WiredStep := fun s l =>
  (l.bound (d.column jsonb)).bind (protocol d s)

section Travel

variable {jsonb : DocumentColumn} {d : Dialect}

/-- What a stored document means. -/
abbrev Written.meaning {column : DocumentColumn} (w : Written column) : Json .value :=
  w.value.meaning column

/-- What is sent and what is meant are two sides of one statement. -/
theorem WiredStep.exists_joint {column : DocumentColumn} {l : WiredStep}
    {e : Execution column.Stored} (h : l.bound column = some e) :
    ∃ joint : Execution (Written column), joint.mapDocuments Written.stored = e ∧
      joint.mapDocuments Written.meaning = l.meant column := by
  rcases Option.map_eq_some_iff.mp h with ⟨statement, hstatement, rfl⟩
  rcases Statement.exists_joint (fun _ _ => StoreProcess.exists_written) hstatement with
    ⟨joint, hvalue, hstored⟩
  refine ⟨⟨l.execution.nowMs, l.execution.held, joint⟩, ?_, ?_⟩
  · simp only [Execution.mapDocuments, hstored]
  · simp only [Execution.mapDocuments, WiredStep.meant, ← hvalue,
      Statement.mapDocuments_mapDocuments]
    rfl

/-- The run of the stored documents and that of their values side by side. -/
theorem exists_joint_run {w : ProtocolState (Written (d.column jsonb))} {ls : List WiredStep}
    {s : ProtocolState (d.column jsonb).Stored}
    (hsteps : (wired jsonb d).Steps anyStep (w.mapDocuments Written.stored) ls s) :
    ∃ w' : ProtocolState (Written (d.column jsonb)), w'.mapDocuments Written.stored = s ∧
      (protocol d).Steps anyStep (w.mapDocuments Written.meaning)
        (ls.map (WiredStep.meant (d.column jsonb))) (w'.mapDocuments Written.meaning) := by
  generalize hstart : w.mapDocuments Written.stored = start at hsteps
  induction hsteps generalizing w with
  | nil => exact ⟨w, hstart, .nil _⟩
  | cons _ hstep _ ih =>
      subst hstart
      rcases Option.bind_eq_some_iff.mp hstep with ⟨e, hbound, hprotocol⟩
      rcases WiredStep.exists_joint hbound with ⟨joint, rfl, hmeant⟩
      rw [protocol_mapDocuments] at hprotocol
      rcases Option.map_eq_some_iff.mp hprotocol with ⟨mid, hmid, hsame⟩
      rcases ih hsame with ⟨w', hw', hrun⟩
      refine ⟨w', hw', .cons trivial ?_ hrun⟩
      rw [← hmeant, protocol_mapDocuments, hmid, Option.map_some]

/-- The rows of a reply have exact times. -/
def Reply.TimesExact {J : Type} (sdk : Sdk) (reply : Reply J) : Prop :=
  ∀ t ∈ reply.rows, t.TimesExact sdk

theorem toReply_stored {p : StoreProcess} {reply : Reply (Written (d.column jsonb))}
    (hexact : reply.TimesExact p.sdk) :
    p.toReply jsonb d (reply.mapDocuments Written.stored) =
      some (reply.mapDocuments Written.meaning) := by
  cases reply with
  | tasks rows =>
      have hrows : (rows.map (Task.mapDocuments Written.stored)).mapM (p.toTask jsonb d) =
          some (rows.map (Task.mapDocuments Written.meaning)) := by
        have hall : ∀ t ∈ rows, t.TimesExact p.sdk := hexact
        clear hexact
        induction rows with
        | nil => rfl
        | cons t rows ih =>
            rw [List.map_cons, List.mapM_cons, toTask_stored (hall t List.mem_cons_self),
              ih fun t ht => hall t (List.mem_cons_of_mem _ ht)]
            rfl
      simp only [Reply.mapDocuments, StoreProcess.toReply, hrows, Option.map_some]
  | renewed | ids | done | error => rfl

end Travel

/-- A Python process. -/
def pythonProcess : StoreProcess where
  sdk := .python
  stack := ⟨1000, 1000⟩
  json := .text
  int8 := .decoded

/-- A Node process. -/
def nodeProcess : StoreProcess where
  sdk := .node
  stack := ⟨1000, 1000⟩
  json := .decoded
  int8 := .text

/-- A value that the two encoders write differently. -/
def accentedPayload : Payload where
  value := accented
  present := rfl

/-- One of them submits it, and the other completes with it. -/
def accentedRun : List WiredStep :=
  [⟨pythonProcess, .alone 0 (.insertTask (.plain "t" "work" 3 accentedPayload))⟩,
    ⟨nodeProcess, .alone 1 (.claim (.claimOneQueue "default" none) "w" 10 1)⟩,
    ⟨nodeProcess, .alone 2 (.owned "t" "w" (.complete (some accentedPayload)))⟩]

end CairnQ
