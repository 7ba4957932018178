import CairnQ.Json.Traces

/-!
# JSON.stringify

JavaScript values as {lit}`JSON.stringify` sees them, and the serialization itself with a
replacer that may throw but returns the value it was given.  Of an object it sees the own
enumerable properties, in their order; it calls {lit}`toJSON` first, hands what that returned
to the replacer, and unboxes primitives only then.  Getters and {lit}`toJSON` are pure: what
they return at a place is part of the value.

Main results:

- Theorem `serialize_noReplacer`: without a replacer the text is the rendering of the
  {lit}`document` of the value, unless something in it makes the serialization throw.
- Theorem `serialize_of_accepted`: a replacer that accepts everything it is handed changes
  nothing.
- Theorem `serialize_of_rejected`: one that does not throws, unless the engine does.
-/

namespace JsonText

/-! ## Values -/

/-- A number. -/
inductive JsNumber
  | finite (n : NumberText)
  | nan
  | infinity
  | negInfinity

/-- A primitive that can be boxed; a symbol in a box is an object like any other. -/
inductive JsPrimitive
  | number (n : JsNumber)
  | bool (b : Bool)
  | text (t : Text)
  | bigint

/-- An element of a typed array. -/
inductive JsElement
  | number (n : JsNumber)
  | bigint

/-- What an object inherits from: `Object.prototype`, nothing, or something else, as an instance
of a class or of a built-in does. -/
inductive JsPrototype
  | plain
  | null
  | other
deriving DecidableEq, Repr

/-- A value, the items of an array (a hole is undefined), or own enumerable properties.  An
object carries the name of its constructor, where it has one. -/
inductive JsValue : Kind → Type
  | undefined : JsValue .value
  | function : JsValue .value
  | symbol : JsValue .value
  | null : JsValue .value
  | bool (b : Bool) : JsValue .value
  | number (n : JsNumber) : JsValue .value
  | text (t : Text) : JsValue .value
  | bigint : JsValue .value
  /-- an object inside of itself, or one whose `toJSON` throws -/
  | throwing (message : String) : JsValue .value
  | array (items : JsValue .items) : JsValue .value
  | object (proto : JsPrototype) (name : Option String) (properties : JsValue .fields) :
      JsValue .value
  | boxed (primitive : JsPrimitive) (name : Option String) (properties : JsValue .fields) :
      JsValue .value
  /-- a typed array, or a `DataView`, which has no elements -/
  | view (name : Option String) (elements : List JsElement) (properties : JsValue .fields) :
      JsValue .value
  /-- a value with a `toJSON`, and what that returns -/
  | withToJson (raw result : JsValue .value) : JsValue .value
  | noItems : JsValue .items
  | item (value : JsValue .value) (rest : JsValue .items) : JsValue .items
  | noFields : JsValue .fields
  | field (key : Text) (value : JsValue .value) (rest : JsValue .fields) : JsValue .fields

/-- `typeof`. -/
def JsValue.typeOf : {k : Kind} → JsValue k → String
  | _, .undefined => "undefined"
  | _, .function => "function"
  | _, .symbol => "symbol"
  | _, .bool _ => "boolean"
  | _, .number _ => "number"
  | _, .text _ => "string"
  | _, .bigint => "bigint"
  | _, .withToJson raw _ => raw.typeOf
  | _, _ => "object"

/-- Own enumerable properties there are none of. -/
def JsValue.noProperties : JsValue .fields → Bool
  | .noFields => true
  | .field _ _ _ => false

/-! ## Serialization -/

/-- What is thrown: an error of the program, or one of the engine. -/
inductive Thrown (ε : Type)
  | own (e : ε)
  | engine (message : String)
deriving DecidableEq, Repr

/-- `Cannot serialize` of a BigInt. -/
def bigintMessage : String :=
  "Do not know how to serialize a BigInt"

/-- The text of a number. -/
def JsNumber.written : JsNumber → Text
  | .finite n => n.text
  | .nan | .infinity | .negInfinity => latin "null"

/-- A text for a value that has one, or a text for each item, or for each property written. -/
abbrev Serialized : Kind → Type
  | .value => Option Text
  | .items | .fields => List Text

section Serialize

variable {ε : Type}

/-- A replacer that hands back what it gets: it is told whether the holder is an array. -/
abbrev Replacer (ε : Type) := Bool → JsValue .value → Except ε Unit

/-- No replacer. -/
def noReplacer : Replacer ε := fun _ _ => .ok ()

/-- Call the replacer. -/
def Replacer.call (replacer : Replacer ε) (inArray : Bool) (v : JsValue .value) :
    Except (Thrown ε) Unit :=
  (replacer inArray v).mapError .own

/-- One property. -/
def member (key t : Text) : Text :=
  quoted .minimal key ++ 58 :: t

/-- The elements of a typed array, from an index on. -/
def serializeElements (replacer : Replacer ε) :
    Nat → List JsElement → Except (Thrown ε) (List Text)
  | _, [] => .ok []
  | i, .number n :: rest => do
      replacer.call false (.number n)
      let ts ← serializeElements replacer (i + 1) rest
      pure (member (digits i) n.written :: ts)
  | _, .bigint :: _ => do
      replacer.call false .bigint
      throw (.engine bigintMessage)

/-- `SerializeJSONProperty`, `SerializeJSONArray` and `SerializeJSONObject`; {lit}`called` says
that `toJSON` has been called already. -/
def serialize (replacer : Replacer ε) (called inArray : Bool) :
    {k : Kind} → JsValue k → Except (Thrown ε) (Serialized k)
  | _, .withToJson raw result =>
      if called then serialize replacer true inArray raw else serialize replacer true inArray result
  | _, .undefined => do
      replacer.call inArray .undefined
      pure none
  | _, .function => do
      replacer.call inArray .function
      pure none
  | _, .symbol => do
      replacer.call inArray .symbol
      pure none
  | _, .null => do
      replacer.call inArray .null
      pure (some (latin "null"))
  | _, .bool b => do
      replacer.call inArray (.bool b)
      pure (some (latin (if b then "true" else "false")))
  | _, .number n => do
      replacer.call inArray (.number n)
      pure (some n.written)
  | _, .text t => do
      replacer.call inArray (.text t)
      pure (some (quoted .minimal t))
  | _, .bigint => do
      replacer.call inArray .bigint
      throw (.engine bigintMessage)
  | _, .throwing message => throw (.engine message)
  | _, .array items => do
      replacer.call inArray (.array items)
      let ts ← serialize replacer false true items
      pure (some (91 :: join ts ++ [93]))
  | _, .object proto name properties => do
      replacer.call inArray (.object proto name properties)
      let ts ← serialize replacer false false properties
      pure (some (123 :: join ts ++ [125]))
  | _, .boxed primitive name properties => do
      replacer.call inArray (.boxed primitive name properties)
      match primitive with
      | .number n => pure (some n.written)
      | .bool b => pure (some (latin (if b then "true" else "false")))
      | .text t => pure (some (quoted .minimal t))
      | .bigint => throw (.engine bigintMessage)
  | _, .view name elements properties => do
      replacer.call inArray (.view name elements properties)
      let ts ← serializeElements replacer 0 elements
      let ts' ← serialize replacer false false properties
      pure (some (123 :: join (ts ++ ts') ++ [125]))
  | _, .noItems => pure []
  | _, .item value rest => do
      let t ← serialize replacer false true value
      let ts ← serialize replacer false true rest
      pure (t.getD (latin "null") :: ts)
  | _, .noFields => pure []
  | _, .field key value rest => do
      let t ← serialize replacer false false value
      let ts ← serialize replacer false false rest
      pure (match t with
        | some t => member key t :: ts
        | none => ts)

/-- `JSON.stringify`. -/
def stringify (replacer : Replacer ε) (v : JsValue .value) : Except (Thrown ε) (Option Text) :=
  serialize replacer false false v

end Serialize

/-! ## The document of a value -/

/-- A number, or null in its place. -/
def JsNumber.document : JsNumber → Json .value
  | .finite n => .number n
  | .nan | .infinity | .negInfinity => .notFinite

/-- What is in a box. -/
def JsPrimitive.document : JsPrimitive → Json .value
  | .number n => n.document
  | .bool b => .bool b
  | .text t => .text t
  | .bigint => .failing

/-- The elements of a typed array by their indices, and further fields. -/
def elementFields (fields : Json .fields) : Nat → List JsElement → Json .fields
  | _, [] => fields
  | i, .number n :: rest => .field (digits i) n.document (elementFields fields (i + 1) rest)
  | i, .bigint :: rest => .field (digits i) .failing (elementFields fields (i + 1) rest)

/-- What a value is written as. -/
def JsValue.document (called : Bool) : {k : Kind} → JsValue k → Json k
  | _, .withToJson raw result => if called then raw.document true else result.document true
  | _, .undefined | _, .function | _, .symbol => .absent
  | _, .null => .null
  | _, .bool b => .bool b
  | _, .number n => n.document
  | _, .text t => .text t
  | _, .bigint | _, .throwing _ => .failing
  | _, .array items => .array (items.document false)
  | _, .object _ _ properties => .object (properties.document false)
  | _, .boxed primitive _ _ => primitive.document
  | _, .view _ elements properties =>
      .object (elementFields (properties.document false) 0 elements)
  | _, .noItems => .noItems
  | _, .item value rest => .item (value.document false) (rest.document false)
  | _, .noFields => .noFields
  | _, .field key value rest => .field key (value.document false) (rest.document false)

/-- Something in a document makes the serialization throw. -/
def Json.fails : {k : Kind} → Json k → Bool
  | _, .failing => true
  | _, .array items => items.fails
  | _, .object fields => fields.fails
  | _, .item value rest | _, .field _ value rest => value.fails || rest.fails
  | _, _ => false

/-- The text of a document, if it is not absent, or those of its pieces. -/
def Json.written : {k : Kind} → Json k → Serialized k
  | .value, v => if v.isAbsent then none else some (v.render .minimal)
  | .items, items => items.render .minimal
  | .fields, fields => fields.render .minimal

section Serialize

variable {ε : Type}

theorem JsNumber.fails_document (n : JsNumber) : n.document.fails = false := by
  cases n <;> rfl

theorem Json.getD_written (v : Json .value) :
    v.written.getD (latin "null") = v.render .minimal := by
  cases v <;> rfl

theorem fails_of_elementFields {fields : Json .fields} {i : Nat} {elements : List JsElement}
    (h : (elementFields fields i elements).fails = false) : fields.fails = false := by
  induction elements generalizing i with
  | nil => exact h
  | cons e rest ih =>
      cases e with
      | bigint => cases h
      | number n =>
          simp only [elementFields, Json.fails, n.fails_document, Bool.false_or] at h
          exact ih h

/-- The elements of a typed array are written like fields. -/
theorem serializeElements_noReplacer {fields : Json .fields} {i : Nat} {elements : List JsElement}
    (h : (elementFields fields i elements).fails = false) :
    ∃ ts, serializeElements (noReplacer : Replacer ε) i elements = .ok ts ∧
      (elementFields fields i elements).written = ts ++ fields.written := by
  induction elements generalizing i with
  | nil => exact ⟨[], rfl, rfl⟩
  | cons e rest ih =>
      cases e with
      | bigint => cases h
      | number n =>
          simp only [elementFields, Json.fails, n.fails_document, Bool.false_or] at h
          rcases ih h with ⟨ts, hts, hwritten⟩
          refine ⟨member (digits i) n.written :: ts, ?_, ?_⟩
          · simp only [serializeElements, hts]
            rfl
          · have hpresent : n.document.isAbsent = false := by cases n <;> rfl
            have hrender : n.document.render .minimal = n.written := by cases n <;> rfl
            have hrest : (elementFields fields (i + 1) rest).render .minimal =
                ts ++ fields.render .minimal := hwritten
            simp only [elementFields, Json.written, Json.render, hpresent, hrender, hrest,
              if_neg Bool.false_ne_true]
            rfl

/-- Without a replacer a value is written as its document, unless something in that fails. -/
theorem serialize_noReplacer {k : Kind} {v : JsValue k} {called inArray : Bool}
    (h : (v.document called).fails = false) :
    serialize (noReplacer : Replacer ε) called inArray v = .ok (v.document called).written := by
  induction v generalizing called inArray with
  | undefined | function | symbol | null | text | noItems | noFields => rfl
  | bool b => cases b <;> rfl
  | number n => cases n <;> rfl
  | bigint | throwing => cases h
  | withToJson raw result ihraw ihresult =>
      cases called with
      | true => exact ihraw h
      | false => exact ihresult h
  | array items ih =>
      show (serialize noReplacer false true items).bind _ = _
      rw [ih h]
      rfl
  | object proto name properties ih =>
      show (serialize noReplacer false false properties).bind _ = _
      rw [ih h]
      rfl
  | boxed primitive name properties =>
      cases primitive with
      | number n => cases n <;> rfl
      | bool b => cases b <;> rfl
      | text t => rfl
      | bigint => cases h
  | view name elements properties ih =>
      have hfields : (properties.document false).fails = false := fails_of_elementFields h
      rcases @serializeElements_noReplacer ε (properties.document false) 0 elements h with
        ⟨ts, hts, hwritten⟩
      show (serializeElements noReplacer 0 elements).bind (fun ts =>
        (serialize noReplacer false false properties).bind _) = _
      rw [hts, ih hfields]
      show Except.ok (some (123 :: join (ts ++ (properties.document false).written) ++ [125])) = _
      rw [← hwritten]
      rfl
  | item value rest ihvalue ihrest =>
      simp only [JsValue.document, Json.fails, Bool.or_eq_false_iff] at h
      show (serialize noReplacer false true value).bind (fun t =>
        (serialize noReplacer false true rest).bind _) = _
      rw [ihvalue h.1, ihrest h.2]
      show Except.ok ((value.document false).written.getD (latin "null") :: _) = _
      rw [Json.getD_written]
      rfl
  | field key value rest ihvalue ihrest =>
      simp only [JsValue.document, Json.fails, Bool.or_eq_false_iff] at h
      show (serialize noReplacer false false value).bind (fun t =>
        (serialize noReplacer false false rest).bind _) = _
      rw [ihvalue h.1, ihrest h.2]
      by_cases habsent : (value.document false).isAbsent = true
      · simp only [JsValue.document, Json.written, Json.render, if_pos habsent]
        rfl
      · simp only [JsValue.document, Json.written, Json.render, if_neg habsent]
        rfl

theorem serializeElements_noReplacer_or (fields : Json .fields) (i : Nat)
    (elements : List JsElement) :
    (∃ m, serializeElements (noReplacer : Replacer ε) i elements = .error (.engine m)) ∨
      ((elementFields fields i elements).fails = fields.fails ∧
        ∃ ts, serializeElements (noReplacer : Replacer ε) i elements = .ok ts) := by
  induction elements generalizing i with
  | nil => exact Or.inr ⟨rfl, [], rfl⟩
  | cons e rest ih =>
      cases e with
      | bigint => exact Or.inl ⟨bigintMessage, rfl⟩
      | number n =>
          rcases ih (i + 1) with ⟨m, hm⟩ | ⟨hfails, ts, hts⟩
          · refine Or.inl ⟨m, ?_⟩
            simp only [serializeElements, hm]
            rfl
          · refine Or.inr ⟨?_, member (digits i) n.written :: ts, ?_⟩
            · simp only [elementFields, Json.fails, n.fails_document, Bool.false_or, hfails]
            · simp only [serializeElements, hts]
              rfl

/-- What fails makes the engine throw. -/
theorem serialize_noReplacer_fails {k : Kind} {v : JsValue k} {called inArray : Bool}
    (h : (v.document called).fails = true) :
    ∃ m, serialize (noReplacer : Replacer ε) called inArray v = .error (.engine m) := by
  induction v generalizing called inArray with
  | undefined | function | symbol | null | bool | text | noItems | noFields => cases h
  | number n => exact absurd h (by simp [JsValue.document, n.fails_document])
  | bigint => exact ⟨bigintMessage, rfl⟩
  | throwing message => exact ⟨message, rfl⟩
  | withToJson raw result ihraw ihresult =>
      cases called with
      | true => exact ihraw h
      | false => exact ihresult h
  | array items ih =>
      rcases @ih false true h with ⟨m, hm⟩
      refine ⟨m, ?_⟩
      show (serialize noReplacer false true items).bind _ = _
      rw [hm]
      rfl
  | object proto name properties ih =>
      rcases @ih false false h with ⟨m, hm⟩
      refine ⟨m, ?_⟩
      show (serialize noReplacer false false properties).bind _ = _
      rw [hm]
      rfl
  | boxed primitive name properties =>
      cases primitive with
      | number n =>
          exact absurd h (by simp [JsValue.document, JsPrimitive.document, n.fails_document])
      | bool b => cases h
      | text t => cases h
      | bigint => exact ⟨bigintMessage, rfl⟩
  | view name elements properties ih =>
      rcases serializeElements_noReplacer_or (ε := ε) (properties.document false) 0 elements with
        ⟨m, hm⟩ | ⟨hfails, ts, hts⟩
      · refine ⟨m, ?_⟩
        show (serializeElements noReplacer 0 elements).bind _ = _
        rw [hm]
        rfl
      · rcases @ih false false (hfails ▸ h) with ⟨m, hm⟩
        refine ⟨m, ?_⟩
        show (serializeElements noReplacer 0 elements).bind (fun ts =>
          (serialize noReplacer false false properties).bind _) = _
        rw [hts, hm]
        rfl
  | item value rest ihvalue ihrest =>
      cases hvalue : (value.document false).fails with
      | true =>
          rcases @ihvalue false true hvalue with ⟨m, hm⟩
          refine ⟨m, ?_⟩
          show (serialize noReplacer false true value).bind _ = _
          rw [hm]
          rfl
      | false =>
          simp only [JsValue.document, Json.fails, hvalue, Bool.false_or] at h
          rcases @ihrest false true h with ⟨m, hm⟩
          refine ⟨m, ?_⟩
          show (serialize noReplacer false true value).bind (fun t =>
            (serialize noReplacer false true rest).bind _) = _
          rw [serialize_noReplacer hvalue, hm]
          rfl
  | field key value rest ihvalue ihrest =>
      cases hvalue : (value.document false).fails with
      | true =>
          rcases @ihvalue false false hvalue with ⟨m, hm⟩
          refine ⟨m, ?_⟩
          show (serialize noReplacer false false value).bind _ = _
          rw [hm]
          rfl
      | false =>
          simp only [JsValue.document, Json.fails, hvalue, Bool.false_or] at h
          rcases @ihrest false false h with ⟨m, hm⟩
          refine ⟨m, ?_⟩
          show (serialize noReplacer false false value).bind (fun t =>
            (serialize noReplacer false false rest).bind _) = _
          rw [serialize_noReplacer hvalue, hm]
          rfl

/-! ## Replacers -/

/-- The replacer accepts the value it is handed. -/
def Replacer.accepts (r : Replacer ε) (inArray : Bool) (v : JsValue .value) : Bool :=
  (r inArray v).isOk

/-- What the replacer is handed for an element of a typed array. -/
def JsElement.value : JsElement → JsValue .value
  | .number n => .number n
  | .bigint => .bigint

/-- The replacer accepts every value it is handed on the way. -/
def JsValue.accepted (r : Replacer ε) (called inArray : Bool) : {k : Kind} → JsValue k → Bool
  | _, .withToJson raw result =>
      if called then raw.accepted r true inArray else result.accepted r true inArray
  | _, .undefined => r.accepts inArray .undefined
  | _, .function => r.accepts inArray .function
  | _, .symbol => r.accepts inArray .symbol
  | _, .null => r.accepts inArray .null
  | _, .bool b => r.accepts inArray (.bool b)
  | _, .number n => r.accepts inArray (.number n)
  | _, .text t => r.accepts inArray (.text t)
  | _, .bigint => r.accepts inArray .bigint
  | _, .throwing _ => true
  | _, .array items => r.accepts inArray (.array items) && items.accepted r false true
  | _, .object proto name properties =>
      r.accepts inArray (.object proto name properties) && properties.accepted r false false
  | _, .boxed primitive name properties => r.accepts inArray (.boxed primitive name properties)
  | _, .view name elements properties =>
      r.accepts inArray (.view name elements properties) &&
        elements.all (fun e => r.accepts false e.value) && properties.accepted r false false
  | _, .item value rest => value.accepted r false true && rest.accepted r false true
  | _, .field _ value rest => value.accepted r false false && rest.accepted r false false
  | _, .noItems | _, .noFields => true

theorem Replacer.call_of_accepts {r : Replacer ε} {inArray : Bool} {v : JsValue .value}
    (h : r.accepts inArray v = true) : r.call inArray v = .ok () := by
  unfold Replacer.accepts at h
  rw [Replacer.call]
  cases hr : r inArray v with
  | ok => rfl
  | error e =>
      rw [hr] at h
      cases h

/-- Nothing comes after a call that throws. -/
theorem Replacer.bind_of_not_accepts {r : Replacer ε} {inArray : Bool} {v : JsValue .value}
    (h : r.accepts inArray v = false) {α : Type} (next : Unit → Except (Thrown ε) α) :
    ∃ e, (r.call inArray v >>= next) = .error (.own e) := by
  unfold Replacer.accepts at h
  rw [Replacer.call]
  cases hr : r inArray v with
  | ok =>
      rw [hr] at h
      cases h
  | error e => exact ⟨e, rfl⟩

theorem serializeElements_of_accepted {r : Replacer ε} {i : Nat} {elements : List JsElement}
    (h : (elements.all fun e => r.accepts false e.value) = true) :
    serializeElements r i elements = serializeElements noReplacer i elements := by
  induction elements generalizing i with
  | nil => rfl
  | cons e rest ih =>
      rw [List.all_cons, Bool.and_eq_true] at h
      cases e with
      | number n =>
          simp only [serializeElements, Replacer.call_of_accepts (v := .number n) h.1, ih h.2]
          rfl
      | bigint =>
          simp only [serializeElements, Replacer.call_of_accepts (v := .bigint) h.1]
          rfl

theorem serializeElements_of_rejected {r : Replacer ε} {fields : Json .fields} {i : Nat}
    {elements : List JsElement} (h : (elements.all fun e => r.accepts false e.value) = false)
    (hfails : (elementFields fields i elements).fails = false) :
    ∃ e, serializeElements r i elements = .error (.own e) := by
  induction elements generalizing i with
  | nil => cases h
  | cons element rest ih =>
      cases element with
      | bigint => cases hfails
      | number n =>
          simp only [elementFields, Json.fails, n.fails_document, Bool.false_or] at hfails
          rw [List.all_cons] at h
          cases hhead : r.accepts false (.number n) with
          | false => exact Replacer.bind_of_not_accepts hhead _
          | true =>
              rw [show r.accepts false (JsElement.number n).value = true from hhead,
                Bool.true_and] at h
              rcases ih h hfails with ⟨e, he⟩
              refine ⟨e, ?_⟩
              simp only [serializeElements, Replacer.call_of_accepts hhead, he]
              rfl

/-- A replacer that accepts everything changes nothing. -/
theorem serialize_of_accepted {r : Replacer ε} {k : Kind} {v : JsValue k} {called inArray : Bool}
    (h : v.accepted r called inArray = true) :
    serialize r called inArray v = serialize noReplacer called inArray v := by
  induction v generalizing called inArray with
  | undefined | function | symbol | null | bool | number | text | bigint | boxed =>
      simp only [serialize, Replacer.call_of_accepts h]
      rfl
  | throwing message => rfl
  | noItems | noFields => rfl
  | withToJson raw result ihraw ihresult =>
      cases called with
      | true => exact ihraw h
      | false => exact ihresult h
  | array items ih =>
      rw [JsValue.accepted, Bool.and_eq_true] at h
      simp only [serialize, Replacer.call_of_accepts h.1, ih h.2]
      rfl
  | object proto name properties ih =>
      rw [JsValue.accepted, Bool.and_eq_true] at h
      simp only [serialize, Replacer.call_of_accepts h.1, ih h.2]
      rfl
  | view name elements properties ih =>
      rw [JsValue.accepted, Bool.and_eq_true, Bool.and_eq_true] at h
      simp only [serialize, Replacer.call_of_accepts h.1.1, serializeElements_of_accepted h.1.2,
        ih h.2]
      rfl
  | item value rest ihvalue ihrest =>
      rw [JsValue.accepted, Bool.and_eq_true] at h
      simp only [serialize, ihvalue h.1, ihrest h.2]
  | field key value rest ihvalue ihrest =>
      rw [JsValue.accepted, Bool.and_eq_true] at h
      simp only [serialize, ihvalue h.1, ihrest h.2]

/-- A replacer that does not accept everything throws, unless the engine does. -/
theorem serialize_of_rejected {r : Replacer ε} {k : Kind} {v : JsValue k} {called inArray : Bool}
    (h : v.accepted r called inArray = false) (hfails : (v.document called).fails = false) :
    ∃ e, serialize r called inArray v = .error (.own e) := by
  induction v generalizing called inArray with
  | undefined | function | symbol | null | bool | number | text | bigint | boxed =>
      exact Replacer.bind_of_not_accepts h _
  | throwing | noItems | noFields => cases h
  | withToJson raw result ihraw ihresult =>
      cases called with
      | true => exact ihraw h hfails
      | false => exact ihresult h hfails
  | array items ih =>
      cases hself : r.accepts inArray (.array items) with
      | false => exact Replacer.bind_of_not_accepts hself _
      | true =>
          rw [JsValue.accepted, hself, Bool.true_and] at h
          rcases ih h hfails with ⟨e, he⟩
          refine ⟨e, ?_⟩
          simp only [serialize, Replacer.call_of_accepts hself, he]
          rfl
  | object proto name properties ih =>
      cases hself : r.accepts inArray (.object proto name properties) with
      | false => exact Replacer.bind_of_not_accepts hself _
      | true =>
          rw [JsValue.accepted, hself, Bool.true_and] at h
          rcases ih h hfails with ⟨e, he⟩
          refine ⟨e, ?_⟩
          simp only [serialize, Replacer.call_of_accepts hself, he]
          rfl
  | view name elements properties ih =>
      cases hself : r.accepts inArray (.view name elements properties) with
      | false => exact Replacer.bind_of_not_accepts hself _
      | true =>
          rw [JsValue.accepted, hself, Bool.true_and] at h
          cases helements : elements.all fun e => r.accepts false e.value with
          | false =>
              rcases serializeElements_of_rejected helements hfails with ⟨e, he⟩
              refine ⟨e, ?_⟩
              simp only [serialize, Replacer.call_of_accepts hself, he]
              rfl
          | true =>
              rw [helements, Bool.true_and] at h
              rcases ih h (fails_of_elementFields hfails) with ⟨e, he⟩
              rcases serializeElements_noReplacer (ε := ε) hfails with ⟨ts, hts, -⟩
              refine ⟨e, ?_⟩
              simp only [serialize, Replacer.call_of_accepts hself,
                serializeElements_of_accepted helements, hts, he]
              rfl
  | item value rest ihvalue ihrest =>
      simp only [JsValue.document, Json.fails, Bool.or_eq_false_iff] at hfails
      cases hvalue : value.accepted r false true with
      | false =>
          rcases ihvalue hvalue hfails.1 with ⟨e, he⟩
          refine ⟨e, ?_⟩
          simp only [serialize, he]
          rfl
      | true =>
          rw [JsValue.accepted, hvalue, Bool.true_and] at h
          rcases ihrest h hfails.2 with ⟨e, he⟩
          refine ⟨e, ?_⟩
          simp only [serialize, serialize_of_accepted hvalue, serialize_noReplacer hfails.1, he]
          rfl
  | field key value rest ihvalue ihrest =>
      simp only [JsValue.document, Json.fails, Bool.or_eq_false_iff] at hfails
      cases hvalue : value.accepted r false false with
      | false =>
          rcases ihvalue hvalue hfails.1 with ⟨e, he⟩
          refine ⟨e, ?_⟩
          simp only [serialize, he]
          rfl
      | true =>
          rw [JsValue.accepted, hvalue, Bool.true_and] at h
          rcases ihrest h hfails.2 with ⟨e, he⟩
          refine ⟨e, ?_⟩
          simp only [serialize, serialize_of_accepted hvalue, serialize_noReplacer hfails.1, he]
          rfl

end Serialize

end JsonText
