import CairnQ.Json.Stringify
import CairnQ.Protocol.FailureRecord

/-!
# The strict pass

`dumpJson` of the TypeScript SDK over everything a caller can hand it.  The strict pass, with
the replacer `rejectMangled`, runs only when the text of the plain pass has one of three
traces of a mangled value.  Two kinds of objects are refused by the replacer and written
without a trace: a box around a primitive, which the replacer sees before it is unboxed, and a
view of a buffer without elements that has properties of its own.

Main results:

- Theorem `traced_of_rejected`: everything else that is refused leaves a trace.
- Theorem `dumpsStrictly_iff`: `dumpJson` does what both passes together would do exactly when
  the engine throws, no such object is reached, or something leaves a trace.
- Theorem `dumpJson_ofJson`: on values without boxes and views this is the encoder of failure
  records.
-/

namespace CairnQ

open Relational JsonText

/-! ## The replacer -/

/-- `SerializationError`. -/
structure SerializationError where
  message : String
deriving DecidableEq, Repr

/-- `String(v)` of a number that is not finite. -/
def nonFinite : JsNumber → Option String
  | .finite _ => none
  | .nan => some "NaN"
  | .infinity => some "Infinity"
  | .negInfinity => some "-Infinity"

/-- A box of it has no own enumerable properties; one of a string has its units. -/
def noIndices : JsPrimitive → Bool
  | .text t => t.isEmpty
  | _ => true

/-- `emptiesItselfOut`. -/
def emptiesItselfOut : {k : Kind} → JsValue k → Bool
  | _, .view _ _ _ => true
  | _, .object proto _ properties => decide (proto = .other) && properties.noProperties
  | _, .boxed primitive _ properties => noIndices primitive && properties.noProperties
  | _, _ => false

/-- `v.constructor?.name`. -/
def constructorName : {k : Kind} → JsValue k → Option String
  | _, .view name _ _ | _, .object _ name _ | _, .boxed _ name _ => name
  | _, _ => none

/-- `rejectMangled`. -/
def rejectMangled : Replacer SerializationError := fun inArray v =>
  match v with
  | .number n =>
      match nonFinite n with
      | some spelled =>
          .error ⟨"non-finite number " ++ spelled ++ " is not JSON-serializable"⟩
      | none => .ok ()
  | .undefined | .function | .symbol =>
      if inArray then .error ⟨v.typeOf ++ " inside an array is not JSON-serializable"⟩
      else .ok ()
  | v =>
      if emptiesItselfOut v then
        .error ⟨(constructorName v).getD "object" ++
          " carries nothing JSON.stringify can see and would be written as an empty object"⟩
      else .ok ()

/-! ## The encoder -/

/-- `err.message`. -/
def thrownMessage : Thrown SerializationError → String
  | .own e => e.message
  | .engine message => message

/-- `dumpJson`. -/
def dumpJsValue (value : JsValue .value) : Except (Thrown SerializationError) Text :=
  match stringify noReplacer value with
  | .error err => .error (.own ⟨thrownMessage err⟩)
  | .ok none =>
      .error (.own ⟨"value of type " ++ value.typeOf ++ " is not JSON-serializable"⟩)
  | .ok (some text) =>
      if hasTrace text then (stringify rejectMangled value).map fun _ => text
      else .ok text

/-- One of the passes throws, or the plain one writes nothing. -/
def PassFails (value : JsValue .value) : Prop :=
  (∃ e, stringify (noReplacer : Replacer SerializationError) value = .error e) ∨
    stringify (noReplacer : Replacer SerializationError) value = .ok none ∨
    ∃ e, stringify rejectMangled value = .error e

/-- The fast path agrees with the strict pass: `dumpJson` throws its own error exactly when one
of the passes fails, and otherwise returns what the plain one writes. -/
def DumpsStrictly (value : JsValue .value) : Prop :=
  ((∃ e, dumpJsValue value = .error (.own e)) ↔ PassFails value) ∧
    (¬PassFails value → ∃ t, stringify (noReplacer : Replacer SerializationError) value =
      .ok (some t) ∧ dumpJsValue value = .ok t)

/-! ## Silent objects -/

/-- In a box it is written as what it is, and looks like an empty object to the replacer. -/
def boxesSilently : JsPrimitive → Bool
  | .number (.finite _) | .bool _ => true
  | .text t => t.isEmpty
  | .number _ | .bigint => false

/-- On the way through a value there is an object that the replacer refuses and that is written
without a trace of its own: a box, or a view without elements of which a property is written. -/
def silent (called : Bool) : {k : Kind} → JsValue k → Bool
  | _, .withToJson raw result => if called then silent true raw else silent true result
  | _, .boxed primitive _ properties => boxesSilently primitive && properties.noProperties
  | _, .view _ elements properties =>
      elements.isEmpty && (properties.document false).firstKey.isSome
  | _, .array items => silent false items
  | _, .object _ _ properties => silent false properties
  | _, .item value rest | _, .field _ value rest => silent false value || silent false rest
  | _, _ => false

/-! ### What the replacer accepts -/

section Accepts

variable {inArray : Bool}

theorem accepts_object (proto : JsPrototype) (name : Option String)
    (properties : JsValue .fields) :
    Replacer.accepts rejectMangled inArray (.object proto name properties) =
      !(decide (proto = .other) && properties.noProperties) := by
  cases h : decide (proto = .other) && properties.noProperties <;>
    simp [Replacer.accepts, rejectMangled, emptiesItselfOut, h, Except.isOk, Except.toBool]

theorem accepts_boxed (primitive : JsPrimitive) (name : Option String)
    (properties : JsValue .fields) :
    Replacer.accepts rejectMangled inArray (.boxed primitive name properties) =
      !(noIndices primitive && properties.noProperties) := by
  cases h : noIndices primitive && properties.noProperties <;>
    simp [Replacer.accepts, rejectMangled, emptiesItselfOut, h, Except.isOk, Except.toBool]

theorem accepts_view (name : Option String) (elements : List JsElement)
    (properties : JsValue .fields) :
    Replacer.accepts rejectMangled inArray (.view name elements properties) = false :=
  rfl

end Accepts

/-- What is not written is accepted outside of arrays. -/
theorem accepted_of_absent {v : JsValue .value} {called : Bool}
    (h : (v.document called).isAbsent = true) : v.accepted rejectMangled called false = true := by
  cases v with
  | undefined | function | symbol | null | bool | text | bigint | throwing => rfl
  | number n => cases n <;> cases h
  | array | object | view => cases h
  | boxed primitive name properties =>
      cases primitive with
      | number n => cases n <;> cases h
      | bool | text | bigint => cases h
  | withToJson raw result =>
      cases called with
      | true => exact accepted_of_absent (v := raw) h
      | false => exact accepted_of_absent (v := result) h

/-- A silent object is refused. -/
theorem rejected_of_silent {k : Kind} {v : JsValue k} {called inArray : Bool}
    (h : silent called v = true) : v.accepted rejectMangled called inArray = false := by
  induction v generalizing called inArray with
  | undefined | function | symbol | null | bool | number | text | bigint | throwing | noItems
  | noFields => cases h
  | withToJson raw result ihraw ihresult =>
      cases called with
      | true => exact ihraw h
      | false => exact ihresult h
  | boxed primitive name properties =>
      rw [silent, Bool.and_eq_true] at h
      have hindices : noIndices primitive = true := by
        cases primitive with
        | number | bool | bigint => rfl
        | text t => exact h.1
      rw [JsValue.accepted, accepts_boxed, hindices, h.2]
      rfl
  | view name elements properties =>
      rw [JsValue.accepted, accepts_view, Bool.false_and, Bool.false_and]
  | array items ih => rw [JsValue.accepted, ih h, Bool.and_false]
  | object proto name properties ih => rw [JsValue.accepted, ih h, Bool.and_false]
  | item value rest ihvalue ihrest =>
      rw [JsValue.accepted]
      rcases Bool.or_eq_true_iff.mp h with h | h
      · rw [ihvalue h, Bool.false_and]
      · rw [ihrest h, Bool.and_false]
  | field key value rest ihvalue ihrest =>
      rw [JsValue.accepted]
      rcases Bool.or_eq_true_iff.mp h with h | h
      · rw [ihvalue h, Bool.false_and]
      · rw [ihrest h, Bool.and_false]

theorem firstKey_of_noProperties {properties : JsValue .fields}
    (h : properties.noProperties = true) : (properties.document false).firstKey = none := by
  cases properties with
  | noFields => rfl
  | field => cases h

/-- Everything else that is refused leaves a trace. -/
theorem traced_of_rejected {k : Kind} {v : JsValue k} {called inArray : Bool}
    (hfails : (v.document called).fails = false)
    (hrejected : v.accepted rejectMangled called inArray = false)
    (hsilent : silent called v = false) : (v.document called).traced .minimal = true := by
  induction v generalizing called inArray with
  | undefined | function | symbol => rfl
  | null => rfl
  | bool | text | bigint | throwing | noItems | noFields => cases hrejected
  | number n =>
      cases n with
      | finite n => cases hrejected
      | nan | infinity | negInfinity => rfl
  | withToJson raw result ihraw ihresult =>
      cases called with
      | true => exact ihraw hfails hrejected hsilent
      | false => exact ihresult hfails hrejected hsilent
  | array items ih =>
      exact ih hfails hrejected hsilent
  | object proto name properties ih =>
      rw [JsValue.accepted, accepts_object, Bool.and_eq_false_iff] at hrejected
      rw [JsValue.document, Json.traced, Bool.or_eq_true]
      rcases hrejected with hself | hinside
      · rw [Bool.not_eq_false', Bool.and_eq_true] at hself
        exact Or.inl (by simp [firstKey_of_noProperties hself.2])
      · exact Or.inr (ih hfails hinside hsilent)
  | boxed primitive name properties =>
      rw [JsValue.accepted, accepts_boxed, Bool.not_eq_false', Bool.and_eq_true] at hrejected
      rw [silent, hrejected.2, Bool.and_true] at hsilent
      cases primitive with
      | number n =>
          cases n with
          | finite n => cases hsilent
          | nan | infinity | negInfinity => rfl
      | bool b => cases hsilent
      | text t =>
          have hempty : t.isEmpty = true := hrejected.1
          rw [show boxesSilently (.text t) = t.isEmpty from rfl, hempty] at hsilent
          cases hsilent
      | bigint => cases hfails
  | view name elements properties ih =>
      rw [JsValue.document, Json.traced, Bool.or_eq_true, decide_eq_true_eq]
      left
      cases elements with
      | nil =>
          rw [silent, List.isEmpty_nil, Bool.true_and] at hsilent
          exact Or.inl (Option.isSome_eq_false_iff.mp hsilent |> Option.isNone_iff_eq_none.mp)
      | cons e rest =>
          cases e with
          | bigint => cases hfails
          | number n =>
              right
              have hpresent : n.document.isAbsent = false := by cases n <;> rfl
              rw [elementFields, Json.firstKey, hpresent]
              rfl
  | item value rest ihvalue ihrest =>
      rw [JsValue.document, Json.fails, Bool.or_eq_false_iff] at hfails
      rw [silent, Bool.or_eq_false_iff] at hsilent
      rw [JsValue.accepted, Bool.and_eq_false_iff] at hrejected
      rw [JsValue.document, Json.traced, Bool.or_eq_true]
      rcases hrejected with hvalue | hrest
      · exact Or.inl (ihvalue hfails.1 hvalue hsilent.1)
      · exact Or.inr (ihrest hfails.2 hrest hsilent.2)
  | field key value rest ihvalue ihrest =>
      rw [JsValue.document, Json.fails, Bool.or_eq_false_iff] at hfails
      rw [silent, Bool.or_eq_false_iff] at hsilent
      rw [JsValue.accepted, Bool.and_eq_false_iff] at hrejected
      rw [JsValue.document, Json.traced]
      rcases hrejected with hvalue | hrest
      · have hpresent : ¬(value.document false).isAbsent = true := fun habsent => by
          rw [accepted_of_absent habsent] at hvalue
          cases hvalue
        rw [if_neg hpresent, ihvalue hfails.1 hvalue hsilent.1, Bool.or_true, Bool.true_or]
      · rw [ihrest hfails.2 hrest hsilent.2, Bool.or_true, ite_self]

/-! ## The fast path -/

section FastPath

variable {value : JsValue .value}

/-- Where a pass fails, all that is asked of `dumpJson` is that it throws its own error. -/
theorem dumpsStrictly_of_passFails (h : PassFails value) :
    DumpsStrictly value ↔ ∃ e, dumpJsValue value = .error (.own e) := by
  rw [DumpsStrictly, iff_true_right h]
  exact ⟨And.left, fun hthrown => ⟨hthrown, fun hnot => absurd h hnot⟩⟩

/-- Where the engine throws, so does `dumpJson`. -/
theorem dumpsStrictly_of_fails (h : (value.document false).fails = true) :
    DumpsStrictly value := by
  rcases @serialize_noReplacer_fails SerializationError _ _ false false h with ⟨m, hm⟩
  have hplain : stringify (noReplacer : Replacer SerializationError) value =
      .error (.engine m) := hm
  rw [dumpsStrictly_of_passFails (Or.inl ⟨_, hplain⟩), dumpJsValue, hplain]
  exact ⟨⟨m⟩, rfl⟩

/-- What the plain pass writes. -/
theorem stringify_plain (h : (value.document false).fails = false) :
    stringify (noReplacer : Replacer SerializationError) value =
      .ok (value.document false).written :=
  serialize_noReplacer h

/-- What is not written at all is refused. -/
theorem dumpsStrictly_of_absent (hfails : (value.document false).fails = false)
    (habsent : (value.document false).isAbsent = true) : DumpsStrictly value := by
  have hplain := stringify_plain hfails
  rw [Json.written, if_pos habsent] at hplain
  rw [dumpsStrictly_of_passFails (Or.inr (Or.inl hplain)), dumpJsValue, hplain]
  exact ⟨_, rfl⟩

/-- What the replacer accepts is returned, whether the strict pass runs or not. -/
theorem dumpsStrictly_of_accepted (hfails : (value.document false).fails = false)
    (hpresent : (value.document false).isAbsent = false)
    (haccepted : value.accepted rejectMangled false false = true) : DumpsStrictly value := by
  have hplain := stringify_plain hfails
  rw [Json.written, if_neg (Bool.eq_false_iff.mp hpresent)] at hplain
  have hstrict : stringify rejectMangled value =
      .ok (some ((value.document false).render .minimal)) := by
    rw [← hplain]
    exact serialize_of_accepted haccepted
  have hdump : dumpJsValue value = .ok ((value.document false).render .minimal) := by
    rw [dumpJsValue, hplain]
    simp only [hstrict, Except.map, ite_self]
  have hpasses : ¬PassFails value := by
    rw [PassFails, hplain, hstrict]
    simp
  refine ⟨iff_of_false ?_ hpasses, fun _ => ⟨_, hplain, hdump⟩⟩
  rw [hdump]
  simp

/-- What the replacer refuses is refused exactly when it leaves a trace. -/
theorem dumpsStrictly_iff_traced (hfails : (value.document false).fails = false)
    (hpresent : (value.document false).isAbsent = false)
    (hrejected : value.accepted rejectMangled false false = false) :
    DumpsStrictly value ↔ (value.document false).traced .minimal = true := by
  have hplain := stringify_plain hfails
  rw [Json.written, if_neg (Bool.eq_false_iff.mp hpresent)] at hplain
  rcases serialize_of_rejected hrejected hfails with ⟨e, he⟩
  have hstrict : stringify rejectMangled value = .error (.own e) := he
  have htrace : hasTrace ((value.document false).render .minimal) =
      (value.document false).traced .minimal := by
    rw [Bool.eq_iff_iff, hasTrace_iff]
    exact hasTrace_render_iff .minimal (value.document false)
  rw [dumpsStrictly_of_passFails (Or.inr (Or.inr ⟨_, hstrict⟩)), dumpJsValue, hplain, ← htrace]
  by_cases htraced : hasTrace ((value.document false).render .minimal) = true
  · simp only [hstrict, htraced, iff_true]
    exact ⟨e, rfl⟩
  · simp [htraced]

end FastPath

/-- `dumpJson` does what both passes together would do exactly when the engine throws, or no
silent object is reached, or something in the value leaves a trace. -/
theorem dumpsStrictly_iff (value : JsValue .value) :
    DumpsStrictly value ↔
      (value.document false).fails = true ∨ silent false value = false ∨
        (value.document false).traced .minimal = true := by
  cases hfails : (value.document false).fails with
  | true => exact iff_of_true (dumpsStrictly_of_fails hfails) (Or.inl rfl)
  | false =>
      rw [or_iff_right (by simp)]
      cases hpresent : (value.document false).isAbsent with
      | true =>
          exact iff_of_true (dumpsStrictly_of_absent hfails hpresent)
            (Or.inr (Json.traced_of_absent .minimal hpresent))
      | false =>
          cases haccepted : value.accepted rejectMangled false false with
          | true =>
              refine iff_of_true (dumpsStrictly_of_accepted hfails hpresent haccepted)
                (Or.inl (Bool.eq_false_iff.mpr fun hsilent => ?_))
              rw [rejected_of_silent hsilent] at haccepted
              cases haccepted
          | false =>
              rw [dumpsStrictly_iff_traced hfails hpresent haccepted]
              refine ⟨Or.inr, fun h => h.elim (fun hsilent => ?_) id⟩
              exact traced_of_rejected hfails haccepted hsilent

/-- An object that holds a boxed 5. -/
def boxedFive : JsValue .value :=
  .object .plain (some "Object")
    (.field (latin "a") (.boxed (.number (.finite (decimal 5))) (some "Number") .noFields)
      .noFields)

/-- It is written, though the strict pass refuses it. -/
theorem dumpsStrictly_fails_boxedFive : ¬DumpsStrictly boxedFive := by
  intro h
  have hplain : stringify (noReplacer : Replacer SerializationError) boxedFive =
      .ok (some (latin "\x7b\"a\":5\x7d")) := stringify_plain rfl
  have hdump : dumpJsValue boxedFive = .ok (latin "\x7b\"a\":5\x7d") := by
    rw [dumpJsValue, hplain]
    exact if_neg (by decide)
  have hstrict : ∃ e, stringify rejectMangled boxedFive = .error (.own e) :=
    serialize_of_rejected rfl rfl
  rcases hstrict with ⟨e, he⟩
  rcases h.1.mpr (Or.inr (Or.inr ⟨_, he⟩)) with ⟨e', he'⟩
  rw [hdump] at he'
  cases he'

/-! ## The encoder of failure records -/

/-- A document as a JavaScript value. -/
def ofJson : {k : Kind} → Json k → JsValue k
  | _, .null => .null
  | _, .bool b => .bool b
  | _, .number n => .number (.finite n)
  | _, .text t => .text t
  | _, .array items => .array (ofJson items)
  | _, .object fields => .object .plain (some "Object") (ofJson fields)
  | _, .notFinite => .number .nan
  | _, .hidden => .object .other (some "Map") .noFields
  | _, .failing => .bigint
  | _, .absent => .undefined
  | _, .noItems => .noItems
  | _, .item value rest => .item (ofJson value) (ofJson rest)
  | _, .noFields => .noFields
  | _, .field key value rest => .field key (ofJson value) (ofJson rest)

theorem isAbsent_ofJson (v : Json .value) :
    ((ofJson v).document false).isAbsent = v.isAbsent := by
  cases v <;> rfl

theorem render_ofJson {k : Kind} (v : Json k) :
    ((ofJson v).document false).render .minimal = v.render .minimal := by
  induction v with
  | array items ih | object items ih => simp only [ofJson, JsValue.document, Json.render, ih]
  | item value rest ihvalue ihrest =>
      simp only [ofJson, JsValue.document, Json.render, ihvalue, ihrest]
  | field key value rest ihvalue ihrest =>
      simp only [ofJson, JsValue.document, Json.render, isAbsent_ofJson, ihvalue, ihrest]
  | _ => rfl

theorem fails_ofJson {k : Kind} (v : Json k) : ((ofJson v).document false).fails = v.fails := by
  induction v with
  | array items ih | object items ih => exact ih
  | item value rest ihvalue ihrest | field key value rest ihvalue ihrest =>
      simp only [ofJson, JsValue.document, Json.fails, ihvalue, ihrest]
  | _ => rfl

/-- Two obstacles, one after the other. -/
theorem obstacle_or (a b : Bool) :
    ((if a then some Obstacle.refused else none).or (if b then some Obstacle.refused else none)) =
      if a || b then some Obstacle.refused else none := by
  cases a <;> rfl

/-- With a deep enough stack the plain pass stumbles over what fails. -/
theorem firstObstacle_plain {k : Kind} {v : Json k} {levels : Nat} (h : depth v ≤ levels) :
    firstObstacle .plain v levels = if v.fails then some .refused else none := by
  induction v generalizing levels with
  | array items ih | object items ih =>
      cases levels with
      | zero => simp [depth] at h
      | succ levels => exact ih (Nat.le_of_succ_le_succ h)
  | item value rest ihvalue ihrest =>
      rcases max_le_iff.mp h with ⟨hvalue, hrest⟩
      rw [firstObstacle, ihvalue hvalue, ihrest hrest, obstacle_or, Json.fails]
  | field key value rest ihvalue ihrest =>
      rcases max_le_iff.mp h with ⟨hvalue, hrest⟩
      rw [firstObstacle, ihvalue hvalue, ihrest hrest, obstacle_or, Json.fails]
      by_cases habsent : value.isAbsent = true
      · have hfails : value.fails = false := by cases value <;> first | rfl | cases habsent
        simp [habsent, hfails]
      · simp [habsent]
  | _ => rfl

/-- Whether the holder is an array matters only for what is not written. -/
theorem accepted_ofJson {v : Json .value} (h : v.isAbsent = false) :
    (ofJson v).accepted rejectMangled false false =
      (ofJson v).accepted rejectMangled false true := by
  cases v with
  | absent => cases h
  | _ => rfl

theorem accepted_ofJson_fields (fields : Json .fields) (inArray : Bool) :
    (ofJson fields).accepted rejectMangled false inArray =
      (ofJson fields).accepted rejectMangled false false := by
  cases fields <;> rfl

/-- The strict pass of Node refuses what fails or what the replacer refuses; a value that is not
written is refused where it cannot be left out. -/
theorem firstObstacle_strict {k : Kind} {v : Json k} {levels : Nat} (h : depth v ≤ levels) :
    firstObstacle .strict v levels =
      if v.fails || !(ofJson v).accepted rejectMangled false true then some .refused else none := by
  have hsplit : ∀ a b c d : Bool, ((a || !b) || (c || !d)) = ((a || c) || !(b && d)) := by decide
  induction v generalizing levels with
  | array items ih =>
      cases levels with
      | zero => simp [depth] at h
      | succ levels => exact ih (Nat.le_of_succ_le_succ h)
  | object fields ih =>
      cases levels with
      | zero => simp [depth] at h
      | succ levels =>
          have hfields := ih (Nat.le_of_succ_le_succ h)
          rw [accepted_ofJson_fields] at hfields
          exact hfields
  | item value rest ihvalue ihrest =>
      rcases max_le_iff.mp h with ⟨hvalue, hrest⟩
      rw [firstObstacle, ihvalue hvalue, ihrest hrest, obstacle_or, hsplit]
      rfl
  | field key value rest ihvalue ihrest =>
      rcases max_le_iff.mp h with ⟨hvalue, hrest⟩
      have haccepted : (ofJson (.field key value rest)).accepted rejectMangled false true =
          ((ofJson value).accepted rejectMangled false false &&
            (ofJson rest).accepted rejectMangled false false) := rfl
      rw [firstObstacle, ihrest hrest, accepted_ofJson_fields, haccepted]
      cases habsent : value.isAbsent with
      | true =>
          cases value with
          | absent => rfl
          | _ => cases habsent
      | false =>
          rw [if_neg (by simp), ihvalue hvalue, ← accepted_ofJson habsent, obstacle_or, hsplit]
          rfl
  | _ => rfl

/-- How the encoder ends, without the messages. -/
def outcome : Except (Thrown SerializationError) Text → Dumped
  | .ok t => .text t
  | .error (.own _) => .refused
  | .error (.engine _) => .raised

/-- On values without boxes and views, and with a stack that is deep enough, the encoder of failure
records ends as `dumpJson` does. -/
theorem dumpJson_ofJson {stack : EncoderStack} {v : Json .value} (hencode : depth v ≤ stack.encode)
    (hstrict : depth v ≤ stack.strict) :
    dumpJson .node stack v = outcome (dumpJsValue (ofJson v)) := by
  rw [dumpJson, firstObstacle_plain hencode]
  cases hfails : v.fails with
  | true =>
      rw [← fails_ofJson] at hfails
      rcases @serialize_noReplacer_fails SerializationError _ _ false false hfails with
        ⟨m, hm⟩
      have hplain : stringify (noReplacer : Replacer SerializationError) (ofJson v) =
          .error (.engine m) := hm
      rw [dumpJsValue, hplain]
      rfl
  | false =>
      have hjs : ((ofJson v).document false).fails = false := by rw [fails_ofJson, hfails]
      have hplain := stringify_plain hjs
      cases habsent : v.isAbsent with
      | true =>
          cases v with
          | absent => rfl
          | _ => cases habsent
      | false =>
          rw [Json.written, isAbsent_ofJson, habsent, if_neg Bool.false_ne_true, render_ofJson]
            at hplain
          rw [dumpJsValue, hplain, firstObstacle_strict hstrict, hfails, Bool.false_or,
            ← accepted_ofJson habsent]
          cases haccepted : (ofJson v).accepted rejectMangled false false with
          | true =>
              have hsecond : stringify rejectMangled (ofJson v) =
                  .ok (some (v.render .minimal)) := by
                rw [← hplain]
                exact serialize_of_accepted haccepted
              simp only [hsecond, Except.map]
              cases hasTrace (v.render .minimal) <;> rfl
          | false =>
              rcases serialize_of_rejected haccepted hjs with ⟨e, he⟩
              have hsecond : stringify rejectMangled (ofJson v) = .error (.own e) := he
              simp only [hsecond, Except.map]
              cases hasTrace (v.render .minimal) <;> rfl

end CairnQ
