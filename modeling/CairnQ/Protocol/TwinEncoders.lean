import CairnQ.Json.Styles
import CairnQ.Json.Traces
import CairnQ.Protocol.FailureRecord
import Mathlib.Data.Nat.Log

/-!
# The twin encoders

`dump_json` of the Python SDK and `dumpJson` of the TypeScript SDK on a value that both
languages have: null, booleans, integers that a double holds exactly, strings, arrays, and
objects in the order their keys were inserted, none of which is an array index.  Both leave
out white space, so the texts differ only in what is escaped: Python's encoder escapes
everything but printable ASCII, Node's leaves it as it is.

Main results:

- Theorem `encodeBasestringAscii_eq`: Python's encoder, which sees code points, writes what the
  ASCII style makes of their UTF-16.
- Theorem `TwinValue.parse_text`: whatever either encoder writes, either language reads back.
- Theorem `twinsAgree_iff`: they write the same text exactly when they write every string
  alike, and get through the nesting.
-/

namespace CairnQ

open Relational JsonText

/-! ## Python strings -/

/-- A code point; a Python string can hold surrogates. -/
abbrev CodePoint := Fin 0x110000

/-- The units of one code point in UTF-16. -/
def utf16Units (c : CodePoint) : Text :=
  if c.val < 0x10000 then [Fin.ofNat 65536 c.val]
  else [Fin.ofNat 65536 (0xD800 + (c.val - 0x10000) / 0x400),
    Fin.ofNat 65536 (0xDC00 + (c.val - 0x10000) % 0x400)]

/-- The units of a Python string. -/
def utf16 (s : List CodePoint) : Text :=
  s.flatMap utf16Units

/-- `ascii_escape_unichar`, and the characters it is not asked about. -/
def asciiEscapeUnichar (c : CodePoint) : Text :=
  if c.val < 0x10000 then EscapeStyle.ascii.unit (Fin.ofNat 65536 c.val)
  else hexEscape (Fin.ofNat 65536 (0xD800 + (c.val - 0x10000) / 0x400)) ++
    hexEscape (Fin.ofNat 65536 (0xDC00 + (c.val - 0x10000) % 0x400))

/-- `encode_basestring_ascii`. -/
def encodeBasestringAscii (s : List CodePoint) : Text :=
  quote :: s.flatMap asciiEscapeUnichar ++ [quote]

theorem asciiEscapeUnichar_eq (c : CodePoint) :
    asciiEscapeUnichar c = (utf16Units c).flatMap EscapeStyle.ascii.unit := by
  have hc : c.val < 0x110000 := c.isLt
  unfold asciiEscapeUnichar utf16Units
  split
  · simp
  · next hastral =>
    have hhigh : 126 < (Fin.ofNat 65536 (0xD800 + (c.val - 0x10000) / 0x400)).val := by
      rw [Fin.val_ofNat, Nat.mod_eq_of_lt (by omega)]
      omega
    have hlow : 126 < (Fin.ofNat 65536 (0xDC00 + (c.val - 0x10000) % 0x400)).val := by
      rw [Fin.val_ofNat, Nat.mod_eq_of_lt (by omega)]
      omega
    simp only [List.flatMap_cons, List.flatMap_nil, List.append_nil, unit_ascii_of_lt hhigh,
      unit_ascii_of_lt hlow]

/-- Python's encoder writes what the ASCII style makes of the units of a string. -/
theorem encodeBasestringAscii_eq (s : List CodePoint) :
    encodeBasestringAscii s = quoted .ascii (utf16 s) := by
  have hescape : s.flatMap asciiEscapeUnichar = escape .ascii (utf16 s) := by
    rw [escape_ascii_eq_flatMap, utf16, List.flatMap_assoc]
    exact List.flatMap_congr fun c _ => asciiEscapeUnichar_eq c
  rw [encodeBasestringAscii, hescape, quoted]

/-! ## Readers -/

/-- A natural number as a double: 53 significant bits, ties to even. -/
def nearestDouble (n : Nat) : Nat :=
  let unit := 2 ^ (n.log2 - 52)
  let q := n / unit
  let r := n % unit
  (if unit < 2 * r ∨ (2 * r = unit ∧ q % 2 = 1) then q + 1 else q) * unit

/-- An integer of a JSON text as the SDK's language keeps it. -/
def Sdk.integer : Sdk → Int → Int
  | .python, i => i
  | .node, i => if i < 0 then -(nearestDouble i.natAbs : Int) else nearestDouble i.natAbs

/-- The index that a key of an array is, if it is one: canonical, and below 2^32 - 1. -/
def arrayIndex (key : Text) : Option Nat :=
  match integerOf key with
  | some (.ofNat n) => if digits n = key ∧ n < 4294967295 then some n else none
  | _ => none

section Properties

variable {V : Type}

/-- Set one key: where it was, or at the end. -/
def assign (properties : List (Text × V)) (p : Text × V) : List (Text × V) :=
  match properties with
  | [] => [p]
  | q :: rest => if q.1 = p.1 then (q.1, p.2) :: rest else q :: assign rest p

/-- `OrdinaryOwnPropertyKeys`: an index goes before larger ones and before all other keys. -/
def goesBefore (key key' : Text) : Bool :=
  match arrayIndex key, arrayIndex key' with
  | none, some _ => false
  | some i, some j => decide (i ≤ j)
  | _, none => true

/-- One property at its place. -/
def place (p : Text × V) : List (Text × V) → List (Text × V)
  | [] => [p]
  | q :: rest => if goesBefore p.1 q.1 then p :: q :: rest else q :: place p rest

/-- The properties of an object in the order they are enumerated. -/
def enumerated (properties : List (Text × V)) : List (Text × V) :=
  properties.foldr place []

end Properties

/-- The fields of an object as an SDK's language keeps them. -/
def Sdk.properties (sdk : Sdk) (fields : List (Text × Json .value)) : List (Text × Json .value) :=
  match sdk with
  | .python => fields.foldl assign []
  | .node => enumerated (fields.foldl assign [])

/-- `json.loads` and `JSON.parse`. -/
def Sdk.reader (sdk : Sdk) : Reader where
  integer := sdk.integer
  object fields := Json.ofFieldList (sdk.properties fields.fieldList)

/-! ## Values of both languages -/

/-- A document whose integers a double holds exactly, and whose objects have every key once and
no index among them. -/
def Shared : {k : Kind} → Json k → Prop
  | _, .null | _, .bool _ | _, .text _ | _, .noItems | _, .noFields => True
  | _, .number n => ∃ i : Int, i.natAbs ≤ 2 ^ 53 - 1 ∧ n = decimal i
  | _, .array items => Shared items
  | _, .object fields =>
      (fields.fieldList.map Prod.fst).Nodup ∧
        (∀ p ∈ fields.fieldList, arrayIndex p.1 = none) ∧ Shared fields
  | _, .item value rest => Shared value ∧ Shared rest
  | _, .field _ value rest => Shared value ∧ Shared rest
  | _, .notFinite | _, .hidden | _, .failing | _, .absent => False

/-- A value that both languages have. -/
structure TwinValue where
  document : Json .value
  shared : Shared document

theorem Shared.isAbsent {v : Json .value} (h : Shared v) : v.isAbsent = false := by
  cases v with
  | absent => exact absurd h fun h => h
  | _ => rfl

/-! ### Reading -/

theorem nearestDouble_of_le {n : Nat} (h : n ≤ 2 ^ 53 - 1) : nearestDouble n = n := by
  have hlog : n.log2 - 52 = 0 := by
    by_cases hn : n = 0
    · simp [hn]
    · have hlt : n.log2 < 53 := (Nat.log2_lt hn).mpr (by omega)
      omega
  simp [nearestDouble, hlog, Nat.mod_one]

theorem Sdk.integer_of_le (sdk : Sdk) {i : Int} (h : i.natAbs ≤ 2 ^ 53 - 1) :
    sdk.integer i = i := by
  cases sdk with
  | python => rfl
  | node =>
      simp only [Sdk.integer, nearestDouble_of_le h]
      split <;> omega

theorem number_decimal (sdk : Sdk) {i : Int} (h : i.natAbs ≤ 2 ^ 53 - 1) :
    sdk.reader.number (decimal i) = decimal i := by
  have hinteger : integerOf (decimal i).text = some i := integerOf_decimal i
  have hkept : sdk.reader.integer i = i := sdk.integer_of_le h
  simp only [Reader.number, hinteger, hkept]

section Properties

variable {V : Type}

/-- A new key goes to the end. -/
theorem assign_of_not_mem {properties : List (Text × V)} {p : Text × V}
    (h : p.1 ∉ properties.map Prod.fst) : assign properties p = properties ++ [p] := by
  induction properties with
  | nil => rfl
  | cons q rest ih =>
      rw [List.map_cons, List.mem_cons, not_or] at h
      rw [assign, if_neg (Ne.symm h.1), ih h.2, List.cons_append]

/-- Keys that occur once stay in their order. -/
theorem foldl_assign_of_nodup {acc fields : List (Text × V)}
    (h : ((acc ++ fields).map Prod.fst).Nodup) : fields.foldl assign acc = acc ++ fields := by
  induction fields generalizing acc with
  | nil => simp
  | cons p rest ih =>
      have hnew : p.1 ∉ acc.map Prod.fst := by
        rw [List.map_append, List.map_cons] at h
        exact fun hmem => List.disjoint_of_nodup_append h hmem List.mem_cons_self
      rw [List.foldl_cons, assign_of_not_mem hnew, ih (by simpa using h), List.append_assoc,
        List.singleton_append]

/-- Without indices the order of insertion is kept. -/
theorem enumerated_of_noIndex {properties : List (Text × V)}
    (h : ∀ p ∈ properties, arrayIndex p.1 = none) : enumerated properties = properties := by
  induction properties with
  | nil => rfl
  | cons p rest ih =>
      have hrest : enumerated rest = rest := ih fun q hq => h q (List.mem_cons_of_mem p hq)
      have hplace : enumerated (p :: rest) = place p rest := by
        rw [enumerated, List.foldr_cons, ← enumerated, hrest]
      rw [hplace]
      cases rest with
      | nil => rfl
      | cons q rest =>
          have hnone : arrayIndex q.1 = none := h q (by simp)
          rw [place, if_pos (by simp [goesBefore, hnone])]

end Properties

theorem object_of_shared (sdk : Sdk) {fields : Json .fields}
    (hnodup : (fields.fieldList.map Prod.fst).Nodup)
    (hindex : ∀ p ∈ fields.fieldList, arrayIndex p.1 = none) :
    sdk.reader.object fields = fields := by
  have hassign : fields.fieldList.foldl assign [] = fields.fieldList :=
    @foldl_assign_of_nodup _ [] _ hnodup
  have hkept : sdk.properties fields.fieldList = fields.fieldList := by
    cases sdk with
    | python => exact hassign
    | node => rw [Sdk.properties, hassign, enumerated_of_noIndex hindex]
  show Json.ofFieldList (sdk.properties fields.fieldList) = fields
  rw [hkept, Json.ofFieldList_fieldList]

/-- Either language keeps such a value as it is. -/
theorem Shared.kept (sdk : Sdk) {k : Kind} {v : Json k} (h : Shared v) : v.Kept sdk.reader := by
  induction v with
  | null | bool | text | noItems | noFields => trivial
  | number n =>
      rcases h with ⟨i, hi, rfl⟩
      exact number_decimal sdk hi
  | array items ih => exact ih h
  | object fields ih => exact ⟨object_of_shared sdk h.1 h.2.1, ih h.2.2⟩
  | notFinite | hidden | failing | absent => exact absurd h fun h => h
  | item value rest ihvalue ihrest => exact ⟨ihvalue h.1, ihrest h.2⟩
  | field key value rest ihvalue ihrest => exact ⟨ihvalue h.1, ihrest h.2⟩

/-- Whatever either encoder writes, either language reads back. -/
theorem TwinValue.parse_text (v : TwinValue) (style : EscapeStyle) (sdk : Sdk) :
    parse sdk.reader (v.document.render style) = some v.document :=
  parse_render (v.shared.kept sdk)

/-! ### Writing -/

/-- Nothing but the nesting stops an encoder. -/
theorem firstObstacle_of_shared (pass : EncoderPass) {k : Kind} {v : Json k} (h : Shared v)
    (levels : Nat) :
    firstObstacle pass v levels = if depth v ≤ levels then none else some .tooDeep := by
  induction v generalizing levels with
  | null | bool | number | text | noItems | noFields => simp [firstObstacle, depth]
  | array items ih =>
      cases levels with
      | zero => simp [firstObstacle, depth]
      | succ levels => simpa [firstObstacle, depth] using ih h levels
  | object fields ih =>
      cases levels with
      | zero => simp [firstObstacle, depth]
      | succ levels => simpa [firstObstacle, depth] using ih h.2.2 levels
  | notFinite | hidden | failing | absent => exact absurd h fun h => h
  | item value rest ihvalue ihrest =>
      simp only [firstObstacle, depth, ihvalue h.1, ihrest h.2, max_le_iff]
      by_cases hvalue : depth value ≤ levels <;> by_cases hrest : depth rest ≤ levels <;>
        simp [hvalue, hrest]
  | field key value rest ihvalue ihrest =>
      have hpresent : ¬(value.isAbsent = true ∧ pass ≠ .python) := by
        simp [h.1.isAbsent]
      simp only [firstObstacle, if_neg hpresent, depth, ihvalue h.1, ihrest h.2, max_le_iff]
      by_cases hvalue : depth value ≤ levels <;> by_cases hrest : depth rest ≤ levels <;>
        simp [hvalue, hrest]

section Writing

variable (v : TwinValue) (stack : EncoderStack)

theorem TwinValue.dumpJson_python :
    dumpJson .python stack v.document =
      if depth v.document ≤ stack.encode then .text (v.document.render .ascii) else .raised := by
  by_cases hencode : depth v.document ≤ stack.encode
  · simp only [dumpJson, firstObstacle_of_shared .python v.shared, if_pos hencode]
  · simp only [dumpJson, firstObstacle_of_shared .python v.shared, if_neg hencode]

/-- The strict pass runs only when the text has a trace, and then has to get through as well. -/
theorem TwinValue.dumpJson_node_iff (t : Text) :
    dumpJson .node stack v.document = .text t ↔
      t = v.document.render .minimal ∧ depth v.document ≤ stack.encode ∧
        (v.document.traced .minimal = true → depth v.document ≤ stack.strict) := by
  have htrace : hasTrace (v.document.render .minimal) = v.document.traced .minimal := by
    rw [Bool.eq_iff_iff, hasTrace_iff]
    exact hasTrace_render_iff .minimal v.document
  simp only [dumpJson, firstObstacle_of_shared _ v.shared, htrace]
  by_cases hencode : depth v.document ≤ stack.encode
  · cases htraced : v.document.traced .minimal with
    | false => simp [hencode, eq_comm]
    | true =>
        by_cases hstrict : depth v.document ≤ stack.strict
        · simp [hencode, hstrict, eq_comm]
        · simp [hencode, hstrict]
  · simp [hencode]

end Writing

/-- The encoders write one text, and it reads back to the value in either language. -/
def TwinsAgree (python node : EncoderStack) (v : TwinValue) : Prop :=
  ∃ t, dumpJson .python python v.document = .text t ∧ dumpJson .node node v.document = .text t ∧
    ∀ sdk : Sdk, parse sdk.reader t = some v.document

/-- The encoders agree on a value exactly when both styles write every string and key of it
alike, that is when it has neither DEL nor a character beyond ASCII, and it nests no deeper than
their passes can. -/
theorem twinsAgree_iff (python node : EncoderStack) (v : TwinValue) :
    TwinsAgree python node v ↔
      (∀ s ∈ v.document.strings, alike s = true) ∧
        depth v.document ≤ python.encode ∧ depth v.document ≤ node.encode ∧
        (v.document.traced .minimal = true → depth v.document ≤ node.strict) := by
  rw [← render_eq_iff]
  constructor
  · rintro ⟨t, hpython, hnode, -⟩
    rw [v.dumpJson_node_iff] at hnode
    rw [v.dumpJson_python] at hpython
    split at hpython
    · next hdepth => exact ⟨hnode.1 ▸ (Dumped.text.inj hpython).symm, hdepth, hnode.2⟩
    · cases hpython
  · rintro ⟨hsame, hpython, hnode⟩
    refine ⟨v.document.render .minimal, ?_, (v.dumpJson_node_iff node _).mpr ⟨rfl, hnode⟩,
      v.parse_text .minimal⟩
    rw [v.dumpJson_python, if_pos hpython, hsame]

/-- A string of one letter that ASCII does not have. -/
def accented : TwinValue where
  document := .text [0xE9]
  shared := trivial

/-- Python escapes it, Node does not. -/
theorem twins_differ_accented : ¬TwinsAgree ⟨1000, 1000⟩ ⟨1000, 1000⟩ accented := by
  rintro ⟨t, hpython, hnode, -⟩
  have hp : dumpJson .python ⟨1000, 1000⟩ accented.document =
      .text (latin "\"\\u00e9\"") := by decide
  have hn : dumpJson .node ⟨1000, 1000⟩ accented.document = .text [34, 0xE9, 34] := by decide
  rw [hp] at hpython
  rw [hn, ← Dumped.text.inj hpython] at hnode
  exact absurd hnode (by decide)

end CairnQ
