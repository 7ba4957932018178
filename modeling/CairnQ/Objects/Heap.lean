import Mathlib.Data.List.Basic

/-!
# Objects with prototypes

JavaScript objects as dictionaries: own properties, a prototype, and the accessor
{lit}`__proto__` that {lit}`Object.prototype` has.  A read of a name that an object does not
have falls through to what it inherits from; a write goes to the object itself, unless it
meets the accessor, which replaces the prototype instead.

The order of own properties is the order of their creation; no result depends on it.

Main results:

- Theorem `getElem?_set`: a write changes the object it is made to and no other.
- Theorem `find_literal`: what a read of an object literal meets.
- Theorem `nullish_get_iff`: a name that an object does not have reads as nothing exactly if
  nothing is inherited under it.
-/

namespace JsHeap

/-! ## Values and objects -/

/-- Where an object is. -/
abbrev Address := Nat

/-- A value, as far as dictionaries of numbers and objects go. -/
inductive JsDatum
  | undefined
  | null
  | number (n : Int)
  | ref (a : Address)
deriving DecidableEq, Repr

/-- The values that {lit}`??` passes over. -/
def JsDatum.nullish : JsDatum → Bool
  | .undefined | .null => true
  | .number _ | .ref _ => false

/-- A property: a value, or the accessor that reads and replaces the prototype. -/
inductive Slot
  | data (v : JsDatum)
  | protoAccessor
deriving DecidableEq, Repr

/-- An object. -/
structure JsObject where
  proto : Option Address
  slots : List (String × Slot)
deriving DecidableEq, Repr

/-- The objects there are, by their addresses. -/
abbrev Heap := List JsObject

/-- {lit}`Object.prototype`. -/
def objectPrototype : Address := 0

/-- What an object literal makes. -/
def literal (slots : List (String × Slot)) : JsObject where
  proto := some objectPrototype
  slots := slots

/-! ## Reads -/

/-- The own property of that name. -/
def own (h : Heap) (a : Address) (name : String) : Option Slot :=
  h[a]?.bind fun o => o.slots.lookup name

/-- What an object inherits from. -/
def protoOf (h : Heap) (a : Address) : Option Address :=
  h[a]?.bind JsObject.proto

/-- The first property of that name along the prototypes. -/
def find (h : Heap) : Nat → Address → String → Option Slot
  | 0, _, _ => none
  | fuel + 1, a, name => (own h a name).or ((protoOf h a).bind fun p => find h fuel p name)

/-- {lit}`o[name]`. -/
def get (h : Heap) (a : Address) (name : String) : JsDatum :=
  match find h h.length a name with
  | some (.data v) => v
  | some .protoAccessor => (protoOf h a).elim .null .ref
  | none => .undefined

/-- What a read of that name meets beyond the object's own properties. -/
def inherited (h : Heap) (a : Address) (name : String) : Option Slot :=
  (protoOf h a).bind fun p => find h (h.length - 1) p name

/-- Nothing is met, or a value that {lit}`??` passes over. -/
def Vacant (met : Option Slot) : Prop :=
  ∀ slot ∈ met, ∃ v, slot = .data v ∧ v.nullish = true

/-! ## Writes -/

/-- Change one object. -/
def update (h : Heap) (a : Address) (f : JsObject → JsObject) : Heap :=
  match h[a]? with
  | some o => h.set a (f o)
  | none => h

/-- Replace the value of a property, or add it. -/
def setSlot (slots : List (String × Slot)) (name : String) (v : JsDatum) : List (String × Slot) :=
  match slots with
  | [] => [(name, .data v)]
  | s :: rest => if s.1 = name then (name, .data v) :: rest else s :: setSlot rest name v

/-- Following the prototypes from one object leads to another. -/
def inherits (h : Heap) : Nat → Address → Address → Bool
  | 0, _, _ => false
  | fuel + 1, a, b => decide (a = b) || (protoOf h a).any fun p => inherits h fuel p b

/-- The setter of {lit}`__proto__`: a value that is no object and not null is ignored, a cycle is
refused, and so is a change of what {lit}`Object.prototype` inherits from. -/
def setProto (h : Heap) (a : Address) (v : JsDatum) : Option Heap :=
  match v with
  | .undefined | .number _ => some h
  | .null =>
      if a = objectPrototype then (if protoOf h a = none then some h else none)
      else some (update h a fun o => { o with proto := none })
  | .ref b =>
      if a = objectPrototype then (if protoOf h a = some b then some h else none)
      else if inherits h h.length b a then none
      else some (update h a fun o => { o with proto := some b })

/-- {lit}`o[name] = v`; none is an error. -/
def set (h : Heap) (a : Address) (name : String) (v : JsDatum) : Option Heap :=
  match find h h.length a name with
  | some .protoAccessor => setProto h a v
  | _ => some (update h a fun o => { o with slots := setSlot o.slots name v })

/-! ## What a read meets -/

section Reads

variable {h : Heap} {a : Address} {name : String}

/-- A read meets the object's own property first. -/
theorem find_eq_own_or {o : JsObject} (ho : h[a]? = some o) (name : String) :
    find h h.length a name = (own h a name).or (inherited h a name) := by
  have hpos : h.length ≠ 0 :=
    Nat.ne_zero_of_lt (List.getElem?_eq_some_iff.mp ho).1
  rcases Nat.exists_eq_succ_of_ne_zero hpos with ⟨n, hn⟩
  rw [inherited, hn, find, Nat.succ_sub_one]

/-- A read of an own value. -/
theorem get_of_own {o : JsObject} (ho : h[a]? = some o) {v : JsDatum}
    (hown : own h a name = some (.data v)) : get h a name = v := by
  rw [get, find_eq_own_or ho, hown, Option.some_or]

/-- A read of a name the object does not have counts as nothing exactly if nothing is inherited
under it. -/
theorem nullish_get_iff {o : JsObject} (ho : h[a]? = some o) (hown : own h a name = none) :
    (get h a name).nullish = true ↔ Vacant (inherited h a name) := by
  rw [get, find_eq_own_or ho, hown, Option.none_or]
  cases hmet : inherited h a name with
  | none => simp [Vacant, JsDatum.nullish]
  | some slot =>
      cases slot with
      | data v => simp [Vacant]
      | protoAccessor =>
          have hproto : ∃ p, protoOf h a = some p := by
            rw [inherited, Option.bind_eq_some_iff] at hmet
            rcases hmet with ⟨p, hp, -⟩
            exact ⟨p, hp⟩
          rcases hproto with ⟨p, hp⟩
          simp [Vacant, hp, JsDatum.nullish]

end Reads

/-! ## What a write changes -/

@[simp]
theorem length_update (h : Heap) (a : Address) (f : JsObject → JsObject) :
    (update h a f).length = h.length := by
  unfold update
  split <;> simp

theorem getElem?_update_of_ne {h : Heap} {a b : Address} (hne : b ≠ a) (f : JsObject → JsObject) :
    (update h a f)[b]? = h[b]? := by
  unfold update
  split
  · rw [List.getElem?_set_ne (Ne.symm hne)]
  · rfl

theorem getElem?_update_self (h : Heap) (a : Address) (f : JsObject → JsObject) :
    (update h a f)[a]? = h[a]?.map f := by
  unfold update
  cases ho : h[a]? with
  | none => simp [ho]
  | some o =>
      have ha : a < h.length := (List.getElem?_eq_some_iff.mp ho).1
      simp [ha]

theorem setProto_eq {h h' : Heap} {a : Address} {v : JsDatum} (hset : setProto h a v = some h') :
    h' = h ∨ ∃ f, h' = update h a f := by
  cases v with
  | undefined | number => exact Or.inl (Option.some.inj hset).symm
  | null =>
      simp only [setProto] at hset
      split_ifs at hset
      · exact Or.inl (Option.some.inj hset).symm
      · exact Or.inr ⟨_, (Option.some.inj hset).symm⟩
  | ref b =>
      simp only [setProto] at hset
      split_ifs at hset
      · exact Or.inl (Option.some.inj hset).symm
      · exact Or.inr ⟨_, (Option.some.inj hset).symm⟩

theorem set_eq {h h' : Heap} {a : Address} {name : String} {v : JsDatum}
    (hset : set h a name v = some h') : h' = h ∨ ∃ f, h' = update h a f := by
  unfold set at hset
  split at hset
  · exact setProto_eq hset
  · exact Or.inr ⟨_, (Option.some.inj hset).symm⟩

/-- A write changes the object it is made to and no other. -/
theorem getElem?_set {h h' : Heap} {a b : Address} {name : String} {v : JsDatum}
    (hset : set h a name v = some h') (hne : b ≠ a) : h'[b]? = h[b]? := by
  rcases set_eq hset with rfl | ⟨f, rfl⟩
  · rfl
  · exact getElem?_update_of_ne hne f

/-- A write of an ordinary property. -/
theorem set_of_not_accessor {h : Heap} {a : Address} {name : String} (v : JsDatum)
    (hfind : find h h.length a name ≠ some .protoAccessor) :
    set h a name v = some (update h a fun o => { o with slots := setSlot o.slots name v }) := by
  unfold set
  split
  · next hfound => exact absurd hfound hfind
  · rfl

theorem lookup_cons_ite {β : Type} (s : String × β) (rest : List (String × β)) (name : String) :
    (s :: rest).lookup name = if name = s.1 then some s.2 else rest.lookup name := by
  rw [List.lookup_cons]
  by_cases hname : name = s.1
  · rw [if_pos hname, beq_iff_eq.mpr hname]
  · rw [if_neg hname, beq_eq_false_iff_ne.mpr hname]

theorem lookup_setSlot (slots : List (String × Slot)) (name name' : String) (v : JsDatum) :
    (setSlot slots name v).lookup name' =
      if name' = name then some (.data v) else slots.lookup name' := by
  induction slots with
  | nil => rw [setSlot, lookup_cons_ite]
  | cons s rest ih =>
      rw [setSlot]
      by_cases hs : s.1 = name
      · rw [if_pos hs, lookup_cons_ite, lookup_cons_ite, hs]
        by_cases hname : name' = name <;> simp [hname]
      · rw [if_neg hs, lookup_cons_ite, lookup_cons_ite, ih]
        by_cases hname : name' = name
        · rw [if_neg fun h => hs (h.symm.trans hname), if_pos hname, if_pos hname]
        · rw [if_neg hname, if_neg hname]

/-! ## Literals -/

/-- What a read of {lit}`Object.prototype` meets. -/
theorem find_objectPrototype {h : Heap} {root : JsObject}
    (hroot : h[objectPrototype]? = some root) (hproto : root.proto = none) (name : String) :
    find h h.length objectPrototype name = root.slots.lookup name := by
  have hpos : 0 < h.length := (List.getElem?_eq_some_iff.mp hroot).1
  rcases Nat.exists_eq_succ_of_ne_zero (Nat.pos_iff_ne_zero.mp hpos) with ⟨n, hn⟩
  rw [hn]
  simp [find, own, protoOf, hroot, hproto]

section Literals

variable {h : Heap} {root o : JsObject} {a : Address}

/-- What a read of an object literal meets: its own property, or that of {lit}`Object.prototype`. -/
theorem find_literal (hroot : h[objectPrototype]? = some root) (hproto : root.proto = none)
    (ho : h[a]? = some o) (hliteral : o.proto = some objectPrototype) (ha : a ≠ objectPrototype)
    (name : String) :
    find h h.length a name = (o.slots.lookup name).or (root.slots.lookup name) := by
  have hlength : ∃ n, h.length = n + 2 := by
    have ha' : a < h.length := (List.getElem?_eq_some_iff.mp ho).1
    have htwo : 1 < h.length := Nat.lt_of_le_of_lt (Nat.pos_of_ne_zero ha) ha'
    exact ⟨h.length - 2, by omega⟩
  rcases hlength with ⟨n, hn⟩
  rw [hn]
  simp [find, own, protoOf, ho, hliteral, hroot, hproto]

end Literals

end JsHeap
