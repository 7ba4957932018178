import CairnQ.Objects.Heap
import CairnQ.Protocol.Dialects
import Mathlib.Logic.Function.Basic

/-!
# The record of stats

`stats` of the TypeScript SDK: the counts of {name}`stats` put into an object whose keys are
queues and whose values are objects that count by status.  The object is an ordinary one, so
reading a queue it does not have yet falls through to `Object.prototype`.

While no queue meets anything there, the objects on the heap are a table: the record, and one
object for each queue in the order of their first rows.

Main results:

- Theorem `statsRow_table`: a row of a queue that meets nothing goes into the table.
- Theorem `statsExact_iff`: the record has exactly the queues and the counts it is to have if
  and only if the queue asked for is not `__proto__`, or without one, no queue that has rows
  meets anything.
-/

namespace CairnQ

open Relational JsHeap

variable {J : Type}

/-! ## The code -/

/-- The objects of a program before `stats` is called: `Object.prototype` inherits from nothing,
has the accessor `__proto__`, and refers to no object that does not exist. -/
structure Realm where
  heap : Heap
  root : JsObject
  root_mem : heap[objectPrototype]? = some root
  root_proto : root.proto = none
  accessor : ∀ name, root.slots.lookup name = some .protoAccessor ↔ name = "__proto__"
  closed : ∀ name a, root.slots.lookup name = some (.data (.ref a)) → a < heap.length

/-- `STATUSES`. -/
def statuses : List TaskStatus :=
  [.queued, .running, .succeeded, .failed, .canceled]

/-- The object that counts by status. -/
def countsObject (counts : TaskStatus → Nat) : JsObject :=
  literal (statuses.map fun s => (s.text, .data (.number (counts s))))

/-- `zeros()`. -/
def zeros : JsObject :=
  countsObject fun _ => 0

/-- `target[name] = v` on any value; a property of a number is a `TypeError`. -/
def putMember (h : Heap) (target : JsDatum) (name : String) (v : JsDatum) : Option Heap :=
  match target with
  | .ref a => set h a name v
  | .undefined | .null | .number _ => none

/-- `out[queue] = zeros()`. -/
def seedQueue (out : Address) (h : Heap) (queue : String) : Option (Heap × JsDatum) :=
  (set (h ++ [zeros]) out queue (.ref h.length)).map fun h' => (h', .ref h.length)

/-- `out[queue] ??= zeros()`. -/
def entryOf (out : Address) (h : Heap) (queue : String) : Option (Heap × JsDatum) :=
  if (get h out queue).nullish then seedQueue out h queue else some (h, get h out queue)

/-- The body of the loop over the rows. -/
def statsRow (out : Address) (h : Heap) (row : String × TaskStatus × Nat) : Option Heap :=
  (entryOf out h row.1).bind fun entry =>
    putMember entry.1 entry.2 row.2.1.text (.number row.2.2)

/-- `stats` on what the statement returns: the objects afterwards and the record. -/
def statsRecord (queue : Option String) (rows : List (String × TaskStatus × Nat)) (h : Heap) :
    Option (Heap × Address) :=
  let out := h.length
  let start := h ++ [literal []]
  (match queue with
    | none => some start
    | some q => (seedQueue out start q).map Prod.fst).bind fun seeded =>
      (rows.foldlM (statsRow out) seeded).map fun h' => (h', out)

/-! ## What is asked of it -/

/-- The rows that are counted. -/
def countedRows (queue : Option String) (db : Database J) : List (Task J) :=
  db.tasks.rows.filter fun t => queue.all fun q => decide (t.queue = q)

/-- The tasks of a queue in a status. -/
def countOf (queue : Option String) (db : Database J) (q : String) (s : TaskStatus) : Nat :=
  (countedRows queue db).countP fun t => decide ((t.queue, t.status) = (q, s))

/-- The queue has rows, or it is asked for. -/
def Listed (queue : Option String) (db : Database J) (q : String) : Prop :=
  (∃ t ∈ countedRows queue db, t.queue = q) ∨ queue = some q

/-- `stats` returns an object whose own properties are the queues that have rows, and the one
asked for, each an object with the count of every status; no other object changes. -/
def StatsExact (realm : Realm) (queue : Option String) (db : Database J) : Prop :=
  ∃ h out, statsRecord queue (stats queue db) realm.heap = some (h, out) ∧
    (∀ a < realm.heap.length, h[a]? = realm.heap[a]?) ∧
    ∀ q, (Listed queue db q → ∃ z, own h out q = some (.data (.ref z)) ∧
        h[z]? = some (countsObject (countOf queue db q))) ∧
      (¬Listed queue db q → own h out q = none)

/-- Under the name `Object.prototype` has nothing, or a value that counts as nothing. -/
def Realm.Free (realm : Realm) (name : String) : Prop :=
  Vacant (realm.root.slots.lookup name)

/-! ## Tables -/

/-- Counts by status, for queues in the order they were first seen. -/
abbrev Tally := List (String × (TaskStatus → Nat))

/-- The properties of the record: each queue refers to the next object. -/
def entrySlots : Address → Tally → List (String × Slot)
  | _, [] => []
  | z, e :: rest => (e.1, .data (.ref z)) :: entrySlots (z + 1) rest

/-- The objects there were, the record, and those made after it. -/
def withRecord (h : Heap) (slots : List (String × Slot)) (made : Heap) : Heap :=
  h ++ literal slots :: made

/-- The objects there were, the record, and one object for each queue. -/
def table (h : Heap) (tally : Tally) : Heap :=
  withRecord h (entrySlots (h.length + 1) tally) (tally.map fun e => countsObject e.2)

/-- Where the queue is in the tally. -/
def position (tally : Tally) (q : String) : Nat :=
  (tally.map Prod.fst).idxOf q

/-- A queue that is not there yet is added. -/
def ensure (tally : Tally) (q : String) : Tally :=
  if q ∈ tally.map Prod.fst then tally else tally ++ [(q, fun _ => 0)]

/-- Set one count of a queue. -/
def record (tally : Tally) (q : String) (s : TaskStatus) (n : Nat) : Tally :=
  tally.modify (position tally q) fun e => (e.1, Function.update e.2 s n)

/-- What a row does. -/
def tallyRow (tally : Tally) (row : String × TaskStatus × Nat) : Tally :=
  record (ensure tally row.1) row.1 row.2.1 row.2.2

theorem entrySlots_concat (z : Address) (tally : Tally) (e : String × (TaskStatus → Nat)) :
    entrySlots z (tally ++ [e]) =
      entrySlots z tally ++ [(e.1, .data (.ref (z + tally.length)))] := by
  induction tally generalizing z with
  | nil => rfl
  | cons e' rest ih =>
      rw [List.cons_append, entrySlots, entrySlots, ih, List.cons_append, List.length_cons,
        Nat.add_right_comm, Nat.add_assoc]

theorem lookup_entrySlots (z : Address) (tally : Tally) (q : String) :
    (entrySlots z tally).lookup q =
      if q ∈ tally.map Prod.fst then some (.data (.ref (z + position tally q))) else none := by
  induction tally generalizing z with
  | nil => rfl
  | cons e rest ih =>
      rw [entrySlots, lookup_cons_ite, ih, List.map_cons]
      by_cases hq : q = e.1
      · simp [hq, position]
      · have hne : e.1 ≠ q := Ne.symm hq
        simp only [List.mem_cons, hq, false_or, position, List.map_cons,
          List.idxOf_cons_ne _ hne]
        simp [Nat.add_assoc, Nat.add_comm]

/-- The properties depend on the queues only. -/
theorem entrySlots_modify (z : Address) (tally : Tally) (i : Nat)
    (f : (TaskStatus → Nat) → TaskStatus → Nat) :
    entrySlots z (tally.modify i fun e => (e.1, f e.2)) = entrySlots z tally := by
  induction tally generalizing z i with
  | nil => simp
  | cons e rest ih =>
      cases i with
      | zero => simp [entrySlots]
      | succ i => simp [entrySlots, ih]

section Table

variable {h : Heap} {tally : Tally}

theorem getElem?_withRecord (slots : List (String × Slot)) (made : Heap) :
    (withRecord h slots made)[h.length]? = some (literal slots) := by
  simp [withRecord]

theorem getElem?_withRecord_of_lt {a : Address} (ha : a < h.length) (slots : List (String × Slot))
    (made : Heap) : (withRecord h slots made)[a]? = h[a]? := by
  rw [withRecord, List.getElem?_append_left ha]

theorem getElem?_table_entry (i : Nat) : (table h tally)[h.length + 1 + i]? =
    tally[i]?.map fun e => countsObject e.2 := by
  rw [table, withRecord, List.getElem?_append_right (by omega), Nat.add_assoc,
    Nat.add_sub_cancel_left, Nat.add_comm 1 i, List.getElem?_cons_succ, List.getElem?_map]

theorem length_table : (table h tally).length = h.length + 1 + tally.length := by
  simp only [table, withRecord, List.length_append, List.length_cons, List.length_map]
  omega

theorem position_lt {q : String} (hq : q ∈ tally.map Prod.fst) :
    position tally q < tally.length := by
  have hlt := List.idxOf_lt_length_of_mem hq
  rwa [List.length_map] at hlt

/-- A change of the record. -/
theorem update_withRecord (slots : List (String × Slot)) (made : Heap)
    (f : JsObject → JsObject) :
    update (withRecord h slots made) h.length f = h ++ f (literal slots) :: made := by
  rw [update, getElem?_withRecord]
  simp [withRecord]

/-- A change of the object of one queue. -/
theorem update_table_entry {i : Nat} {e : String × (TaskStatus → Nat)} (he : tally[i]? = some e)
    {f : JsObject → JsObject} {g : (TaskStatus → Nat) → TaskStatus → Nat}
    (hf : f (countsObject e.2) = countsObject (g e.2)) :
    update (table h tally) (h.length + 1 + i) f =
      table h (tally.modify i fun e => (e.1, g e.2)) := by
  have hi : i < tally.length := (List.getElem?_eq_some_iff.mp he).1
  have hmap : (tally.map fun e => countsObject e.2).set i (countsObject (g e.2)) =
      (tally.modify i fun e => (e.1, g e.2)).map fun e => countsObject e.2 := by
    refine List.ext_getElem? fun j => ?_
    rw [List.getElem?_map, List.getElem?_modify, List.getElem?_set, List.getElem?_map]
    by_cases hj : i = j
    · subst hj
      rw [if_pos rfl, if_pos (by rwa [List.length_map]), he]
      simp
    · simp [hj]
  rw [update, getElem?_table_entry, he, Option.map_some]
  show (table h tally).set (h.length + 1 + i) (f (countsObject e.2)) = _
  rw [hf, table, withRecord, List.set_append_right _ _ (by omega), Nat.add_assoc,
    Nat.add_sub_cancel_left, Nat.add_comm 1 i, List.set_cons_succ, hmap, table, withRecord,
    entrySlots_modify]

end Table

/-- A name that is not there is added at the end. -/
theorem setSlot_of_lookup_none {slots : List (String × Slot)} {name : String}
    (h : slots.lookup name = none) (v : JsDatum) :
    setSlot slots name v = slots ++ [(name, .data v)] := by
  induction slots with
  | nil => rfl
  | cons s rest ih =>
      rw [lookup_cons_ite] at h
      by_cases hs : name = s.1
      · rw [if_pos hs] at h
        cases h
      · rw [if_neg hs] at h
        rw [setSlot, if_neg (Ne.symm hs), ih h, List.cons_append]

/-- One count of a queue's object. -/
theorem setSlot_countsObject (counts : TaskStatus → Nat) (s : TaskStatus) (n : Nat) :
    ({ countsObject counts with
        slots := setSlot (countsObject counts).slots s.text (.number n) } : JsObject) =
      countsObject (Function.update counts s n) := by
  cases s <;> rfl

theorem lookup_countsObject (counts : TaskStatus → Nat) (s : TaskStatus) :
    (countsObject counts).slots.lookup s.text = some (.data (.number (counts s))) := by
  cases s <;> rfl

section Steps

variable (realm : Realm) {tally : Tally} {q : String}

theorem Realm.length_pos : 0 < realm.heap.length :=
  (List.getElem?_eq_some_iff.mp realm.root_mem).1

theorem Realm.getElem?_table_root :
    (table realm.heap tally)[objectPrototype]? = some realm.root :=
  (getElem?_withRecord_of_lt realm.length_pos _ _).trans realm.root_mem

/-- What a read of the record meets. -/
theorem Realm.find_withRecord (slots : List (String × Slot)) (made : Heap) (name : String) :
    find (withRecord realm.heap slots made) (withRecord realm.heap slots made).length
        realm.heap.length name = (slots.lookup name).or (realm.root.slots.lookup name) :=
  find_literal ((getElem?_withRecord_of_lt realm.length_pos slots made).trans realm.root_mem)
    realm.root_proto (getElem?_withRecord slots made) rfl
    (Nat.pos_iff_ne_zero.mp realm.length_pos) name

/-- A new name is added to the record, whatever it meets short of the accessor. -/
theorem Realm.set_withRecord {slots : List (String × Slot)} (made : Heap) {name : String}
    (hslots : slots.lookup name = none) (haccessor : name ≠ "__proto__") (v : JsDatum) :
    set (withRecord realm.heap slots made) realm.heap.length name v =
      some (withRecord realm.heap (slots ++ [(name, .data v)]) made) := by
  have hfind : find (withRecord realm.heap slots made)
      (withRecord realm.heap slots made).length realm.heap.length name ≠
        some .protoAccessor := by
    rw [realm.find_withRecord, hslots, Option.none_or]
    exact fun h => haccessor ((realm.accessor name).mp h)
  rw [set_of_not_accessor v hfind, update_withRecord]
  simp only [literal, setSlot_of_lookup_none hslots]
  rfl

/-- A queue of the table is found in it. -/
theorem Realm.get_record_of_mem (hq : q ∈ tally.map Prod.fst) :
    get (table realm.heap tally) realm.heap.length q =
      .ref (realm.heap.length + 1 + position tally q) := by
  rw [JsHeap.get, table, realm.find_withRecord, lookup_entrySlots, if_pos hq]
  rfl

/-- A queue that is not there meets nothing, if it is free. -/
theorem Realm.get_record_of_free (hq : q ∉ tally.map Prod.fst) (hfree : realm.Free q) :
    (get (table realm.heap tally) realm.heap.length q).nullish = true := by
  rw [JsHeap.get, table, realm.find_withRecord, lookup_entrySlots, if_neg hq, Option.none_or]
  cases hslot : realm.root.slots.lookup q with
  | none => rfl
  | some slot =>
      rcases hfree slot hslot with ⟨v, rfl, hv⟩
      exact hv

/-- Adding a queue, whatever it meets short of the accessor. -/
theorem Realm.seedQueue_table (hq : q ∉ tally.map Prod.fst) (haccessor : q ≠ "__proto__") :
    seedQueue realm.heap.length (table realm.heap tally) q =
      some (table realm.heap (tally ++ [(q, fun _ => 0)]),
        .ref (realm.heap.length + 1 + tally.length)) := by
  have hslots : (entrySlots (realm.heap.length + 1) tally).lookup q = none := by
    rw [lookup_entrySlots, if_neg hq]
  have hstart : table realm.heap tally ++ [zeros] =
      withRecord realm.heap (entrySlots (realm.heap.length + 1) tally)
        ((tally ++ [(q, fun _ => 0)]).map fun e : String × (TaskStatus → Nat) =>
          countsObject e.2) := by
    simp [table, withRecord, zeros]
  rw [seedQueue, hstart, length_table, realm.set_withRecord _ hslots haccessor, Option.map_some,
    table, entrySlots_concat]

/-- A count goes into the object of its queue. -/
theorem Realm.putMember_table (hq : q ∈ tally.map Prod.fst) (s : TaskStatus) (n : Nat) :
    putMember (table realm.heap tally) (.ref (realm.heap.length + 1 + position tally q)) s.text
      (.number n) = some (table realm.heap (record tally q s n)) := by
  have hexists : ∃ e, tally[position tally q]? = some e :=
    ⟨_, List.getElem?_eq_getElem (position_lt hq)⟩
  rcases hexists with ⟨e, hentry⟩
  have hobject := @getElem?_table_entry realm.heap tally (position tally q)
  rw [hentry, Option.map_some] at hobject
  have hfind : find (table realm.heap tally) (table realm.heap tally).length
      (realm.heap.length + 1 + position tally q) s.text ≠ some .protoAccessor := by
    rw [find_literal realm.getElem?_table_root realm.root_proto hobject rfl
      (by simp [objectPrototype]), lookup_countsObject]
    simp
  show set _ _ _ _ = _
  rw [set_of_not_accessor _ hfind,
    update_table_entry (g := fun counts => Function.update counts s n) hentry
      (setSlot_countsObject _ s n)]
  rfl

/-- A row of a queue that is there, or that meets nothing, goes into the table. -/
theorem Realm.statsRow_table (row : String × TaskStatus × Nat)
    (hq : row.1 ∈ tally.map Prod.fst ∨ realm.Free row.1) :
    statsRow realm.heap.length (table realm.heap tally) row =
      some (table realm.heap (tallyRow tally row)) := by
  by_cases hmem : row.1 ∈ tally.map Prod.fst
  · rw [statsRow, entryOf, realm.get_record_of_mem hmem, if_neg (by simp [JsDatum.nullish]),
      Option.bind_some, realm.putMember_table hmem, tallyRow, ensure, if_pos hmem]
  · have hfree : realm.Free row.1 := hq.resolve_left hmem
    have haccessor : row.1 ≠ "__proto__" := fun h => by
      rcases hfree _ ((realm.accessor row.1).mpr h) with ⟨v, hv, -⟩
      cases hv
    have hadded : row.1 ∈ (tally ++ [(row.1, fun _ => 0)]).map Prod.fst := by simp
    have hposition : position (tally ++ [(row.1, fun _ => 0)]) row.1 = tally.length := by
      rw [position, List.map_append, List.idxOf_append_of_notMem hmem]
      simp
    have hput := realm.putMember_table hadded row.2.1 row.2.2
    rw [hposition] at hput
    rw [statsRow, entryOf, if_pos (realm.get_record_of_free hmem hfree),
      realm.seedQueue_table hmem haccessor, Option.bind_some, hput, tallyRow, ensure,
      if_neg hmem]

end Steps

/-! ## Tallies -/

section Tallies

variable {tally : Tally} {q : String}

theorem lookup_eq_none_iff : tally.lookup q = none ↔ q ∉ tally.map Prod.fst := by
  induction tally with
  | nil => simp
  | cons e rest ih =>
      rw [lookup_cons_ite, List.map_cons, List.mem_cons]
      by_cases hq : q = e.1
      · simp [hq]
      · simp [hq, ih]

theorem getElem?_position {counts : TaskStatus → Nat} (h : tally.lookup q = some counts) :
    tally[position tally q]? = some (q, counts) := by
  induction tally with
  | nil => cases h
  | cons e rest ih =>
      rw [lookup_cons_ite] at h
      by_cases hq : q = e.1
      · rw [if_pos hq] at h
        subst hq
        cases h
        simp [position]
      · rw [if_neg hq] at h
        have hnext : position (e :: rest) q = position rest q + 1 := by
          rw [position, List.map_cons, List.idxOf_cons_ne _ (Ne.symm hq)]
          rfl
        rw [hnext, List.getElem?_cons_succ, ih h]

theorem keys_record (s : TaskStatus) (n : Nat) :
    (record tally q s n).map Prod.fst = tally.map Prod.fst := by
  refine List.ext_getElem? fun i => ?_
  simp only [record, List.getElem?_map, List.getElem?_modify]
  cases tally[i]? with
  | none => rfl
  | some e => by_cases hi : position tally q = i <;> simp [hi]

theorem lookup_ensure (q' : String) :
    (ensure tally q).lookup q' =
      if q' = q then some ((tally.lookup q).getD fun _ => 0) else tally.lookup q' := by
  unfold ensure
  by_cases hmem : q ∈ tally.map Prod.fst
  · rw [if_pos hmem]
    by_cases hq : q' = q
    · cases hlookup : tally.lookup q with
      | none => exact absurd hmem (lookup_eq_none_iff.mp hlookup)
      | some counts => rw [if_pos hq, hq, hlookup, Option.getD_some]
    · rw [if_neg hq]
  · have hlookup := lookup_eq_none_iff.mpr hmem
    rw [if_neg hmem, List.lookup_append, lookup_cons_ite, List.lookup_nil]
    by_cases hq : q' = q
    · simp [hq, hlookup]
    · simp [hq]

theorem lookup_record (s : TaskStatus) (n : Nat) (q' : String) :
    (record tally q s n).lookup q' =
      if q' = q then (tally.lookup q).map fun counts => Function.update counts s n
      else tally.lookup q' := by
  unfold record
  induction tally with
  | nil => simp
  | cons e rest ih =>
      rw [lookup_cons_ite, lookup_cons_ite]
      by_cases he : q = e.1
      · have hfirst : position (e :: rest) q = 0 := by simp [position, he]
        rw [hfirst, List.modify_zero_cons, lookup_cons_ite, if_pos he, he]
        by_cases hq : q' = e.1 <;> simp [hq]
      · have hnext : position (e :: rest) q = position rest q + 1 := by
          rw [position, List.map_cons, List.idxOf_cons_ne _ (Ne.symm he)]
          rfl
        rw [hnext, List.modify_succ_cons, lookup_cons_ite, if_neg he, ih]
        by_cases hq : q' = e.1
        · rw [if_pos hq, if_neg fun h => he (h.symm.trans hq), if_pos hq]
        · rw [if_neg hq, if_neg hq]

/-- What a row does to the counts of a queue. -/
theorem lookup_tallyRow (row : String × TaskStatus × Nat) :
    (tallyRow tally row).lookup q =
      if q = row.1 then
        some (Function.update ((tally.lookup q).getD fun _ => 0) row.2.1 row.2.2)
      else tally.lookup q := by
  rw [tallyRow, lookup_record, lookup_ensure, lookup_ensure]
  by_cases hq : q = row.1
  · simp [hq]
  · simp [hq]

/-- After some rows a queue has counts if it had some before, or has a row. -/
theorem lookup_foldl_eq_none_iff (rows : List (String × TaskStatus × Nat)) :
    (rows.foldl tallyRow tally).lookup q = none ↔
      tally.lookup q = none ∧ ∀ row ∈ rows, row.1 ≠ q := by
  induction rows generalizing tally with
  | nil => simp
  | cons row rest ih =>
      rw [List.foldl_cons, ih, lookup_tallyRow, List.forall_mem_cons]
      by_cases hq : q = row.1
      · simp [hq]
      · simp [hq, Ne.symm hq]

/-- The counts after some rows: that of a row of the queue and the status, or what it was. -/
theorem counts_foldl {rows : List (String × TaskStatus × Nat)} {counts : TaskStatus → Nat}
    (h : (rows.foldl tallyRow tally).lookup q = some counts) (s : TaskStatus) :
    (∃ n, (q, s, n) ∈ rows ∧ counts s = n) ∨
      ((∀ n, (q, s, n) ∉ rows) ∧ counts s = ((tally.lookup q).getD fun _ => 0) s) := by
  induction rows generalizing tally with
  | nil =>
      right
      have hlookup : tally.lookup q = some counts := h
      simp [hlookup]
  | cons row rest ih =>
      rw [List.foldl_cons] at h
      rcases ih h with ⟨n, hn, hcounts⟩ | ⟨hnone, hcounts⟩
      · exact Or.inl ⟨n, List.mem_cons_of_mem row hn, hcounts⟩
      · rw [lookup_tallyRow] at hcounts
        by_cases hq : q = row.1
        · rw [if_pos hq, Option.getD_some] at hcounts
          by_cases hs : s = row.2.1
          · left
            refine ⟨row.2.2, ?_, by rw [hcounts, hs, Function.update_self]⟩
            rw [hq, hs]
            exact List.mem_cons_self
          · rw [Function.update_of_ne hs] at hcounts
            refine Or.inr ⟨fun n hn => ?_, hcounts⟩
            rcases List.mem_cons.mp hn with heq | hrest
            · exact hs (by rw [← heq])
            · exact hnone n hrest
        · rw [if_neg hq] at hcounts
          refine Or.inr ⟨fun n hn => ?_, hcounts⟩
          rcases List.mem_cons.mp hn with heq | hrest
          · exact hq (by rw [← heq])
          · exact hnone n hrest

end Tallies

/-! ## Records that are exact -/

/-- The rows of the statement: one for each queue and status that there is, with its count. -/
theorem mem_stats_iff (queue : Option String) (db : Database J) (q : String) (s : TaskStatus)
    (n : Nat) :
    (q, s, n) ∈ stats queue db ↔
      (∃ t ∈ countedRows queue db, (t.queue, t.status) = (q, s)) ∧ n = countOf queue db q s := by
  unfold stats
  rw [List.mem_insertionSort, List.mem_map]
  constructor
  · rintro ⟨g, hg, heq⟩
    rw [List.mem_dedup, List.mem_map] at hg
    rcases hg with ⟨t, ht, rfl⟩
    cases heq
    exact ⟨⟨t, ht, rfl⟩, rfl⟩
  · rintro ⟨⟨t, ht, htask⟩, rfl⟩
    refine ⟨(q, s), ?_, rfl⟩
    rw [List.mem_dedup, ← htask]
    exact List.mem_map_of_mem ht

theorem keys_ensure_subset (tally : Tally) (q : String) :
    tally.map Prod.fst ⊆ (ensure tally q).map Prod.fst := by
  unfold ensure
  split
  · exact List.Subset.refl _
  · rw [List.map_append]
    exact List.subset_append_left _ _

section Exact

variable (realm : Realm)

/-- Rows whose queues are there or meet nothing go into the table one by one. -/
theorem Realm.foldlM_table {tally : Tally} {rows : List (String × TaskStatus × Nat)}
    (h : ∀ row ∈ rows, row.1 ∈ tally.map Prod.fst ∨ realm.Free row.1) :
    rows.foldlM (statsRow realm.heap.length) (table realm.heap tally) =
      some (table realm.heap (rows.foldl tallyRow tally)) := by
  induction rows generalizing tally with
  | nil => rfl
  | cons row rest ih =>
      rw [List.forall_mem_cons] at h
      have hrest : ∀ r ∈ rest, r.1 ∈ (tallyRow tally row).map Prod.fst ∨ realm.Free r.1 := by
        intro r hr
        rw [tallyRow, keys_record]
        exact (h.2 r hr).imp_left fun hmem => keys_ensure_subset tally row.1 hmem
      rw [List.foldlM_cons, realm.statsRow_table row h.1]
      exact ih hrest

/-- The tally that `stats` begins with. -/
def seedTally (queue : Option String) : Tally :=
  match queue with
  | none => []
  | some q => [(q, fun _ => 0)]

/-- If every row goes into the table, the record is that of the tally. -/
theorem Realm.statsRecord_eq {queue : Option String} {rows : List (String × TaskStatus × Nat)}
    (hqueue : queue ≠ some "__proto__")
    (hrows : ∀ row ∈ rows, row.1 ∈ (seedTally queue).map Prod.fst ∨ realm.Free row.1) :
    statsRecord queue rows realm.heap =
      some (table realm.heap (rows.foldl tallyRow (seedTally queue)), realm.heap.length) := by
  have hfold := realm.foldlM_table hrows
  cases queue with
  | none =>
      have hstart : realm.heap ++ [literal []] = table realm.heap (seedTally none) := rfl
      simp only [statsRecord, hstart, Option.bind_some, hfold, Option.map_some]
  | some q =>
      have hstart : realm.heap ++ [literal []] = table realm.heap [] := rfl
      have hseed := @Realm.seedQueue_table realm [] q (by simp) fun h => hqueue (by rw [h])
      rw [List.nil_append] at hseed
      have hfold' : rows.foldlM (statsRow realm.heap.length) (table realm.heap [(q, fun _ => 0)]) =
          some (table realm.heap (rows.foldl tallyRow (seedTally (some q)))) := hfold
      simp only [statsRecord, hstart, hseed, Option.map_some, Option.bind_some, hfold']

/-- A queue of the table has an object of its own with its counts. -/
theorem Realm.own_table_some {tally : Tally} {q : String} {counts : TaskStatus → Nat}
    (h : tally.lookup q = some counts) :
    ∃ z, own (table realm.heap tally) realm.heap.length q = some (.data (.ref z)) ∧
      (table realm.heap tally)[z]? = some (countsObject counts) := by
  have hmem : q ∈ tally.map Prod.fst := by
    by_contra hnot
    rw [lookup_eq_none_iff.mpr hnot] at h
    cases h
  refine ⟨realm.heap.length + 1 + position tally q, ?_, ?_⟩
  · rw [own, table, getElem?_withRecord, Option.bind_some]
    exact (lookup_entrySlots _ tally q).trans (if_pos hmem)
  · rw [getElem?_table_entry, getElem?_position h]
    rfl

theorem Realm.own_table_none {tally : Tally} {q : String} (h : tally.lookup q = none) :
    own (table realm.heap tally) realm.heap.length q = none := by
  rw [own, table, getElem?_withRecord, Option.bind_some]
  exact (lookup_entrySlots _ tally q).trans (if_neg (lookup_eq_none_iff.mp h))

theorem lookup_seedTally (queue : Option String) (q : String) :
    (seedTally queue).lookup q = if queue = some q then some (fun _ => 0) else none := by
  cases queue with
  | none => simp [seedTally]
  | some q' =>
      rw [seedTally, lookup_cons_ite, List.lookup_nil]
      by_cases hq : q = q' <;> simp [hq, eq_comm]

/-- A queue that is not listed is not in the tally after all rows. -/
theorem lookup_tally_of_not_listed {queue : Option String} {db : Database J} {q : String}
    (h : ¬Listed queue db q) :
    ((stats queue db).foldl tallyRow (seedTally queue)).lookup q = none := by
  rw [Listed, not_or] at h
  refine (lookup_foldl_eq_none_iff _).mpr ⟨?_, fun row hrow hq => ?_⟩
  · rw [lookup_seedTally, if_neg h.2]
  · rcases ((mem_stats_iff queue db row.1 row.2.1 row.2.2).mp hrow).1 with ⟨t, ht, htask⟩
    exact h.1 ⟨t, ht, (Prod.mk.inj htask).1.trans hq⟩

/-- A queue that is listed has its counts in the tally after all rows. -/
theorem lookup_tally_of_listed {queue : Option String} {db : Database J} {q : String}
    (h : Listed queue db q) :
    ((stats queue db).foldl tallyRow (seedTally queue)).lookup q =
      some (countOf queue db q) := by
  cases hlookup : ((stats queue db).foldl tallyRow (seedTally queue)).lookup q with
  | none =>
      rcases (lookup_foldl_eq_none_iff _).mp hlookup with ⟨hseed, hrows⟩
      rcases h with ⟨t, ht, hq⟩ | hasked
      · have hrow : (q, t.status, countOf queue db q t.status) ∈ stats queue db :=
          (mem_stats_iff queue db _ _ _).mpr ⟨⟨t, ht, by rw [hq]⟩, rfl⟩
        exact absurd rfl (hrows _ hrow)
      · rw [lookup_seedTally, if_pos hasked] at hseed
        cases hseed
  | some counts =>
      congr 1
      funext s
      rcases counts_foldl hlookup s with ⟨n, hn, hcounts⟩ | ⟨hnone, hcounts⟩
      · rw [hcounts]
        exact ((mem_stats_iff queue db q s n).mp hn).2
      · have hzero : ((seedTally queue).lookup q).getD (fun _ => 0) s = 0 := by
          rw [lookup_seedTally]
          split <;> rfl
        rw [hcounts, hzero, eq_comm, countOf, List.countP_eq_zero]
        intro t ht htask
        exact hnone _ ((mem_stats_iff queue db q s _).mpr ⟨⟨t, ht, by simpa using htask⟩, rfl⟩)

/-- While every row goes into the table, the record is exact. -/
theorem Realm.statsExact {queue : Option String} {db : Database J}
    (hqueue : queue ≠ some "__proto__")
    (hrows : ∀ t ∈ countedRows queue db, queue = some t.queue ∨ realm.Free t.queue) :
    StatsExact realm queue db := by
  have htable : ∀ row ∈ stats queue db,
      row.1 ∈ (seedTally queue).map Prod.fst ∨ realm.Free row.1 := by
    intro row hrow
    rcases ((mem_stats_iff queue db row.1 row.2.1 row.2.2).mp hrow).1 with ⟨t, ht, htask⟩
    have hq : t.queue = row.1 := (Prod.mk.inj htask).1
    rw [← hq]
    refine (hrows t ht).imp_left fun hasked => ?_
    rw [hasked]
    exact List.mem_singleton_self _
  refine ⟨_, _, realm.statsRecord_eq hqueue htable, fun a ha => ?_, fun q => ⟨fun hq => ?_,
    fun hq => ?_⟩⟩
  · exact getElem?_withRecord_of_lt ha _ _
  · exact realm.own_table_some (lookup_tally_of_listed hq)
  · exact realm.own_table_none (lookup_tally_of_not_listed hq)

end Exact

/-! ## Records that are not -/

theorem text_ne_proto (s : TaskStatus) : s.text ≠ "__proto__" := by
  cases s <;> decide

/-- A name that the record `out` does not have meets something at `Object.prototype`, and neither
refers to the record. -/
structure Blocked (out : Address) (q : String) (h : Heap) (root o : JsObject) : Prop where
  root_mem : h[objectPrototype]? = some root
  root_proto : root.proto = none
  accessor : ∀ name, root.slots.lookup name = some .protoAccessor ↔ name = "__proto__"
  record_mem : h[out]? = some o
  record_proto : o.proto = some objectPrototype
  record_ne : out ≠ objectPrototype
  record_data : ∀ name, o.slots.lookup name ≠ some .protoAccessor
  missing : o.slots.lookup q = none
  met : ∃ slot, root.slots.lookup q = some slot ∧ ∀ v, slot = .data v → v.nullish = false
  root_ref : ∀ name, root.slots.lookup name ≠ some (.data (.ref out))
  record_ref : ∀ name, o.slots.lookup name ≠ some (.data (.ref out))

namespace Blocked

variable {out : Address} {q : String} {h h' : Heap} {root o : JsObject}

theorem find_eq (hb : Blocked out q h root o) (name : String) :
    find h h.length out name = (o.slots.lookup name).or (root.slots.lookup name) :=
  find_literal hb.root_mem hb.root_proto hb.record_mem hb.record_proto hb.record_ne name

/-- Other objects may change. -/
theorem of_same (hb : Blocked out q h root o)
    (hroot : h'[objectPrototype]? = h[objectPrototype]?) (hrecord : h'[out]? = h[out]?) :
    Blocked out q h' root o :=
  { hb with
    root_mem := hroot.trans hb.root_mem
    record_mem := hrecord.trans hb.record_mem }

/-- What is read from the record is something if the name is blocked. -/
theorem get_not_nullish (hb : Blocked out q h root o) : (get h out q).nullish = false := by
  rcases hb.met with ⟨slot, hslot, hdata⟩
  rw [JsHeap.get, hb.find_eq, hb.missing, Option.none_or, hslot]
  cases slot with
  | data v => exact hdata v rfl
  | protoAccessor => simp [protoOf, hb.record_mem, hb.record_proto, JsDatum.nullish]

/-- Nothing that is read from the record refers to it. -/
theorem get_ne_ref (hb : Blocked out q h root o) (name : String) :
    get h out name ≠ .ref out := by
  rw [JsHeap.get, hb.find_eq]
  cases ho : o.slots.lookup name with
  | some slot =>
      cases slot with
      | data v =>
          rintro hv
          have heq : v = .ref out := hv
          exact hb.record_ref name (by rw [ho, heq])
      | protoAccessor => exact absurd ho (hb.record_data name)
  | none =>
      rw [Option.none_or]
      cases hroot : root.slots.lookup name with
      | none => simp
      | some slot =>
          cases slot with
          | data v =>
              rintro hv
              have heq : v = .ref out := hv
              exact hb.root_ref name (by rw [hroot, heq])
          | protoAccessor =>
              simp [protoOf, hb.record_mem, hb.record_proto, Ne.symm hb.record_ne]

theorem record_lt (hb : Blocked out q h root o) : out < h.length :=
  (List.getElem?_eq_some_iff.mp hb.record_mem).1

theorem root_lt (hb : Blocked out q h root o) : objectPrototype < h.length :=
  (List.getElem?_eq_some_iff.mp hb.root_mem).1

/-- A property of the record may be added. -/
theorem add (hb : Blocked out q h root o) {name : String} (hname : q ≠ name) {a : Address}
    (ha : a ≠ out) :
    Blocked out q (update h out fun o => { o with slots := setSlot o.slots name (.ref a) }) root
      { o with slots := setSlot o.slots name (.ref a) } where
  root_mem := (getElem?_update_of_ne (Ne.symm hb.record_ne) _).trans hb.root_mem
  root_proto := hb.root_proto
  accessor := hb.accessor
  record_mem := by rw [getElem?_update_self, hb.record_mem, Option.map_some]
  record_proto := hb.record_proto
  record_ne := hb.record_ne
  record_data name' := by
    rw [lookup_setSlot]
    split
    · simp
    · exact hb.record_data name'
  missing := by rw [lookup_setSlot, if_neg hname, hb.missing]
  met := hb.met
  root_ref := hb.root_ref
  record_ref name' := by
    rw [lookup_setSlot]
    split
    · simpa using ha
    · exact hb.record_ref name'

/-- A number may be put at `Object.prototype`. -/
theorem putRoot (hb : Blocked out q h root o) {name : String} (hname : name ≠ "__proto__")
    (n : Int) :
    Blocked out q
      (update h objectPrototype fun o => { o with slots := setSlot o.slots name (.number n) })
      { root with slots := setSlot root.slots name (.number n) } o where
  root_mem := by rw [getElem?_update_self, hb.root_mem, Option.map_some]
  root_proto := hb.root_proto
  accessor name' := by
    rw [lookup_setSlot]
    by_cases heq : name' = name
    · simp [heq, hname]
    · rw [if_neg heq]
      exact hb.accessor name'
  record_mem := (getElem?_update_of_ne hb.record_ne _).trans hb.record_mem
  record_proto := hb.record_proto
  record_ne := hb.record_ne
  record_data := hb.record_data
  missing := hb.missing
  met := by
    simp only [lookup_setSlot]
    by_cases heq : q = name
    · exact ⟨.data (.number n), if_pos heq, fun v hv => by cases hv; rfl⟩
    · rw [if_neg heq]
      exact hb.met
  root_ref name' := by
    rw [lookup_setSlot]
    split
    · simp
    · exact hb.root_ref name'
  record_ref := hb.record_ref

/-- A new queue does not unblock it. -/
theorem seedQueue (hb : Blocked out q h root o) {queue : String}
    (hget : (get h out queue).nullish = true) {target : JsDatum}
    (hseed : CairnQ.seedQueue out h queue = some (h', target)) :
    ∃ o', Blocked out q h' root o' ∧ target ≠ .ref out := by
  have hgrown : Blocked out q (h ++ [zeros]) root o :=
    hb.of_same (List.getElem?_append_left hb.root_lt) (List.getElem?_append_left hb.record_lt)
  have hname : q ≠ queue := by
    rintro rfl
    rw [hb.get_not_nullish] at hget
    cases hget
  have hfind : find (h ++ [zeros]) (h ++ [zeros]).length out queue ≠ some .protoAccessor := by
    intro hfound
    rw [hgrown.find_eq, ← hb.find_eq] at hfound
    rw [JsHeap.get, hfound] at hget
    simp [protoOf, hb.record_mem, hb.record_proto, JsDatum.nullish] at hget
  have hne : h.length ≠ out := Nat.ne_of_gt hb.record_lt
  rw [CairnQ.seedQueue, set_of_not_accessor _ hfind] at hseed
  cases hseed
  exact ⟨_, hgrown.add hname hne, by simpa using hne⟩

/-- A count does not unblock it. -/
theorem putMember (hb : Blocked out q h root o) {target : JsDatum} (hne : target ≠ .ref out)
    {s : TaskStatus} {n : Nat}
    (hput : CairnQ.putMember h target s.text (.number n) = some h') :
    ∃ root', Blocked out q h' root' o := by
  cases target with
  | undefined | null | number => cases hput
  | ref a =>
      have hrecord : out ≠ a := fun heq => hne (by rw [heq])
      have hset : set h a s.text (.number n) = some h' := hput
      by_cases hroot : a = objectPrototype
      · subst hroot
        have hfind : find h h.length objectPrototype s.text ≠ some .protoAccessor := by
          rw [find_objectPrototype hb.root_mem hb.root_proto]
          exact fun hfound => text_ne_proto s ((hb.accessor _).mp hfound)
        rw [set_of_not_accessor _ hfind] at hset
        cases hset
        exact ⟨_, hb.putRoot (text_ne_proto s) n⟩
      · exact ⟨root, hb.of_same (getElem?_set hset (Ne.symm hroot)) (getElem?_set hset hrecord)⟩

/-- No row unblocks it. -/
theorem statsRow (hb : Blocked out q h root o) {row : String × TaskStatus × Nat}
    (hrow : CairnQ.statsRow out h row = some h') : ∃ root' o', Blocked out q h' root' o' := by
  rw [CairnQ.statsRow, entryOf, Option.bind_eq_some_iff] at hrow
  rcases hrow with ⟨⟨h₁, target⟩, hentry, hput⟩
  cases hget : (get h out row.1).nullish with
  | true =>
      rw [if_pos hget] at hentry
      rcases hb.seedQueue hget hentry with ⟨o', hb', hne⟩
      rcases hb'.putMember hne hput with ⟨root', hb''⟩
      exact ⟨root', o', hb''⟩
  | false =>
      rw [if_neg (Bool.eq_false_iff.mp hget)] at hentry
      cases hentry
      rcases hb.putMember (hb.get_ne_ref row.1) hput with ⟨root', hb'⟩
      exact ⟨root', o, hb'⟩

/-- The queue stays missing through all rows. -/
theorem foldlM (hb : Blocked out q h root o) {rows : List (String × TaskStatus × Nat)}
    (hrows : rows.foldlM (CairnQ.statsRow out) h = some h') : own h' out q = none := by
  induction rows generalizing h root o with
  | nil =>
      cases hrows
      rw [own, hb.record_mem, Option.bind_some, hb.missing]
  | cons row rest ih =>
      rw [List.foldlM_cons] at hrows
      cases hrow : CairnQ.statsRow out h row with
      | none =>
          rw [hrow] at hrows
          cases hrows
      | some next =>
          rw [hrow] at hrows
          rcases hb.statsRow hrow with ⟨root', o', hb'⟩
          exact ih hb' hrows

end Blocked

/-- The record `out` has nothing of its own and inherits from an object of counts. -/
structure Adopted (out z : Address) (h : Heap) (root : JsObject) (counts : TaskStatus → Nat) :
    Prop where
  root_mem : h[objectPrototype]? = some root
  root_proto : root.proto = none
  accessor : ∀ name, root.slots.lookup name = some .protoAccessor ↔ name = "__proto__"
  record_mem : h[out]? = some ⟨some z, []⟩
  counts_mem : h[z]? = some (countsObject counts)
  record_ne : out ≠ objectPrototype
  counts_ne : z ≠ objectPrototype
  distinct : out ≠ z

namespace Adopted

variable {out z : Address} {h h' : Heap} {root : JsObject} {counts : TaskStatus → Nat}

theorem find_counts (ha : Adopted out z h root counts) (name : String) :
    find h h.length z name = ((countsObject counts).slots.lookup name).or
      (root.slots.lookup name) :=
  find_literal ha.root_mem ha.root_proto ha.counts_mem rfl ha.counts_ne name

/-- The accessor is found behind the object of counts. -/
theorem get_proto (ha : Adopted out z h root counts) : get h out "__proto__" = .ref z := by
  have hlength : ∃ n, h.length = n + 3 := by
    have hout : out < h.length := (List.getElem?_eq_some_iff.mp ha.record_mem).1
    have hz : z < h.length := (List.getElem?_eq_some_iff.mp ha.counts_mem).1
    have hthree : 2 < h.length := by
      rcases Nat.lt_or_gt_of_ne ha.distinct with hlt | hgt
      · exact Nat.lt_of_le_of_lt
          (Nat.succ_le_of_lt (Nat.lt_of_le_of_lt (Nat.pos_of_ne_zero ha.record_ne) hlt)) hz
      · exact Nat.lt_of_le_of_lt
          (Nat.succ_le_of_lt (Nat.lt_of_le_of_lt (Nat.pos_of_ne_zero ha.counts_ne) hgt)) hout
    exact ⟨h.length - 3, by omega⟩
  rcases hlength with ⟨n, hn⟩
  have hcounts : (countsObject counts).slots.lookup "__proto__" = none := rfl
  have haccessor : root.slots.lookup "__proto__" = some .protoAccessor :=
    (ha.accessor "__proto__").mpr rfl
  have hproto : (countsObject counts).proto = some objectPrototype := rfl
  have hfind : find h h.length out "__proto__" = some .protoAccessor := by
    rw [hn]
    simp [find, own, protoOf, ha.record_mem, ha.counts_mem, hcounts, hproto, ha.root_mem,
      haccessor]
  rw [JsHeap.get, hfind]
  simp [protoOf, ha.record_mem]

/-- A row of the queue counts in the object the record inherits from. -/
theorem statsRow (ha : Adopted out z h root counts) {row : String × TaskStatus × Nat}
    (hq : row.1 = "__proto__") (hrow : CairnQ.statsRow out h row = some h') :
    ∃ counts', Adopted out z h' root counts' := by
  rw [CairnQ.statsRow, entryOf, hq, ha.get_proto, if_neg (by simp [JsDatum.nullish]),
    Option.bind_some] at hrow
  have hset : set h z row.2.1.text (.number row.2.2) = some h' := hrow
  have hfind : find h h.length z row.2.1.text ≠ some .protoAccessor := by
    rw [ha.find_counts, lookup_countsObject]
    simp
  rw [set_of_not_accessor _ hfind] at hset
  cases hset
  exact ⟨Function.update counts row.2.1 row.2.2,
    { ha with
      root_mem := (getElem?_update_of_ne (Ne.symm ha.counts_ne) _).trans ha.root_mem
      record_mem := (getElem?_update_of_ne ha.distinct _).trans ha.record_mem
      counts_mem := by
        rw [getElem?_update_self, ha.counts_mem, Option.map_some, setSlot_countsObject] }⟩

/-- The record stays empty through all rows of the queue. -/
theorem foldlM (ha : Adopted out z h root counts) {rows : List (String × TaskStatus × Nat)}
    (hqueue : ∀ row ∈ rows, row.1 = "__proto__")
    (hrows : rows.foldlM (CairnQ.statsRow out) h = some h') (name : String) :
    own h' out name = none := by
  induction rows generalizing h counts with
  | nil =>
      cases hrows
      rw [own, ha.record_mem]
      rfl
  | cons row rest ih =>
      rw [List.forall_mem_cons] at hqueue
      rw [List.foldlM_cons] at hrows
      cases hrow : CairnQ.statsRow out h row with
      | none =>
          rw [hrow] at hrows
          cases hrows
      | some next =>
          rw [hrow] at hrows
          rcases ha.statsRow hqueue.1 hrow with ⟨counts', ha'⟩
          exact ih ha' hqueue.2 hrows

end Adopted

section NotExact

variable (realm : Realm)

theorem Realm.getElem?_start (realm : Realm) :
    (realm.heap ++ [literal []])[objectPrototype]? = some realm.root :=
  (List.getElem?_append_left realm.length_pos).trans realm.root_mem

theorem Realm.record_ne (realm : Realm) : realm.heap.length ≠ objectPrototype :=
  Nat.pos_iff_ne_zero.mp realm.length_pos

/-- What meets something at first is blocked at first. -/
theorem Realm.blocked_start {q : String} (hmet : ¬realm.Free q) :
    Blocked realm.heap.length q (realm.heap ++ [literal []]) realm.root (literal []) where
  root_mem := realm.getElem?_start
  root_proto := realm.root_proto
  accessor := realm.accessor
  record_mem := by simp
  record_proto := rfl
  record_ne := realm.record_ne
  record_data name := by simp [literal]
  missing := rfl
  met := by
    rw [Realm.Free, Vacant] at hmet
    push Not at hmet
    rcases hmet with ⟨slot, hslot, hvalue⟩
    exact ⟨slot, hslot, fun v hv => Bool.eq_false_iff.mpr (hvalue v hv)⟩
  root_ref name href := absurd (realm.closed name _ href) (Nat.lt_irrefl _)
  record_ref name := by simp [literal]

/-- Without a queue asked for, one that meets something is missing. -/
theorem Realm.not_statsExact_of_blocked {db : Database J} {t : Task J} (ht : t ∈ db.tasks.rows)
    (hmet : ¬realm.Free t.queue) : ¬StatsExact realm none db := by
  rintro ⟨h, out, hrecord, -, hown⟩
  have hout : out = realm.heap.length ∧
      (stats none db).foldlM (statsRow realm.heap.length) (realm.heap ++ [literal []]) =
        some h := by
    rw [statsRecord, Option.bind_some, Option.map_eq_some_iff] at hrecord
    rcases hrecord with ⟨h', hfold, heq⟩
    cases heq
    exact ⟨rfl, hfold⟩
  have hblocked : Blocked realm.heap.length t.queue (realm.heap ++ [literal []]) realm.root
      (literal []) := realm.blocked_start hmet
  have hlisted : Listed none db t.queue :=
    Or.inl ⟨t, List.mem_filter.mpr ⟨ht, rfl⟩, rfl⟩
  rcases (hown t.queue).1 hlisted with ⟨z, hz, -⟩
  rw [hout.1, hblocked.foldlM hout.2] at hz
  cases hz

/-- Seeding `__proto__` makes the record inherit from the object of counts. -/
theorem Realm.adopted_start {seeded : Heap}
    (h : (seedQueue realm.heap.length (realm.heap ++ [literal []]) "__proto__").map Prod.fst =
      some seeded) :
    Adopted realm.heap.length (realm.heap.length + 1) seeded realm.root fun _ => 0 := by
  have hlength : (realm.heap ++ [literal []]).length = realm.heap.length + 1 := by simp
  have hroot : (realm.heap ++ [literal []] ++ [zeros])[objectPrototype]? = some realm.root := by
    rw [List.getElem?_append_left (by rw [hlength]; exact Nat.succ_pos _)]
    exact realm.getElem?_start
  have hrecord : (realm.heap ++ [literal []] ++ [zeros])[realm.heap.length]? =
      some (literal []) := by simp
  have hzeros : (realm.heap ++ [literal []] ++ [zeros])[realm.heap.length + 1]? =
      some zeros := by simp
  have hfind : find (realm.heap ++ [literal []] ++ [zeros])
      (realm.heap ++ [literal []] ++ [zeros]).length realm.heap.length "__proto__" =
        some .protoAccessor := by
    rw [find_literal hroot realm.root_proto hrecord rfl realm.record_ne]
    exact (realm.accessor "__proto__").mpr rfl
  have hset : set (realm.heap ++ [literal []] ++ [zeros]) realm.heap.length "__proto__"
      (.ref (realm.heap.length + 1)) = some seeded := by
    rw [seedQueue, hlength, Option.map_map, Option.map_eq_some_iff] at h
    rcases h with ⟨h', hset, heq⟩
    rw [hset]
    exact congrArg some heq
  rw [JsHeap.set, hfind] at hset
  simp only [setProto, if_neg realm.record_ne] at hset
  split_ifs at hset
  cases hset
  exact
    { root_mem := (getElem?_update_of_ne (Ne.symm realm.record_ne) _).trans hroot
      root_proto := realm.root_proto
      accessor := realm.accessor
      record_mem := by
        rw [getElem?_update_self, hrecord]
        rfl
      counts_mem := (getElem?_update_of_ne (Nat.succ_ne_self _) _).trans hzeros
      record_ne := realm.record_ne
      counts_ne := Nat.succ_ne_zero _
      distinct := Ne.symm (Nat.succ_ne_self _) }

/-- The queue `__proto__` is missing when it is asked for. -/
theorem Realm.not_statsExact_proto (db : Database J) : ¬StatsExact realm (some "__proto__") db := by
  rintro ⟨h, out, hrecord, -, hown⟩
  rw [statsRecord, Option.bind_eq_some_iff] at hrecord
  rcases hrecord with ⟨seeded, hseed, hrows⟩
  rcases Option.map_eq_some_iff.mp hrows with ⟨h', hfold, heq⟩
  cases heq
  have hqueue : ∀ row ∈ stats (some "__proto__") db, row.1 = "__proto__" := by
    intro row hrow
    rcases ((mem_stats_iff _ db row.1 row.2.1 row.2.2).mp hrow).1 with ⟨t, ht, htask⟩
    have hq := (List.mem_filter.mp ht).2
    rw [← (Prod.mk.inj htask).1]
    simpa using hq
  rcases (hown "__proto__").1 (Or.inr rfl) with ⟨z, hz, -⟩
  rw [(realm.adopted_start hseed).foldlM hqueue hfold] at hz
  cases hz

end NotExact

/-- The record of `stats` is exact if and only if the queue asked for is not `__proto__`, or
without one, no queue that has rows meets anything at `Object.prototype`. -/
theorem statsExact_iff (realm : Realm) (queue : Option String) (db : Database J) :
    StatsExact realm queue db ↔
      match queue with
      | some q => q ≠ "__proto__"
      | none => ∀ t ∈ db.tasks.rows, realm.Free t.queue := by
  cases queue with
  | none =>
      constructor
      · intro h t ht
        by_contra hmet
        exact realm.not_statsExact_of_blocked ht hmet h
      · intro h
        exact realm.statsExact (by simp) fun t ht => Or.inr (h t (List.mem_of_mem_filter ht))
  | some q =>
      constructor
      · rintro h rfl
        exact realm.not_statsExact_proto db h
      · intro h
        refine realm.statsExact (by simpa using h) fun t ht => Or.inl ?_
        have hq := (List.mem_filter.mp ht).2
        simpa [eq_comm] using hq

end CairnQ
