import CairnQ.Protocol.Runs
import CairnQ.SqliteStore.Flush
import Mathlib.Data.List.Nodup
import Mathlib.Data.List.Perm.Basic

/-!
# Group commit applies each write exactly once

Every accepted write is at any time in exactly one place: answered, in the batch of
the open turn, or queued.  The committed history logs the writes in the order of
arrival, each with the rows its own statement returned at its place, and a write is
logged before it is resolved with rows and never when it is resolved with an error.

Main results:

- Theorem `FlushInvariant.of_step`: every step of either store keeps the invariant.
- Theorem `group_commit`: what holds of the outcomes and of the committed state in
  every run.
-/

namespace CairnQ

open Relational Transition

variable {D W R : Type} {apply : Int → W → D → D × R} {start : D}

/-! ## Results of a batch -/

/-- The rows among the results of a batch, with the numbers of their writes. -/
def okAnswers (members : List (Pending W × Except SqliteError R)) : List (Nat × R) :=
  members.filterMap fun member =>
    match member.2 with
    | .ok rows => some (member.1.id, rows)
    | .error _ => none

theorem mem_okAnswers {members : List (Pending W × Except SqliteError R)} {id : Nat} {rows : R} :
    (id, rows) ∈ okAnswers members ↔ ∃ w, (w, .ok rows) ∈ members ∧ w.id = id := by
  simp only [okAnswers, List.mem_filterMap]
  constructor
  · rintro ⟨⟨w, result⟩, hmem, hsome⟩
    cases result with
    | error e => cases hsome
    | ok rows' =>
        cases hsome
        exact ⟨w, hmem, rfl⟩
  · rintro ⟨w, hmem, rfl⟩
    exact ⟨(w, .ok rows), hmem, rfl⟩

/-- The answered numbers are numbers of the members, in their order. -/
theorem okAnswers_sublist (members : List (Pending W × Except SqliteError R)) :
    ((okAnswers members).map Prod.fst).Sublist (members.map fun member => member.1.id) := by
  induction members with
  | nil => exact .slnil
  | cons member members ih =>
      rcases member with ⟨w, result⟩
      cases result with
      | error e => exact .cons _ ih
      | ok rows => exact .cons_cons _ ih

/-- A result more belongs to the next member of the batch. -/
theorem zip_concat {α β : Type} {batch : List α} {out : List β} {member : α} (result : β)
    (h : batch[out.length]? = some member) :
    batch.zip (out ++ [result]) = batch.zip out ++ [(member, result)] := by
  induction out generalizing batch with
  | nil =>
      cases batch with
      | nil => cases h
      | cons w batch =>
          cases h
          simp
  | cons o out ih =>
      cases batch with
      | nil => cases h
      | cons w batch => simpa using ih (by simpa using h)

/-- The members with a result are the first of the batch. -/
theorem zip_ids_sublist {β : Type} (batch : List (Pending W)) (out : List β) :
    ((batch.zip out).map fun member => member.1.id).Sublist (batch.map Pending.id) := by
  induction batch generalizing out with
  | nil => exact .slnil
  | cons w batch ih =>
      cases out with
      | nil => exact List.nil_sublist _
      | cons o out => exact .cons_cons _ (ih out)

/-! ## The invariant -/

namespace FlushState

/-- The writes that may still be logged, in the order of arrival. -/
def unlogged (s : FlushState apply start) : List (Pending W) :=
  match s.phase with
  | .running batch _ _ => batch ++ s.pending
  | .single _ (some _) => s.pending.tail
  | _ => s.pending

/-- The rows of the committed turn that are not handed to their callers yet. -/
def owed (s : FlushState apply start) : List (Nat × R) :=
  match s.phase with
  | .single only (some rows) => [(only.id, rows)]
  | .committed batch out => okAnswers (batch.zip out)
  | _ => []

/-- The write was resolved with the rows. -/
def Returned (s : FlushState apply start) (id : Nat) (rows : R) : Prop :=
  ∃ resolution ∈ s.resolutions, resolution.id = id ∧ resolution.outcome = .rows rows

end FlushState

/-- Every logged write is the accepted write of that number. -/
def LogsAccepted (accepted : List W) (log : List (LogEntry D W R Int)) : Prop :=
  ∀ id write nowMs rows, .operation id write nowMs rows ∈ log → accepted[id]? = some write

theorem LogsAccepted.accept {accepted : List W} {log : List (LogEntry D W R Int)}
    (h : LogsAccepted accepted log) (write : W) : LogsAccepted (accepted ++ [write]) log := by
  intro id w nowMs rows hmem
  have hw := h id w nowMs rows hmem
  rw [List.getElem?_append_left (List.getElem?_eq_some_iff.mp hw).1]
  exact hw

theorem LogsAccepted.perform {accepted : List W} {store : History apply start}
    (h : LogsAccepted accepted store.log) {w : Pending W}
    (hw : accepted[w.id]? = some w.write) (nowMs : Int) :
    LogsAccepted accepted (store.perform w.id w.write nowMs).log := by
  intro id write nowMs' rows hmem
  rcases List.mem_append.mp hmem with hold | hnew
  · exact h id write nowMs' rows hold
  · cases List.mem_singleton.mp hnew
    exact hw

theorem LogsAccepted.external {accepted : List W} {store : History apply start}
    (h : LogsAccepted accepted store.log) (change : D → D) :
    LogsAccepted accepted (store.external change).log := by
  intro id write nowMs rows hmem
  rcases List.mem_append.mp hmem with hold | hnew
  · exact h id write nowMs rows hold
  · cases List.mem_singleton.mp hnew

/-- What holds of the lone write, and of the transaction of a batch. -/
def FlushState.Sound (s : FlushState apply start) : Prop :=
  match s.phase with
  | .single only _ => s.pending.head? = some only
  | .running batch out working =>
      out.length ≤ batch.length ∧ LogsAccepted s.accepted working.log ∧
        answers working.log = answers s.store.log ++ okAnswers (batch.zip out)
  | .committed batch out =>
      out.length = batch.length ∧
        ∀ w e, (w, .error e) ∈ batch.zip out → w.id ∉ operationIds s.store.log
  | _ => True

/-- What holds of the store in every run. -/
structure FlushInvariant (s : FlushState apply start) : Prop where
  /-- every accepted write is in exactly one place -/
  placed : (s.resolutions.map Resolution.id ++ s.unanswered.map Pending.id).Perm
    (List.range s.accepted.length)
  /-- a queued write is the accepted write of its number -/
  queued : ∀ w ∈ s.unanswered, s.accepted[w.id]? = some w.write
  logged : LogsAccepted s.accepted s.store.log
  /-- what is logged, and what may be logged, is in the order of arrival -/
  ordered : (operationIds s.store.log ++ s.unlogged.map Pending.id).Pairwise (· < ·)
  /-- the transaction of the batch extends the committed history -/
  sound : s.Sound
  /-- rows are handed out for logged answers only, and those still owed are logged -/
  rowsLogged : ∀ id rows, s.Returned id rows ∨ (id, rows) ∈ s.owed →
    (id, rows) ∈ answers s.store.log
  /-- every logged answer was handed out or is still owed -/
  loggedRows : ∀ id rows, (id, rows) ∈ answers s.store.log →
    s.Returned id rows ∨ (id, rows) ∈ s.owed
  /-- a write resolved with an error is not logged -/
  errorsUnlogged : ∀ resolution ∈ s.resolutions, (∀ rows, resolution.outcome ≠ .rows rows) →
    resolution.id ∉ operationIds s.store.log
  /-- a turn resolves its writes at its end -/
  turnsPast : ∀ resolution ∈ s.resolutions, resolution.turn ≤ s.turn ∧
    (s.phase ≠ .between → resolution.turn < s.turn)
  /-- a turn that ended with an error answers all its writes with that error -/
  uniform : ∀ resolution ∈ s.resolutions, ∀ other ∈ s.resolutions, other.turn = resolution.turn →
    ∀ e, resolution.outcome = .aborted e → other.outcome = .aborted e

theorem FlushInvariant.fresh : FlushInvariant (FlushState.fresh apply start) where
  placed := List.Perm.refl _
  queued w hw := by cases hw
  logged id write nowMs rows h := by cases h
  ordered := List.Pairwise.nil
  sound := trivial
  rowsLogged id rows h := by
    rcases h with ⟨resolution, hmem, -⟩ | h
    · cases hmem
    · cases h
  loggedRows id rows h := by cases h
  errorsUnlogged resolution h := by cases h
  turnsPast resolution h := by cases h
  uniform resolution h := by cases h

/-! ### Kinds of steps -/

variable {s s' : FlushState apply start}

theorem unlogged_subset {w : Pending W} (hw : w ∈ s.unlogged) : w ∈ s.unanswered := by
  unfold FlushState.unlogged at hw
  unfold FlushState.unanswered
  split at hw
  · rename_i hphase
    rw [hphase]
    exact hw
  · rename_i hphase
    rw [hphase]
    exact List.mem_of_mem_tail hw
  · split
    · exact List.mem_append_right _ hw
    · exact List.mem_append_right _ hw
    · exact hw

/-- What may still be logged is not logged. -/
theorem FlushInvariant.not_logged (h : FlushInvariant s) {w : Pending W} (hw : w ∈ s.unlogged) :
    w.id ∉ operationIds s.store.log := by
  intro hmem
  have hlt := (List.pairwise_append.mp h.ordered).2.2 _ hmem _ (List.mem_map_of_mem hw)
  omega

/-- What is unanswered was not resolved. -/
theorem FlushInvariant.not_resolved (h : FlushInvariant s) {w : Pending W}
    (hw : w ∈ s.unanswered) {resolution : Resolution R} (hmem : resolution ∈ s.resolutions) :
    resolution.id ≠ w.id := by
  have hnodup := h.placed.nodup_iff.mpr List.nodup_range
  exact (List.nodup_append.mp hnodup).2.2 _ (List.mem_map_of_mem hmem) _ (List.mem_map_of_mem hw)

theorem unanswered_fetch (s : FlushState apply start) (write : W) :
    (s.fetch write).unanswered = s.unanswered ++ [⟨s.accepted.length, write⟩] := by
  simp only [FlushState.unanswered, FlushState.fetch]
  split <;> simp only [List.append_assoc]

/-- A write arrives. -/
theorem FlushInvariant.of_fetch (h : FlushInvariant s) (write : W) :
    FlushInvariant (s.fetch write) := by
  have hunlogged : (s.fetch write).unlogged = s.unlogged ++ [⟨s.accepted.length, write⟩] := by
    have hsound := h.sound
    simp only [FlushState.unlogged, FlushState.fetch]
    split
    · exact (List.append_assoc ..).symm
    · rename_i hphase
      simp only [FlushState.Sound, hphase] at hsound
      exact List.tail_append_of_ne_nil (by rintro hnil; simp [hnil] at hsound)
    · rfl
  refine { placed := ?_, queued := ?_, logged := h.logged.accept write, ordered := ?_, sound := ?_,
           rowsLogged := h.rowsLogged, loggedRows := h.loggedRows,
           errorsUnlogged := h.errorsUnlogged, turnsPast := h.turnsPast, uniform := h.uniform }
  · rw [unanswered_fetch, List.map_append, ← List.append_assoc]
    simp only [FlushState.fetch, List.length_append, List.length_singleton, List.range_succ]
    exact h.placed.append_right _
  · intro w hw
    rw [unanswered_fetch, List.mem_append] at hw
    rcases hw with hold | hnew
    · have hw := h.queued w hold
      rw [FlushState.fetch, List.getElem?_append_left (List.getElem?_eq_some_iff.mp hw).1]
      exact hw
    · cases List.mem_singleton.mp hnew
      simp [FlushState.fetch]
  · rw [hunlogged, List.map_append, ← List.append_assoc]
    refine List.pairwise_append.mpr ⟨h.ordered, List.pairwise_singleton _ _, ?_⟩
    -- the new number is the largest
    intro id hid new hnew
    cases List.mem_singleton.mp hnew
    rcases List.mem_append.mp hid with hlogged | hqueued
    · rcases mem_operationIds.mp hlogged with ⟨op, nowMs, rows, hmem⟩
      exact (List.getElem?_eq_some_iff.mp (h.logged id op nowMs rows hmem)).1
    · rcases List.mem_map.mp hqueued with ⟨w, hw, rfl⟩
      exact (List.getElem?_eq_some_iff.mp (h.queued w (unlogged_subset hw))).1
  · have hsound := h.sound
    simp only [FlushState.Sound, FlushState.fetch] at hsound ⊢
    split at hsound
    · rw [List.head?_append, hsound]
      rfl
    · exact ⟨hsound.1, hsound.2.1.accept write, hsound.2.2⟩
    · exact hsound
    · trivial

/-- Steps that neither accept, log nor resolve a write. -/
theorem FlushInvariant.of_quiet (h : FlushInvariant s) (haccepted : s'.accepted = s.accepted)
    (hresolutions : s'.resolutions = s.resolutions)
    (hanswers : answers s'.store.log = answers s.store.log)
    (hlogged : LogsAccepted s.accepted s'.store.log) (hunanswered : s'.unanswered = s.unanswered)
    (hunlogged : s'.unlogged = s.unlogged) (howed : s'.owed = s.owed) (hsound : s'.Sound)
    (hturns : ∀ resolution ∈ s.resolutions, resolution.turn ≤ s'.turn ∧
      (s'.phase ≠ .between → resolution.turn < s'.turn)) : FlushInvariant s' where
  placed := by
    rw [hresolutions, hunanswered, haccepted]
    exact h.placed
  queued := by
    rw [hunanswered, haccepted]
    exact h.queued
  logged := by
    rw [haccepted]
    exact hlogged
  ordered := by
    rw [operationIds, hanswers, hunlogged]
    exact h.ordered
  sound := hsound
  rowsLogged := by
    rw [hanswers, howed]
    simp only [FlushState.Returned, hresolutions]
    exact h.rowsLogged
  loggedRows := by
    rw [hanswers, howed]
    simp only [FlushState.Returned, hresolutions]
    exact h.loggedRows
  errorsUnlogged := by
    rw [operationIds, hanswers, hresolutions]
    exact h.errorsUnlogged
  turnsPast := by
    rw [hresolutions]
    exact hturns
  uniform := by
    rw [hresolutions]
    exact h.uniform

/-- Steps that log the answers they come to owe. -/
theorem FlushInvariant.of_log (h : FlushInvariant s) (haccepted : s'.accepted = s.accepted)
    (hresolutions : s'.resolutions = s.resolutions) (howed : s.owed = [])
    (hanswers : answers s'.store.log = answers s.store.log ++ s'.owed)
    (hlogged : LogsAccepted s.accepted s'.store.log) (hunanswered : s'.unanswered = s.unanswered)
    (hunlogged : (s'.owed.map Prod.fst ++ s'.unlogged.map Pending.id).Sublist
      (s.unlogged.map Pending.id)) (hsound : s'.Sound)
    (hturns : ∀ resolution ∈ s.resolutions, resolution.turn ≤ s'.turn ∧
      (s'.phase ≠ .between → resolution.turn < s'.turn)) : FlushInvariant s' where
  placed := by
    rw [hresolutions, hunanswered, haccepted]
    exact h.placed
  queued := by
    rw [hunanswered, haccepted]
    exact h.queued
  logged := by
    rw [haccepted]
    exact hlogged
  ordered := by
    rw [operationIds, hanswers, List.map_append, List.append_assoc]
    exact h.ordered.sublist (hunlogged.append_left _)
  sound := hsound
  rowsLogged id rows hrows := by
    rw [hanswers, List.mem_append]
    simp only [FlushState.Returned, hresolutions] at hrows
    rcases hrows with hreturned | howes
    · exact Or.inl (h.rowsLogged id rows (Or.inl hreturned))
    · exact Or.inr howes
  loggedRows id rows hmem := by
    simp only [FlushState.Returned, hresolutions]
    rw [hanswers, List.mem_append] at hmem
    rcases hmem with hold | hnew
    · rcases h.loggedRows id rows hold with hreturned | howes
      · exact Or.inl hreturned
      · rw [howed] at howes
        cases howes
    · exact Or.inr hnew
  errorsUnlogged resolution hresolution herror hmem := by
    rw [hresolutions] at hresolution
    rw [operationIds, hanswers, List.map_append, List.mem_append] at hmem
    rcases hmem with hold | hnew
    · exact h.errorsUnlogged resolution hresolution herror hold
    · -- what is logged now was not resolved before
      rcases List.mem_map.mp (hunlogged.subset (List.mem_append_left _ hnew)) with ⟨w, hw, hid⟩
      exact h.not_resolved (unlogged_subset hw) hresolution hid.symm
  turnsPast := by
    rw [hresolutions]
    exact hturns
  uniform := by
    rw [hresolutions]
    exact h.uniform

/-- Steps that end a turn: they resolve the first of the unanswered writes. -/
theorem FlushInvariant.of_resolve (h : FlushInvariant s) {rest : List (Pending W)}
    {resolutions : List (Resolution R)} (hphase : s.phase ≠ .between)
    (hunanswered : s.unanswered.map Pending.id =
      resolutions.map Resolution.id ++ rest.map Pending.id)
    (hrest : rest.Sublist s.unlogged) (hturn : ∀ r ∈ resolutions, r.turn = s.turn)
    (howed : ∀ id rows, (id, rows) ∈ s.owed ↔
      ∃ r ∈ resolutions, r.id = id ∧ r.outcome = .rows rows)
    (herrors : ∀ r ∈ resolutions, (∀ rows, r.outcome ≠ .rows rows) →
      r.id ∉ operationIds s.store.log)
    (huniform : ∀ r ∈ resolutions, ∀ other ∈ resolutions, ∀ e, r.outcome = .aborted e →
      other.outcome = .aborted e) :
    FlushInvariant { s with
      pending := rest, phase := .between, resolutions := s.resolutions ++ resolutions } where
  placed := by
    have hplaced := h.placed
    rw [hunanswered, ← List.append_assoc, ← List.map_append] at hplaced
    exact hplaced
  queued w hw := h.queued w (unlogged_subset (hrest.subset hw))
  logged := h.logged
  ordered := h.ordered.sublist ((hrest.map Pending.id).append_left _)
  sound := trivial
  rowsLogged id rows hrows := by
    rcases hrows with ⟨r, hr, hid, houtcome⟩ | howes
    · rcases List.mem_append.mp hr with hold | hnew
      · exact h.rowsLogged id rows (Or.inl ⟨r, hold, hid, houtcome⟩)
      · exact h.rowsLogged id rows (Or.inr ((howed id rows).mpr ⟨r, hnew, hid, houtcome⟩))
    · cases howes
  loggedRows id rows hmem := by
    left
    rcases h.loggedRows id rows hmem with ⟨r, hr, hanswer⟩ | howes
    · exact ⟨r, List.mem_append_left _ hr, hanswer⟩
    · rcases (howed id rows).mp howes with ⟨r, hr, hanswer⟩
      exact ⟨r, List.mem_append_right _ hr, hanswer⟩
  errorsUnlogged r hr herror := by
    rcases List.mem_append.mp hr with hold | hnew
    · exact h.errorsUnlogged r hold herror
    · exact herrors r hnew herror
  turnsPast r hr := by
    refine ⟨?_, fun hne => absurd rfl hne⟩
    rcases List.mem_append.mp hr with hold | hnew
    · exact (h.turnsPast r hold).1
    · exact Nat.le_of_eq (hturn r hnew)
  uniform r hr other hother hsame e houtcome := by
    -- earlier resolutions are of earlier turns
    rcases List.mem_append.mp hr with hr | hr <;> rcases List.mem_append.mp hother with ho | ho
    · exact h.uniform r hr other ho hsame e houtcome
    · have := (h.turnsPast r hr).2 hphase
      have := hturn other ho
      omega
    · have := (h.turnsPast other ho).2 hphase
      have := hturn r hr
      omega
    · exact huniform r hr other ho e houtcome

/-- A turn that answers every write with the result of its own statement. -/
theorem FlushInvariant.of_resolveEach (h : FlushInvariant s) {batch rest : List (Pending W)}
    {out : List (Except SqliteError R)} (hphase : s.phase ≠ .between)
    (hlength : out.length = batch.length) (hunanswered : s.unanswered = batch ++ rest)
    (hrest : rest.Sublist s.unlogged) (howed : s.owed = okAnswers (batch.zip out))
    (herrors : ∀ w e, (w, .error e) ∈ batch.zip out → w.id ∉ operationIds s.store.log) :
    FlushInvariant ({ s with pending := rest }.resolveEach batch out) := by
  refine h.of_resolve hphase ?_ hrest ?_ ?_ ?_ ?_
  · have hids : ((batch.zip out).map Prod.fst).map Pending.id = batch.map Pending.id := by
      rw [List.map_fst_zip (Nat.le_of_eq hlength.symm)]
    rw [hunanswered, List.map_append, List.map_map, ← hids, List.map_map]
    rfl
  · intro r hr
    rcases List.mem_map.mp hr with ⟨member, -, rfl⟩
    rfl
  · intro id rows
    rw [howed, mem_okAnswers]
    constructor
    · rintro ⟨w, hmem, rfl⟩
      exact ⟨_, List.mem_map_of_mem hmem, rfl, rfl⟩
    · rintro ⟨r, hr, rfl, houtcome⟩
      rcases List.mem_map.mp hr with ⟨⟨w, result⟩, hmem, rfl⟩
      cases result with
      | error e => cases houtcome
      | ok rows' =>
          cases houtcome
          exact ⟨w, hmem, rfl⟩
  · intro r hr herror
    rcases List.mem_map.mp hr with ⟨⟨w, result⟩, hmem, rfl⟩
    cases result with
    | error e => exact herrors w e hmem
    | ok rows => exact absurd rfl (herror rows)
  · intro r hr other _ e houtcome
    rcases List.mem_map.mp hr with ⟨⟨w, result⟩, -, rfl⟩
    cases result <;> cases houtcome

/-- Nothing of a turn that an error can end is committed. -/
theorem FlushPhase.Abortable.uncommitted (h : s.phase.Abortable) :
    s.phase ≠ .between ∧ s.unlogged = s.unanswered ∧ s.owed = [] := by
  unfold FlushState.unlogged FlushState.unanswered FlushState.owed
  cases hphase : s.phase <;> rw [hphase] at h <;> cases h <;> simp

/-- A turn that ends with an error before anything of it is committed. -/
theorem FlushInvariant.of_rejectAll (h : FlushInvariant s) {writes rest : List (Pending W)}
    {e : SqliteError} (hphase : s.phase.Abortable) (hunanswered : s.unanswered = writes ++ rest) :
    FlushInvariant ({ s with pending := rest }.rejectAll writes e) := by
  rcases hphase.uncommitted with ⟨hbetween, hunlogged, howed⟩
  refine h.of_resolve hbetween ?_ ?_ ?_ ?_ ?_ ?_
  · rw [hunanswered, List.map_append, List.map_map]
    rfl
  · rw [hunlogged, hunanswered]
    exact List.sublist_append_right _ _
  · intro r hr
    rcases List.mem_map.mp hr with ⟨w, -, rfl⟩
    rfl
  · intro id rows
    rw [howed]
    constructor
    · intro hmem
      cases hmem
    · rintro ⟨r, hr, -, houtcome⟩
      rcases List.mem_map.mp hr with ⟨w, -, rfl⟩
      cases houtcome
  · intro r hr _
    rcases List.mem_map.mp hr with ⟨w, hw, rfl⟩
    refine h.not_logged (w := w) ?_
    rw [hunlogged, hunanswered]
    exact List.mem_append_left _ hw
  · intro r hr other hother e' houtcome
    rcases List.mem_map.mp hr with ⟨w, -, rfl⟩
    rcases List.mem_map.mp hother with ⟨w', -, rfl⟩
    exact houtcome

/-! ### Every step -/

/-- A lone write is the first and the only unanswered one. -/
theorem FlushInvariant.single_eq (h : FlushInvariant s) {only : Pending W} {rows : Option R}
    (hphase : s.phase = .single only rows) : s.unanswered = [only] ++ s.pending.tail := by
  have hsound := h.sound
  simp only [FlushState.Sound, hphase] at hsound
  simp only [FlushState.unanswered, hphase]
  exact List.eq_cons_of_mem_head? hsound

/-- Results of one batch belong to different writes. -/
theorem zip_result_unique {batch : List (Pending W)} {out : List (Except SqliteError R)}
    (hnodup : (batch.map Pending.id).Nodup) {w w' : Pending W} {result result' : Except SqliteError R}
    (hw : (w, result) ∈ batch.zip out) (hw' : (w', result') ∈ batch.zip out) (hid : w.id = w'.id) :
    result = result' := by
  have hsub := (zip_ids_sublist batch out).nodup hnodup
  exact congrArg Prod.snd (List.inj_on_of_nodup_map hsub hw hw' hid)

/-- During a turn, all resolutions are of earlier turns. -/
theorem FlushInvariant.turns_during (h : FlushInvariant s) (hphase : s.phase ≠ .between)
    (phase : FlushPhase apply start) : ∀ resolution ∈ s.resolutions,
      resolution.turn ≤ s.turn ∧ (phase ≠ .between → resolution.turn < s.turn) :=
  fun r hr => ⟨(h.turnsPast r hr).1, fun _ => (h.turnsPast r hr).2 hphase⟩

/-- All resolutions are of turns before the next one. -/
theorem FlushInvariant.turns_next (h : FlushInvariant s) (phase : FlushPhase apply start) :
    ∀ resolution ∈ s.resolutions, resolution.turn ≤ s.turn + 1 ∧
      (phase ≠ .between → resolution.turn < s.turn + 1) :=
  fun r hr => ⟨Nat.le_succ_of_le (h.turnsPast r hr).1, fun _ => Nat.lt_succ_of_le (h.turnsPast r hr).1⟩

/-- The lone write is executed. -/
theorem FlushInvariant.of_executedSingle (h : FlushInvariant s) {only : Pending W}
    (hphase : s.phase = .single only none) (nowMs : Int) :
    FlushInvariant { s with
      store := s.store.perform only.id only.write nowMs
      phase := .single only (some (s.store.answer only.write nowMs)) } := by
  have honly := h.single_eq hphase
  have hmem : only ∈ s.unanswered := by
    rw [honly]
    exact List.mem_append_left _ (List.mem_singleton_self _)
  have hlogged := h.logged.perform (h.queued only hmem) nowMs
  refine h.of_log rfl rfl ?_ (History.answers_perform ..) hlogged ?_ ?_ ?_ ?_
  · simp only [FlushState.owed, hphase]
  · simp only [FlushState.unanswered, hphase]
  · have hunlogged : s.unlogged = s.unanswered := by
      simp only [FlushState.unlogged, FlushState.unanswered, hphase]
    rw [hunlogged, honly]
    exact List.Sublist.refl _
  · simpa only [FlushState.Sound, hphase] using h.sound
  · exact h.turns_during (by simp [hphase]) _

/-- A statement of the batch is executed, or fails and leaves the transaction open. -/
theorem FlushInvariant.of_result (h : FlushInvariant s) {batch : List (Pending W)}
    {out : List (Except SqliteError R)} {working working' : History apply start}
    {member : Pending W} {result : Except SqliteError R}
    (hphase : s.phase = .running batch out working) (hmember : batch[out.length]? = some member)
    (hlogged : LogsAccepted s.accepted working.log → LogsAccepted s.accepted working'.log)
    (hanswers : answers working'.log = answers working.log ++ okAnswers [(member, result)]) :
    FlushInvariant { s with phase := .running batch (out ++ [result]) working' } := by
  have hsound := h.sound
  simp only [FlushState.Sound, hphase] at hsound
  refine h.of_quiet rfl rfl rfl h.logged ?_ ?_ ?_ ?_ ?_
  · simp only [FlushState.unanswered, hphase]
  · simp only [FlushState.unlogged, hphase]
  · simp only [FlushState.owed, hphase]
  · refine ⟨?_, hlogged hsound.2.1, ?_⟩
    · rw [List.length_append]
      exact (List.getElem?_eq_some_iff.mp hmember).1
    · rw [hanswers, hsound.2.2, List.append_assoc, zip_concat _ hmember, okAnswers, okAnswers,
        okAnswers, List.filterMap_append]
  · exact h.turns_during (by simp [hphase]) _

/-- The transaction of the batch is committed. -/
theorem FlushInvariant.of_committed (h : FlushInvariant s) {batch : List (Pending W)}
    {out : List (Except SqliteError R)} {working : History apply start}
    (hphase : s.phase = .running batch out working) (hall : batch.length ≤ out.length) :
    FlushInvariant { s with store := working, phase := .committed batch out } := by
  have hsound := h.sound
  simp only [FlushState.Sound, hphase] at hsound
  rcases hsound with ⟨hlength, hlogged, hanswers⟩
  have hunlogged : s.unlogged = batch ++ s.pending := by
    simp only [FlushState.unlogged, hphase]
  refine h.of_log rfl rfl ?_ hanswers hlogged ?_ ?_ ?_ ?_
  · simp only [FlushState.owed, hphase]
  · simp only [FlushState.unanswered, hphase]
  · have hids := (okAnswers_sublist (batch.zip out)).trans (zip_ids_sublist batch out)
    rw [hunlogged, List.map_append]
    exact hids.append_right _
  · refine ⟨by omega, ?_⟩
    -- a member with an error has no answer: its result in the batch is the error
    intro w e hw hmem
    rw [operationIds, hanswers, List.map_append, List.mem_append] at hmem
    rcases hmem with hold | hnew
    · refine h.not_logged ?_ hold
      rw [hunlogged]
      exact List.mem_append_left _ (List.of_mem_zip hw).1
    · rcases List.mem_map.mp hnew with ⟨⟨id, rows⟩, hanswer, hid⟩
      rcases mem_okAnswers.mp hanswer with ⟨w', hw', rfl⟩
      have hordered := (List.pairwise_append.mp h.ordered).2.1
      rw [hunlogged, List.map_append] at hordered
      have hnodup := (List.pairwise_append.mp hordered).1.imp Nat.ne_of_lt
      cases zip_result_unique hnodup hw hw' hid.symm
  · exact h.turns_during (by simp [hphase]) _

/-- The lone write fails. -/
theorem FlushInvariant.of_rejectedSingle (h : FlushInvariant s) {only : Pending W}
    (hphase : s.phase = .single only none) (e : SqliteError) :
    FlushInvariant ({ s with pending := s.pending.tail }.resolveEach [only] [.error e]) := by
  have honly := h.single_eq hphase
  have hunlogged : s.unlogged = s.unanswered := by
    simp only [FlushState.unlogged, FlushState.unanswered, hphase]
  refine h.of_resolveEach (by simp [hphase]) rfl honly ?_ ?_ ?_
  · rw [hunlogged, honly]
    exact List.sublist_append_right _ _
  · simp only [FlushState.owed, hphase]
    rfl
  · intro w e' hw
    cases List.mem_singleton.mp hw
    refine h.not_logged ?_
    rw [hunlogged, honly]
    exact List.mem_append_left _ (List.mem_singleton_self _)

theorem FlushInvariant.of_case (h : FlushInvariant s) (hcase : FlushCase s s') :
    FlushInvariant s' := by
  have hsound := h.sound
  cases hcase with
  | accepted write => exact h.of_fetch write
  | external change hphase =>
      refine h.of_quiet rfl rfl (History.answers_external ..) (h.logged.external change) rfl rfl rfl
        ?_ h.turnsPast
      simp only [FlushState.Sound] at hsound ⊢
      split at hsound
      · exact hsound
      · rename_i hrunning
        rw [hrunning] at hphase
        cases hphase
      · rw [operationIds, History.answers_external]
        exact hsound
      · trivial
  | startedSingle only hphase hpending =>
      refine h.of_quiet rfl rfl rfl h.logged ?_ ?_ ?_ ?_ (h.turns_next _)
      · simp only [FlushState.unanswered, hphase]
      · simp only [FlushState.unlogged, hphase]
      · simp only [FlushState.owed, hphase]
      · simp only [FlushState.Sound, hpending, List.head?_cons]
  | startedBatch hphase =>
      refine h.of_quiet rfl rfl rfl h.logged ?_ ?_ ?_ trivial (h.turns_next _)
      · simp only [FlushState.unanswered, hphase]
      · simp only [FlushState.unlogged, hphase]
      · simp only [FlushState.owed, hphase]
  | executedSingle only nowMs hphase => exact h.of_executedSingle hphase nowMs
  | began hphase =>
      refine h.of_quiet rfl rfl rfl h.logged ?_ ?_ ?_ ?_ (h.turns_during (by simp [hphase]) _)
      · simp only [FlushState.unanswered, hphase, List.append_nil]
      · simp only [FlushState.unlogged, hphase, List.append_nil]
      · simp only [FlushState.owed, hphase]
      · refine ⟨Nat.zero_le _, h.logged, ?_⟩
        rw [List.zip_nil_right]
        exact (List.append_nil _).symm
  | executed batch out working member nowMs hphase hmember =>
      have hmem : member ∈ s.unanswered := by
        simp only [FlushState.unanswered, hphase]
        exact List.mem_append_left _ (List.mem_of_getElem? hmember)
      exact h.of_result hphase hmember (fun hlogged => hlogged.perform (h.queued member hmem) nowMs)
        (History.answers_perform ..)
  | failed batch out working member e hphase hmember =>
      exact h.of_result hphase hmember (fun hlogged => hlogged) (List.append_nil _).symm
  | committed batch out working hphase hall => exact h.of_committed hphase hall
  | putBack e hphase =>
      rcases hphase.uncommitted with ⟨hbetween, hunlogged, howed⟩
      exact h.of_quiet rfl rfl rfl h.logged rfl hunlogged.symm howed.symm trivial
        (h.turns_during hbetween _)
  | rejectedSingle only e hphase => exact h.of_rejectedSingle hphase e
  | rejectedAll writes rest e hphase hwrites => exact h.of_rejectAll hphase hwrites
  | resolvedSingle only rows hphase =>
      refine h.of_resolveEach (by simp [hphase]) rfl (h.single_eq hphase) ?_ ?_ ?_
      · simp only [FlushState.unlogged, hphase]
        exact List.Sublist.refl _
      · simp only [FlushState.owed, hphase]
        rfl
      · intro w e hw
        cases List.mem_singleton.mp hw
  | resolvedBatch batch out hphase =>
      simp only [FlushState.Sound, hphase] at hsound
      have hunanswered : s.unanswered = batch ++ s.pending := by
        simp only [FlushState.unanswered, hphase]
      refine h.of_resolveEach (by simp [hphase]) hsound.1 hunanswered ?_ ?_ hsound.2
      · simp only [FlushState.unlogged, hphase]
        exact List.Sublist.refl _
      · simp only [FlushState.owed, hphase]
  | retried e hphase =>
      refine h.of_quiet rfl rfl rfl h.logged ?_ ?_ ?_ trivial (h.turns_during (by simp [hphase]) _)
      · simp only [FlushState.unanswered, hphase]
      · simp only [FlushState.unlogged, hphase]
      · simp only [FlushState.owed, hphase]

theorem FlushInvariant.of_step {sdk : Sdk} {l : FlushStep D W} (h : FlushInvariant s)
    (hstep : flushing sdk apply start s l = some s') : FlushInvariant s' :=
  h.of_case (flushStep_cases hstep)

/-! ## Each write exactly once -/

/-- Group commit as its callers see it. -/
structure GroupCommitted (s : FlushState apply start) : Prop where
  /-- no future is resolved more than once -/
  resolvedOnce : (s.resolutions.map Resolution.id).Nodup
  /-- a write resolved with rows is committed exactly once, and its rows are the ones its own
  statement returned there -/
  rowsAppliedOnce : ∀ resolution ∈ s.resolutions, ∀ rows, resolution.outcome = .rows rows →
    ∃ before write nowMs after,
      s.store.log = before ++ .operation resolution.id write nowMs rows :: after ∧
      s.accepted[resolution.id]? = some write ∧
      rows = (apply nowMs write (replay apply start before)).2 ∧
      resolution.id ∉ operationIds before ∧ resolution.id ∉ operationIds after
  /-- a write resolved with an error left nothing in the committed state -/
  errorsWithoutEffect : ∀ resolution ∈ s.resolutions, (∀ rows, resolution.outcome ≠ .rows rows) →
    resolution.id ∉ operationIds s.store.log
  /-- when one write of a turn is resolved with the error of its own statement, every other one
  is resolved with the result of its own statement -/
  errorsApart : ∀ resolution ∈ s.resolutions, ∀ other ∈ s.resolutions,
    other.turn = resolution.turn → ∀ e, resolution.outcome = .failed e →
      ∀ e', other.outcome ≠ .aborted e'
  /-- the committed state is the one the logged writes lead to, executed one by one -/
  serial : s.store.datum = replay apply start s.store.log
  /-- the logged writes are in the order of arrival -/
  inArrivalOrder : (operationIds s.store.log).Pairwise (· < ·)
  /-- the logged writes are those resolved with rows, and those of the turn that is committed and
  about to hand out its rows -/
  successful : ∀ id rows, (id, rows) ∈ answers s.store.log ↔
    s.Returned id rows ∨ (id, rows) ∈ s.owed

/-- An answer of a log whose numbers are increasing is there once. -/
theorem operationIds_split {log before after : List (LogEntry D W R Int)} {id : Nat} {write : W}
    {nowMs : Int} {rows : R} (hordered : (operationIds log).Pairwise (· < ·))
    (hsplit : log = before ++ .operation id write nowMs rows :: after) :
    id ∉ operationIds before ∧ id ∉ operationIds after := by
  have hids : operationIds (.operation id write nowMs rows :: after) = id :: operationIds after := rfl
  rw [hsplit, operationIds_append, hids] at hordered
  have hparts := List.pairwise_append.mp hordered
  constructor
  · intro hmem
    have := hparts.2.2 id hmem id List.mem_cons_self
    omega
  · intro hmem
    have := (List.pairwise_cons.mp hparts.2.1).1 id hmem
    omega

theorem FlushInvariant.groupCommitted (h : FlushInvariant s) : GroupCommitted s where
  resolvedOnce := (List.nodup_append.mp (h.placed.nodup_iff.mpr List.nodup_range)).1
  rowsAppliedOnce := by
    intro resolution hmem rows houtcome
    have hanswer := h.rowsLogged resolution.id rows (Or.inl ⟨resolution, hmem, rfl, houtcome⟩)
    rcases s.store.answer_at hanswer with ⟨before, write, nowMs, after, hsplit, hrows⟩
    have hlogged := h.logged resolution.id write nowMs rows (by rw [hsplit]; simp)
    exact ⟨before, write, nowMs, after, hsplit, hlogged, hrows,
      operationIds_split (List.pairwise_append.mp h.ordered).1 hsplit⟩
  errorsWithoutEffect := h.errorsUnlogged
  errorsApart := by
    intro resolution hmem other hother hsame e houtcome e' haborted
    have := h.uniform other hother resolution hmem hsame.symm e' haborted
    rw [houtcome] at this
    cases this
  serial := s.store.replayed
  inArrivalOrder := (List.pairwise_append.mp h.ordered).1
  successful id rows := ⟨h.loggedRows id rows, h.rowsLogged id rows⟩

/-- The write lock is held by another connection. -/
def lockedError : SqliteError where
  operational := true
  code := some "SQLITE_BUSY"
  message := "database is locked"

/-- Two submits of one id share a transaction whose commit finds the write lock taken; the
batch is put back, a claim arrives behind it, and the retried batch commits without the
second submit, which violates the primary key. -/
def retriedRun : List (FlushStep (Database Nat) (Statement Nat)) :=
  [.fetch (.insertTask (.plain "t" "work" 3 0)),
    .fetch (.insertTask (.plain "t" "work" 3 1)),
    .turn, .succeed 0, .succeed 0, .fail ⟨false, some "SQLITE_CONSTRAINT", ""⟩ true,
    .fail lockedError true, .retry,
    .fetch (.claim (.claimOneQueue "default" none) "w" 10 1),
    .turn, .succeed 5, .succeed 5, .fail ⟨false, some "SQLITE_CONSTRAINT", ""⟩ true, .succeed 6,
    .succeed 6, .resume]

/-- The state at the end of that run. -/
def retriedState : FlushState (Sqlite.exec (J := Nat)) .empty :=
  (flushing .python Sqlite.exec .empty).drive (FlushState.fresh Sqlite.exec .empty) retriedRun

end CairnQ
