import CairnQ.Worker.ContextWatch

/-!
# Settling through a context

A write that was issued before the settlement of its context and is executed after it
matches no row.  `_heartbeat_loop` looks at `settled` again before it reads this as a
lost lease; `_owned` does not, and for the loop the flag can still be down.

Main results:

- Theorem `Watched.of_step`: what every step of a run keeps in which no write of the context
  is executed late and no late beat is read early.
- Theorem `settle_once`: in such a run one settlement is recorded, every other settle call
  is a no-op, and `lost_lease` has a real cause.
- Theorem `settle_once_fails`: two concurrent calls of `succeed`, and a beat read early.
-/

namespace CairnQ

open Relational Transition

variable {J : Type}

/-! ## The condition -/

/-- No write of the context is executed after a settlement was recorded; and between the
settlement and the reading of its answer no beat is read that came back without the task, and
the attempt is not abandoned. -/
def SettlesQuietly (i : Nat) (s : Watch J) : WatchStep J → Prop
  | .other (.perform n _ _) => ∀ w, s.system.writes[n]? = some w → i ∈ w.deliveries →
      w.origin ≠ .heartbeatLoop → w.origin ≠ .safeFail → s.recorded = 0
  | .other (.answer n) => ∀ w reply dl, s.system.writes[n]? = some w → w.reply = some reply →
      s.system.deliveries[i]? = some dl → i ∈ w.deliveries → w.origin = .heartbeatLoop →
      reply.names dl.taskId = false → s.recorded = 0 ∨ dl.settled = true
  | .other (.timeout j) => ∀ dl, s.system.deliveries[i]? = some dl → j = i →
      s.recorded = 0 ∨ dl.settled = true
  | _ => True

/-! ## The invariant -/

/-- An executed settle call of the watched context, not yet answered. -/
def PendingWrite.unread (i : Nat) (w : PendingWrite J) : Bool :=
  w.reply.isSome && (decide (w.origin = .context true) && decide (i ∈ w.deliveries))

theorem countP_unread (i : Nat) (writes : List (PendingWrite J)) :
    (writes.filter fun w => w.reply.isSome).countP (PendingWrite.unread i) =
      writes.countP (PendingWrite.unread i) := by
  rw [List.countP_filter]
  refine List.countP_congr fun w _ => ?_
  simp only [PendingWrite.unread, Bool.and_eq_true]
  tauto

/-- No settlement has been executed: nothing is recorded, and a settle call that is over found the
lease lost. -/
structure Watch.Early (i : Nat) (s : Watch J) : Prop where
  recorded : s.recorded = 0
  unexecuted : ∀ w ∈ s.system.writes, w.settlesFor i = true → w.reply = none
  unsettled : ∀ dl, s.system.deliveries[i]? = some dl → dl.settled = false
  results : ∀ r ∈ s.results, r = .raised ∧ s.Lost

/-- The first settlement was executed under the lease: it is recorded, and no settle call finds the
lease lost. -/
structure Watch.Settled (i : Nat) (s : Watch J) : Prop where
  recorded : s.recorded = 1
  answered : ∀ w ∈ s.system.writes, i ∈ w.deliveries → w.origin ≠ .heartbeatLoop →
    w.origin ≠ .safeFail → ∀ dl reply, s.system.deliveries[i]? = some dl →
    w.reply = some reply → reply.names dl.taskId = true
  flags : ∀ dl, s.system.deliveries[i]? = some dl → dl.settled = false → dl.leaseLost = false
  results : SettleResult.raised ∉ s.results
  once : s.results.count .returned + s.system.writes.countP (PendingWrite.unread i) ≤ 1

/-- What every run keeps that settles quietly. -/
structure Watched (d : Dialect) (i : Nat) (s : Watch J) : Prop where
  reachable : ∃ clockMs, (protocol d).Reachable anyStep (ProtocolState.fresh clockMs)
    s.system.protocol
  about : ∀ w ∈ s.system.writes, w.About s.system
  kinds : ∀ w ∈ s.system.writes, w.Kind
  running : s.system.runs i = true → s.recorded = 0
  undelivered : s.system.deliveries[i]? = none → s.recorded = 0
  recorded_le : s.recorded ≤ 1
  stopped : ∀ dl, s.system.deliveries[i]? = some dl → s.system.runs i = false →
    s.recorded = 1 ∨ s.taken = true
  lost : ∀ dl, s.system.deliveries[i]? = some dl → dl.leaseLost = true → s.Lost
  /-- a write that came back without the task met a lost lease, or is a late one whose answer is
  not taken at its word -/
  missed : ∀ w ∈ s.system.writes, i ∈ w.deliveries → ∀ dl reply,
    s.system.deliveries[i]? = some dl → w.reply = some reply → reply.names dl.taskId = false →
    s.Lost ∨ (s.recorded = 1 ∧ (w.origin = .heartbeatLoop ∨ w.origin = .safeFail))
  early : s.held = none → s.Early i
  settled : s.held = some true → s.Settled i

variable {d : Dialect} {i : Nat} {s : Watch J}

theorem Watched.fresh (d : Dialect) (i : Nat) (clockMs : Int) :
    Watched d i (Watch.fresh clockMs : Watch J) where
  reachable := ⟨clockMs, Machine.Reachable.start _ _ _⟩
  about := by
    intro w hw
    cases hw
  kinds := by
    intro w hw
    cases hw
  running := fun _ => rfl
  undelivered := fun _ => rfl
  recorded_le := Nat.zero_le 1
  stopped := by
    intro dl hdl
    simp [Watch.fresh, DeliveryState.fresh] at hdl
  lost := by
    intro dl hdl
    simp [Watch.fresh, DeliveryState.fresh] at hdl
  missed := by
    intro w hw
    cases hw
  early := by
    intro _
    refine ⟨rfl, fun w hw => ?_, fun dl hdl => ?_, fun r hr => ?_⟩
    · cases hw
    · simp [Watch.fresh, DeliveryState.fresh] at hdl
    · cases hr
  settled := by
    intro h
    cases h

/-! ### Steps inside the worker -/

theorem Watched.of_quiet (h : Watched d i s) {after : DeliveryState J}
    (hquiet : Quiet i s.system after) : Watched d i { s with system := after } where
  reachable := by
    show ∃ clockMs, (protocol d).Reachable anyStep (ProtocolState.fresh clockMs) after.protocol
    rw [hquiet.localStep.protocol_eq]
    exact h.reachable
  about := hquiet.localStep.about h.about
  kinds := by
    intro w hw
    exact (hquiet.kinds w hw).elim (h.kinds w) id
  running := by
    intro hruns
    rw [hquiet.localStep.runs_eq] at hruns
    exact h.running hruns
  undelivered := fun hnone => h.undelivered (hquiet.localStep.none_before hnone)
  recorded_le := h.recorded_le
  stopped := by
    intro dl' hdl' hruns
    rw [hquiet.localStep.runs_eq] at hruns
    rcases hquiet.flags dl' hdl' with ⟨dl, hdl, -⟩
    exact h.stopped dl hdl hruns
  lost := by
    intro dl' hdl' hlost
    rcases hquiet.flags dl' hdl' with ⟨dl, hdl, -, hsame, -⟩
    exact h.lost dl hdl (hsame ▸ hlost)
  missed := by
    intro w hw hmem dl' reply hdl' hreply hnames
    rcases hquiet.flags dl' hdl' with ⟨dl, hdl, htask, -⟩
    exact h.missed w (hquiet.mem_executed hw hreply) hmem dl reply hdl hreply (htask ▸ hnames)
  early := by
    intro hheld
    rcases h.early hheld with ⟨hrecorded, hunexecuted, hunsettled, hresults⟩
    refine ⟨hrecorded, fun w hw hsettles => ?_, fun dl' hdl' => ?_, hresults⟩
    · cases hreply : w.reply with
      | none => rfl
      | some reply =>
          have hnone := hunexecuted w (hquiet.mem_executed hw hreply) hsettles
          rw [hreply] at hnone
          cases hnone
    · rcases hquiet.flags dl' hdl' with ⟨dl, hdl, -, -, hsame⟩
      rw [hsame]
      exact hunsettled dl hdl
  settled := by
    intro hheld
    rcases h.settled hheld with ⟨hrecorded, hanswered, hflags, hresults, honce⟩
    refine ⟨hrecorded, fun w hw hmem hloop hfail dl' reply hdl' hreply => ?_,
      fun dl' hdl' hopen => ?_,
      hresults, ?_⟩
    · rcases hquiet.flags dl' hdl' with ⟨dl, hdl, htask, -⟩
      rw [htask]
      exact hanswered w (hquiet.mem_executed hw hreply) hmem hloop hfail dl reply hdl hreply
    · rcases hquiet.flags dl' hdl' with ⟨dl, hdl, -, hlost, hsettled⟩
      rw [hlost]
      exact hflags dl hdl (hsettled ▸ hopen)
    · have hunread : after.writes.countP (PendingWrite.unread i) ≤
          s.system.writes.countP (PendingWrite.unread i) := by
        rw [← countP_unread, ← countP_unread i s.system.writes]
        exact hquiet.executed.countP_le
      show s.results.count .returned + after.writes.countP (PendingWrite.unread i) ≤ 1
      omega

theorem Watched.of_timeout (h : Watched d i s) {dl : Delivery}
    (hdl : s.system.deliveries[i]? = some dl) (hquiet : s.recorded = 0 ∨ dl.settled = true) :
    Watched d i
      { s with
        system := s.system.modify i fun dl => { dl with leaseLost := true }
        abandoned := true } := by
  have hlocal : LocalStep s.system (s.system.modify i fun dl => { dl with leaseLost := true }) :=
    LocalStep.of_modify hdl dl.evolves_leaseLost
  have hafter : ∀ dl', (s.system.modify i fun dl => { dl with leaseLost := true }).deliveries[i]? =
      some dl' → dl' = { dl with leaseLost := true } := by
    intro dl' hdl'
    simp only [DeliveryState.modify, List.getElem?_modify_eq, hdl, Option.map_eq_map,
      Option.map_some, Option.some.injEq] at hdl'
    exact hdl'.symm
  have habandoned : Watch.Lost
      { s with
        system := s.system.modify i fun dl => { dl with leaseLost := true }
        abandoned := true } := Or.inr (Or.inr rfl)
  refine ⟨h.reachable, hlocal.about h.about, h.kinds, fun hruns => ?_,
    fun hnone => h.undelivered (hlocal.none_before hnone), h.recorded_le, fun dl' _ hruns => ?_,
    fun _ _ _ => habandoned, fun _ _ _ _ _ _ _ _ => Or.inl habandoned,
    fun hheld => ?_, fun hheld => ?_⟩
  · rw [hlocal.runs_eq] at hruns
    exact h.running hruns
  · rw [hlocal.runs_eq] at hruns
    exact h.stopped dl hdl hruns
  · rcases h.early hheld with ⟨hrecorded, hunexecuted, hunsettled, hresults⟩
    refine ⟨hrecorded, hunexecuted, fun dl' hdl' => ?_, fun r hr => ⟨(hresults r hr).1, habandoned⟩⟩
    rw [hafter dl' hdl']
    exact hunsettled dl hdl
  · rcases h.settled hheld with ⟨hrecorded, hanswered, -, hresults, honce⟩
    refine ⟨hrecorded, fun w hw hmem hloop hfail dl' reply hdl' hreply => ?_,
      fun dl' hdl' hopen => ?_,
      hresults, honce⟩
    · rw [hafter dl' hdl']
      exact hanswered w hw hmem hloop hfail dl reply hdl hreply
    · -- an attempt is not abandoned while its settlement is unread
      rw [hafter dl' hdl'] at hopen
      rcases hquiet with hnone | hsettled
      · rw [hrecorded] at hnone
        cases hnone
      · rw [show dl.settled = false from hopen] at hsettled
        cases hsettled

/-! ### Answers -/

/-- A context loses its lease over a write that came back without the task. -/
theorem Delivery.learn_leaseLost {dl : Delivery} {origin : WriteOrigin} {named : Bool}
    (h : (dl.learn origin named).leaseLost = true) : dl.leaseLost = true ∨
      (named = false ∧ origin ≠ .safeFail ∧ (origin = .heartbeatLoop → dl.settled = false)) := by
  unfold Delivery.learn at h
  split at h
  · exact Or.inl h
  · exact Or.inl h
  · exact Or.inl h
  · exact Or.inr ⟨rfl, by simp, by simp⟩
  · exact Or.inr ⟨rfl, by simp, by simp⟩
  · split at h
    · exact Or.inl h
    · rename_i hsettled
      exact Or.inr ⟨rfl, by simp, fun _ => by simpa using hsettled⟩
  · exact Or.inl h
  · exact Or.inl h
  · exact Or.inl h

/-- A context is settled over the answer to a settlement. -/
theorem Delivery.learn_settled {dl : Delivery} {origin : WriteOrigin} {named : Bool} :
    ((dl.learn origin named).settled = true → dl.settled = true ∨ origin.settles = true) ∧
      (dl.settled = true → (dl.learn origin named).settled = true) := by
  unfold Delivery.learn
  split
  · exact ⟨fun _ => Or.inr rfl, fun _ => rfl⟩
  · exact ⟨fun _ => Or.inr rfl, fun _ => rfl⟩
  · exact ⟨fun _ => Or.inr rfl, fun _ => rfl⟩
  · exact ⟨Or.inl, id⟩
  · exact ⟨Or.inl, id⟩
  · split <;> exact ⟨Or.inl, id⟩
  · exact ⟨Or.inl, id⟩
  · exact ⟨Or.inl, id⟩
  · exact ⟨Or.inl, id⟩

theorem getElem?_answered {s : DeliveryState J} {n : Nat} {w : PendingWrite J} {reply : Reply J}
    {dl' : Delivery} (h : (s.answered n w reply).deliveries[i]? = some dl') :
    ∃ dl, s.deliveries[i]? = some dl ∧
      dl' = if i ∈ w.deliveries then dl.learn w.origin (reply.names dl.taskId) else dl := by
  simp only [DeliveryState.answered, List.getElem?_mapIdx] at h
  rcases Option.map_eq_some_iff.mp h with ⟨dl, hdl, rfl⟩
  exact ⟨dl, hdl, rfl⟩

/-- A settle call is told what its own write found. -/
theorem mem_resultOf {s : DeliveryState J} {w : PendingWrite J} {r : SettleResult}
    (h : r ∈ Watch.resultOf i s w) : ∃ dl reply, w.origin = .context true ∧ i ∈ w.deliveries ∧
      w.reply = some reply ∧ s.deliveries[i]? = some dl ∧
      r = if reply.names dl.taskId then .returned else .raised := by
  unfold Watch.resultOf at h
  split at h
  · rename_i reply dl horigin hreply hdl
    split at h
    · exact ⟨dl, reply, horigin, ‹_›, hreply, hdl, List.mem_singleton.mp h⟩
    · cases h
  · cases h

theorem length_resultOf_le (s : DeliveryState J) (w : PendingWrite J) :
    (Watch.resultOf i s w).length ≤ if w.unread i then 1 else 0 := by
  cases hresult : Watch.resultOf i s w with
  | nil => exact Nat.zero_le _
  | cons r rest =>
      have hmem : r ∈ Watch.resultOf i s w := by
        rw [hresult]
        exact List.mem_cons_self
      rcases mem_resultOf hmem with ⟨dl, reply, horigin, hi, hreply, -, -⟩
      have hunread : w.unread i = true := by
        simp [PendingWrite.unread, horigin, hi, hreply]
      have hone : (Watch.resultOf i s w).length ≤ 1 := by
        unfold Watch.resultOf
        split
        · split <;> simp
        · exact Nat.zero_le 1
      rw [hunread, if_pos rfl, ← hresult]
      exact hone

theorem Watched.of_answer (h : Watched d i s) {n : Nat} {w : PendingWrite J} {reply : Reply J}
    (hw : s.system.writes[n]? = some w) (hreply : w.reply = some reply)
    (hquiet : ∀ dl, s.system.deliveries[i]? = some dl → i ∈ w.deliveries →
      w.origin = .heartbeatLoop → reply.names dl.taskId = false →
      s.recorded = 0 ∨ dl.settled = true) :
    Watched d i (s.observe i (.answer n) (s.system.answered n w reply)) := by
  have hlocal : LocalStep s.system (s.system.answered n w reply) :=
    LocalStep.answer s.system w reply n
  have hmem : w ∈ s.system.writes := List.mem_of_getElem? hw
  have hkept : ∀ v ∈ (s.system.answered n w reply).writes, v ∈ s.system.writes := fun v hv =>
    List.mem_of_mem_eraseIdx hv
  have hresults : (s.observe i (.answer n) (s.system.answered n w reply)).results =
      s.results ++ Watch.resultOf i s.system w := by
    simp [Watch.observe, hw]
  have htask : ∀ dl', (s.system.answered n w reply).deliveries[i]? = some dl' →
      ∃ dl, s.system.deliveries[i]? = some dl ∧ dl'.taskId = dl.taskId := by
    intro dl' hdl'
    rcases hlocal.before hdl' with ⟨dl, hdl, hevolves⟩
    exact ⟨dl, hdl, hevolves.taskId⟩
  -- a context that loses its lease over the answer had lost it
  have hlost : ∀ dl', (s.system.answered n w reply).deliveries[i]? = some dl' →
      dl'.leaseLost = true → s.Lost := by
    intro dl' hdl' hflag
    rcases getElem?_answered hdl' with ⟨dl, hdl, rfl⟩
    split at hflag
    · rename_i hi
      rcases Delivery.learn_leaseLost hflag with hold | ⟨hnames, hfail, hloop⟩
      · exact h.lost dl hdl hold
      · rcases h.missed w hmem hi dl reply hdl hreply hnames with hcause | ⟨hrecorded, horigin⟩
        · exact hcause
        · have hbeat := horigin.resolve_right hfail
          rcases hquiet dl hdl hi hbeat hnames with hnone | hsettled
          · rw [hrecorded] at hnone
            cases hnone
          · rw [hloop hbeat] at hsettled
            cases hsettled
    · exact h.lost dl hdl hflag
  refine ⟨h.reachable, hlocal.about h.about, fun v hv => h.kinds v (hkept v hv), fun hruns => ?_,
    fun hnone => h.undelivered (hlocal.none_before hnone), h.recorded_le,
    fun dl' hdl' hruns => ?_, hlost, fun v hv hi dl' reply' hdl' hv' hnames => ?_,
    fun hheld => ?_, fun hheld => ?_⟩
  · exact h.running (hlocal.runs_eq i ▸ hruns)
  · rcases htask dl' hdl' with ⟨dl, hdl, -⟩
    exact h.stopped dl hdl (hlocal.runs_eq i ▸ hruns)
  · rcases htask dl' hdl' with ⟨dl, hdl, hsame⟩
    exact h.missed v (hkept v hv) hi dl reply' hdl hv' (hsame ▸ hnames)
  · rcases h.early hheld with ⟨hrecorded, hunexecuted, hunsettled, hraised⟩
    have hplain : i ∈ w.deliveries → w.origin.settles = false := by
      intro hi
      refine Bool.eq_false_iff.mpr fun hsettles => ?_
      have hnone := hunexecuted w hmem (by simp [PendingWrite.settlesFor, hi, hsettles])
      rw [hreply] at hnone
      cases hnone
    refine ⟨hrecorded, fun v hv => hunexecuted v (hkept v hv), fun dl' hdl' => ?_, fun r hr => ?_⟩
    · rcases getElem?_answered hdl' with ⟨dl, hdl, rfl⟩
      have hopen := hunsettled dl hdl
      split
      · rename_i hi
        refine Bool.eq_false_iff.mpr fun hsettled => ?_
        rcases Delivery.learn_settled.1 hsettled with hold | hsettles
        · rw [hopen] at hold
          cases hold
        · rw [hplain hi] at hsettles
          cases hsettles
      · exact hopen
    · rw [hresults] at hr
      rcases List.mem_append.mp hr with hold | hnew
      · exact hraised r hold
      · rcases mem_resultOf hnew with ⟨dl, reply', horigin, hi, -⟩
        have := hplain hi
        rw [horigin] at this
        cases this
  · rcases h.settled hheld with ⟨hrecorded, hanswered, hflags, hnotRaised, honce⟩
    refine ⟨hrecorded, fun v hv hi hloop hfail dl' reply' hdl' hv' => ?_, fun dl' hdl' hopen => ?_,
      fun hr => ?_, ?_⟩
    · rcases htask dl' hdl' with ⟨dl, hdl, hsame⟩
      rw [hsame]
      exact hanswered v (hkept v hv) hi hloop hfail dl reply' hdl hv'
    · rcases getElem?_answered hdl' with ⟨dl, hdl, rfl⟩
      split at hopen
      · rename_i hi
        have hold : dl.settled = false := by
          refine Bool.eq_false_iff.mpr fun hsettled => ?_
          rw [Delivery.learn_settled.2 hsettled] at hopen
          cases hopen
        rw [if_pos hi]
        refine Bool.eq_false_iff.mpr fun hflag => ?_
        rcases Delivery.learn_leaseLost hflag with hlost' | ⟨hnames, hfail, -⟩
        · rw [hflags dl hdl hold] at hlost'
          cases hlost'
        · by_cases hloop : w.origin = .heartbeatLoop
          · rcases hquiet dl hdl hi hloop hnames with hnone | hsettled
            · rw [hrecorded] at hnone
              cases hnone
            · rw [hold] at hsettled
              cases hsettled
          · rw [hanswered w hmem hi hloop hfail dl reply hdl hreply] at hnames
            cases hnames
      · rename_i hi
        rw [if_neg hi]
        exact hflags dl hdl hopen
    · rw [hresults] at hr
      rcases List.mem_append.mp hr with hold | hnew
      · exact hnotRaised hold
      · rcases mem_resultOf hnew with ⟨dl, reply', horigin, hi, hreply', hdl, hraised⟩
        have hnames :=
          hanswered w hmem hi (by simp [horigin]) (by simp [horigin]) dl reply' hdl hreply'
        rw [hnames] at hraised
        cases hraised
    · have hlength := length_resultOf_le (i := i) s.system w
      have hcount : (Watch.resultOf i s.system w).count .returned ≤
          (Watch.resultOf i s.system w).length := List.count_le_length
      have herase := countP_eraseIdx (PendingWrite.unread i) hw
      have hpos : w.unread i = true → 0 < s.system.writes.countP (PendingWrite.unread i) :=
        fun hunread => List.countP_pos_iff.mpr ⟨w, hmem, hunread⟩
      show (s.observe i (.answer n) (s.system.answered n w reply)).results.count .returned +
        (s.system.writes.eraseIdx n).countP (PendingWrite.unread i) ≤ 1
      rw [hresults, List.count_append, herase]
      split at hlength
      · have := hpos ‹_›
        rw [if_pos ‹_›]
        omega
      · rw [if_neg ‹_›]
        omega

/-! ### Executed statements -/

/-- What was observed is not forgotten. -/
theorem Watch.Lost.observe (h : s.Lost) (i : Nat) (l : DeliveryStep J) (after : DeliveryState J) :
    (s.observe i l after).Lost := by
  unfold Watch.Lost at h ⊢
  cases l <;> simp only [Watch.observe, Bool.or_eq_true] <;> tauto

theorem Executes.about {e : Execution J} {s s' : DeliveryState J} (h : Executes d e s s')
    (habout : ∀ w ∈ s.writes, w.About s) : ∀ w ∈ s.writes, w.About s' :=
  fun w hw => (habout w hw).of_deliveries fun _ dl hdl =>
    ⟨dl, h.getElem?_of_some hdl, rfl, rfl⟩

/-- No write is on behalf of a delivery that was not made yet. -/
theorem delivered_of_about {s : DeliveryState J} {w : PendingWrite J} (habout : w.About s)
    (hi : i ∈ w.deliveries) : ∃ dl, s.deliveries[i]? = some dl := by
  rcases habout.checksOwner i hi with ⟨dl, hdl, -⟩
  exact ⟨dl, hdl⟩

theorem Watched.of_execute (h : Watched d i s) {e : Execution J} {after : DeliveryState J}
    (hex : Executes d e s.system after) (hwrites : after.writes = s.system.writes) :
    Watched d i (s.observe i (.execute e) after) := by
  have hreach : ∃ clockMs, (protocol d).Reachable anyStep (ProtocolState.fresh clockMs)
      after.protocol := by
    rcases h.reachable with ⟨clockMs, hreach⟩
    exact ⟨clockMs, hreach.tail trivial hex.step⟩
  -- a write is on behalf of deliveries that were there before
  have hold : ∀ w ∈ after.writes, i ∈ w.deliveries → ∀ dl, after.deliveries[i]? = some dl →
      w ∈ s.system.writes ∧ s.system.deliveries[i]? = some dl := by
    intro w hw hi dl hdl
    rw [hwrites] at hw
    rcases delivered_of_about (h.about w hw) hi with ⟨old, hold⟩
    rw [hex.getElem?_of_some hold] at hdl
    cases hdl
    exact ⟨hw, hold⟩
  have hnew : ∀ dl, after.deliveries[i]? = some dl → s.system.deliveries[i]? = some dl ∨
      (after.runs i = true ∧ dl.leaseLost = false ∧ dl.settled = false) := by
    intro dl hdl
    cases hbefore : s.system.deliveries[i]? with
    | none => exact Or.inr (hex.runs_new hbefore hdl)
    | some old =>
        rw [hex.getElem?_of_some hbefore] at hdl
        exact Or.inl hdl
  refine ⟨hreach, ?_, ?_, fun hruns => ?_, fun hnone => h.undelivered (hex.none_before hnone),
    h.recorded_le, fun dl hdl hruns => ?_, fun dl hdl hflag => ?_,
    fun w hw hi dl reply hdl hreply hnames => ?_, fun hheld => ?_,
    fun hheld => ?_⟩
  · show ∀ w ∈ after.writes, w.About after
    rw [hwrites]
    exact hex.about h.about
  · show ∀ w ∈ after.writes, w.Kind
    rw [hwrites]
    exact h.kinds
  · cases hbefore : s.system.deliveries[i]? with
    | none => exact h.undelivered hbefore
    | some old => exact h.running (hex.runs_before hbefore hruns)
  · cases hrunning : s.system.runs i with
    | true =>
        right
        have hafter : after.runs i = false := hruns
        simp [Watch.observe, hrunning, hafter]
    | false =>
        rcases hnew dl hdl with hbefore | ⟨hrun, -⟩
        · exact (h.stopped dl hbefore hrunning).imp_right fun htaken => by
            simp [Watch.observe, htaken]
        · rw [show after.runs i = false from hruns] at hrun
          cases hrun
  · rcases hnew dl hdl with hbefore | ⟨-, hkept, -⟩
    · exact (h.lost dl hbefore hflag).observe i _ _
    · rw [hkept] at hflag
      cases hflag
  · rcases hold w hw hi dl hdl with ⟨hw, hbefore⟩
    exact (h.missed w hw hi dl reply hbefore hreply hnames).imp_left fun hlost =>
      hlost.observe i _ _
  · rcases h.early hheld with ⟨hrecorded, hunexecuted, hunsettled, hresults⟩
    refine ⟨hrecorded, fun w hw => hunexecuted w (hwrites ▸ hw), fun dl hdl => ?_,
      fun r hr => ⟨(hresults r hr).1, (hresults r hr).2.observe i _ _⟩⟩
    rcases hnew dl hdl with hbefore | ⟨-, -, hopen⟩
    · exact hunsettled dl hbefore
    · exact hopen
  · rcases h.settled hheld with ⟨hrecorded, hanswered, hflags, hresults, honce⟩
    refine ⟨hrecorded, fun w hw hi hloop hfail dl reply hdl hreply => ?_, fun dl hdl hopen => ?_,
      hresults, ?_⟩
    · rcases hold w hw hi dl hdl with ⟨hw, hbefore⟩
      exact hanswered w hw hi hloop hfail dl reply hbefore hreply
    · rcases hnew dl hdl with hbefore | ⟨-, hkept, -⟩
      · exact hflags dl hbefore hopen
      · exact hkept
    · show s.results.count .returned + after.writes.countP (PendingWrite.unread i) ≤ 1
      rw [hwrites]
      exact honce

/-! ### Executed writes -/

/-- A settled row does not run. -/
theorem OwnedWrite.status_ne_running {write : OwnedWrite J} (h : write.isSettlement = true)
    (nowMs : Int) (t : Task J) : ((write.setList nowMs).set t).status ≠ .running := by
  cases write with
  | heartbeat leaseMs => cases h
  | progress value message => cases h
  | complete result =>
      simp only [OwnedWrite.setList, setComplete]
      split <;> simp
  | succeed result message => simp [OwnedWrite.setList, setSucceed]
  | fail error retryable delayMs =>
      simp only [OwnedWrite.setList, setFail]
      split
      · simp
      · split <;> simp

section Perform

variable {system : DeliveryState J} {n : Nat} {nowMs : Int} {held : String → Bool}
  {w : PendingWrite J} {p : ProtocolState J}

/-- Executing a write is executing a statement that makes no delivery. -/
theorem Executes.of_perform (habout : w.About system)
    (hp : protocol d system.protocol ⟨nowMs, held, w.statement⟩ = some p) (reply : Reply J) :
    Executes d ⟨nowMs, held, w.statement⟩ system (system.performed n p reply) where
  step := hp
  deliveries := by
    rcases habout.kind with ⟨_, _, _, hst⟩ | ⟨_, _, _, hst⟩ <;>
      simp [DeliveryState.performed, newDeliveries, hst]

/-- A write that misses the row of a running delivery met an expired lease. -/
theorem expiredAt_of_missed (habout : w.About system) (hi : i ∈ w.deliveries) {dl : Delivery}
    (hdl : system.deliveries[i]? = some dl)
    (hsound : ∀ id t, system.protocol.db.get id = some t → t.Sound)
    (hruns : system.runs i = true)
    (hnames : (Execution.reply d system.protocol.db ⟨nowMs, held, w.statement⟩).names dl.taskId =
      false) : system.expiredAt i nowMs = true := by
  rcases runs_iff.mp hruns with ⟨dl', t, hdl', ht, hstatus, hworker, -⟩
  rw [hdl] at hdl'
  cases hdl'
  rcases habout.checksOwner i hi with ⟨dl', hdl', howner⟩
  rw [hdl] at hdl'
  cases hdl'
  rcases Option.isSome_iff_exists.mp ((hsound _ _ ht).lease.mpr hstatus) with ⟨untilMs, hlease⟩
  have hexpired : Expired nowMs t := by
    refine ⟨hstatus, untilMs, hlease, ?_⟩
    by_contra hlive
    have howned : Owned dl.workerId nowMs t := ⟨hstatus, hworker, untilMs, hlease, by omega⟩
    rw [Execution.reply, (exec_checksOwner_names howner).mpr ⟨t, ht, howned⟩] at hnames
    cases hnames
  simp [DeliveryState.expiredAt, hruns, hdl, ht, leaseExpired_iff.mpr hexpired]

/-- A settlement that names the task takes its row. -/
theorem runs_of_settled (hkind : w.Kind)
    (hsettles : w.settlesFor i = true) {dl : Delivery} (hdl : system.deliveries[i]? = some dl)
    (hp : protocol d system.protocol ⟨nowMs, held, w.statement⟩ = some p)
    (hnames : (Execution.reply d system.protocol.db ⟨nowMs, held, w.statement⟩).names dl.taskId =
      true) (reply : Reply J) : (system.performed n p reply).runs i = false := by
  rw [PendingWrite.settlesFor, Bool.and_eq_true, decide_eq_true_eq] at hsettles
  rcases hkind hsettles.2 with ⟨id, workerId, write, hst, hsettlement⟩
  refine Bool.eq_false_iff.mpr fun hruns => ?_
  rcases runs_iff.mp hruns with ⟨dl', t', hdl', ht', hstatus, -⟩
  have hsame : (system.performed n p reply).deliveries[i]? = system.deliveries[i]? := rfl
  rw [hsame, hdl] at hdl'
  cases hdl'
  rcases get_of_step hp ht' with ⟨-, hmissed⟩ | ⟨t, -, heff, -⟩ | ⟨-, ⟨new, hinsert, -⟩, -⟩
  · rw [hnames] at hmissed
    cases hmissed
  · simp only [hst] at heff
    cases heff
    exact OwnedWrite.status_ne_running hsettlement nowMs _ hstatus
  · simp only [hst] at hinsert
    cases hinsert

end Perform

/-- The account of an executed write. -/
theorem Watch.observe_perform {n : Nat} {nowMs : Int} {held : String → Bool} {w : PendingWrite J}
    (hw : s.system.writes[n]? = some w) (after : DeliveryState J) :
    s.observe i (.perform n nowMs held) after =
      { s with
        system := after
        recorded := s.recorded +
          if w.settlesFor i && s.system.runs i && !after.runs i then 1 else 0
        expired := s.expired || s.system.expiredAt i nowMs
        taken := s.taken || (!w.settlesFor i && s.system.runs i && !after.runs i)
        held := if w.settlesFor i then
            s.held.or
              (some (!(s.expired || s.system.expiredAt i nowMs) && !s.taken && !s.abandoned))
          else s.held } := by
  simp only [observe, hw, Option.any_some]

section Perform

variable {n : Nat} {nowMs : Int} {held : String → Bool} {w : PendingWrite J} {p : ProtocolState J}
  {reply : Reply J}

theorem mem_performed {system : DeliveryState J} (hw : system.writes[n]? = some w)
    {v : PendingWrite J} (hv : v ∈ (system.performed n p reply).writes) :
    v ∈ system.writes ∨ v = { w with reply := some reply } :=
  mem_modify hw hv

/-- No settle call is executed after the settlement. -/
theorem Watch.Settled.of_perform (h : s.Settled i) (hw : s.system.writes[n]? = some w)
    (hquiet : i ∈ w.deliveries → w.origin ≠ .heartbeatLoop → w.origin ≠ .safeFail →
      s.recorded = 0) {s' : Watch J} (hsystem : s'.system = s.system.performed n p reply)
    (hrecorded : s'.recorded = 1) (hresults : s'.results = s.results) : s'.Settled i := by
  have hlate : i ∈ w.deliveries → w.origin ≠ .heartbeatLoop → w.origin ≠ .safeFail → False := by
    intro hi hloop hfail
    have hnone := hquiet hi hloop hfail
    rw [h.recorded] at hnone
    cases hnone
  refine ⟨hrecorded, fun v hv hi hloop hfail dl reply' hdl hv' => ?_, fun dl hdl => ?_, ?_, ?_⟩
  · rw [hsystem] at hv hdl
    rcases mem_performed hw hv with hold | rfl
    · exact h.answered v hold hi hloop hfail dl reply' hdl hv'
    · exact (hlate hi hloop hfail).elim
  · rw [hsystem] at hdl
    exact h.flags dl hdl
  · rw [hresults]
    exact h.results
  · have hnew : PendingWrite.unread i { w with reply := some reply } = false := by
      refine Bool.eq_false_iff.mpr fun hunread => ?_
      simp only [PendingWrite.unread, Bool.and_eq_true, decide_eq_true_eq] at hunread
      exact hlate hunread.2.2 (by simp [hunread.2.1]) (by simp [hunread.2.1])
    have hcount := countP_modify (PendingWrite.unread i)
      (f := fun v => { v with reply := some reply }) hw
    rw [hnew, if_neg Bool.false_ne_true] at hcount
    have honce := h.once
    rw [hresults, hsystem]
    simp only [DeliveryState.performed]
    omega

/-- The first settlement that is executed under the lease takes the row. -/
theorem Watched.settled_of_first (h : Watched d i s) (hw : s.system.writes[n]? = some w)
    (hp : protocol d s.system.protocol ⟨nowMs, held, w.statement⟩ = some p)
    (hsettles : w.settlesFor i = true) (hheld : s.held = none) (hlost : ¬s.Lost)
    (hlive : s.system.expiredAt i nowMs = false)
    (hreplied : Execution.reply d s.system.protocol.db ⟨nowMs, held, w.statement⟩ = reply) :
    s.system.runs i = true ∧ (s.system.performed n p reply).runs i = false ∧
      ∀ s' : Watch J, s'.system = s.system.performed n p reply → s'.recorded = 1 →
        s'.results = s.results → s'.Settled i := by
  have hmem : w ∈ s.system.writes := List.mem_of_getElem? hw
  have habout := h.about w hmem
  have hi : i ∈ w.deliveries := by
    rw [PendingWrite.settlesFor, Bool.and_eq_true, decide_eq_true_eq] at hsettles
    exact hsettles.1
  rcases h.early hheld with ⟨hrecorded, hunexecuted, -, hresults⟩
  rcases delivered_of_about habout hi with ⟨dl, hdl⟩
  have hruns : s.system.runs i = true := by
    rw [← Bool.not_eq_false]
    intro hstopped
    rcases h.stopped dl hdl hstopped with hone | htaken
    · rw [hrecorded] at hone
      cases hone
    · exact hlost (Or.inr (Or.inl htaken))
  have hnames : reply.names dl.taskId = true := by
    rw [← Bool.not_eq_false]
    intro hmissed
    rcases h.reachable with ⟨clockMs, hreach⟩
    rw [← hreplied] at hmissed
    rw [expiredAt_of_missed habout hi hdl (reachable_sound hreach) hruns hmissed] at hlive
    cases hlive
  refine ⟨hruns, runs_of_settled (h.kinds w hmem) hsettles hdl hp (hreplied ▸ hnames) reply,
    fun s' hsystem hone hsame => ⟨hone, fun v hv hv_i hloop hfail dl' reply' hdl' hv' => ?_,
      fun dl' hdl' _ => ?_, fun hraised => ?_, ?_⟩⟩
  · rw [hsystem] at hv hdl'
    obtain rfl : dl = dl' := Option.some.inj (hdl.symm.trans hdl')
    rcases mem_performed hw hv with hold | rfl
    · rw [← Bool.not_eq_false]
      intro hmissed
      rcases h.missed v hold hv_i dl reply' hdl hv' hmissed with hcause | ⟨hrec, -⟩
      · exact hlost hcause
      · rw [hrecorded] at hrec
        cases hrec
    · cases hv'
      exact hnames
  · rw [hsystem] at hdl'
    refine Bool.eq_false_iff.mpr fun hflag => hlost (h.lost dl' hdl' hflag)
  · rw [hsame] at hraised
    exact hlost (hresults _ hraised).2
  · have hempty : s.results = [] := by
      rw [List.eq_nil_iff_forall_not_mem]
      exact fun r hr => hlost (hresults r hr).2
    have hnone : s.system.writes.countP (PendingWrite.unread i) = 0 := by
      rw [List.countP_eq_zero]
      intro v hv hunread
      simp only [PendingWrite.unread, Bool.and_eq_true, decide_eq_true_eq] at hunread
      have hreply := hunexecuted v hv (by
        simp [PendingWrite.settlesFor, WriteOrigin.settles, hunread.2.1, hunread.2.2])
      rw [hreply] at hunread
      cases hunread.1
    have hcount := countP_modify (PendingWrite.unread i)
      (f := fun v => { v with reply := some reply }) hw
    rw [hsame, hempty, hsystem]
    simp only [DeliveryState.performed, List.count_nil]
    split at hcount <;> split at hcount <;> omega

theorem Watched.of_perform (h : Watched d i s) (hw : s.system.writes[n]? = some w)
    (hp : protocol d s.system.protocol ⟨nowMs, held, w.statement⟩ = some p)
    (hquiet : i ∈ w.deliveries → w.origin ≠ .heartbeatLoop → w.origin ≠ .safeFail →
      s.recorded = 0)
    (hreplied : Execution.reply d s.system.protocol.db ⟨nowMs, held, w.statement⟩ = reply) :
    Watched d i (s.observe i (.perform n nowMs held) (s.system.performed n p reply)) := by
  have hmem : w ∈ s.system.writes := List.mem_of_getElem? hw
  have habout := h.about w hmem
  have hex := Executes.of_perform (n := n) habout hp reply
  have hcause : s.Lost → (s.observe i (.perform n nowMs held)
      (s.system.performed n p reply)).Lost := fun hlost => hlost.observe i _ _
  have hreach : ∃ clockMs, (protocol d).Reachable anyStep (ProtocolState.fresh clockMs) p := by
    rcases h.reachable with ⟨clockMs, hreach⟩
    exact ⟨clockMs, hreach.tail trivial hp⟩
  have hstays : s.recorded = 1 → s.system.runs i = false := by
    intro hone
    refine Bool.eq_false_iff.mpr fun hruns => ?_
    rw [h.running hruns] at hone
    cases hone
  rw [Watch.observe_perform hw] at hcause ⊢
  refine ⟨hreach, fun v hv => ?_, fun v hv => ?_, fun hruns => ?_, fun hnone => ?_, ?_,
    fun dl hdl hruns => ?_, fun dl hdl hflag => hcause (h.lost dl hdl hflag),
    fun v hv hi dl reply' hdl hv' hnames => ?_, fun hheld => ?_, fun hheld => ?_⟩
  · rcases mem_performed hw hv with hold | rfl
    · exact hex.about h.about v hold
    · have hw' := hex.about h.about w hmem
      exact ⟨hw'.checksOwner, hw'.addressed, hw'.kind⟩
  · rcases mem_performed hw hv with hold | rfl
    · exact h.kinds v hold
    · exact h.kinds w hmem
  · rcases runs_iff.mp hruns with ⟨dl, -, hdl, -⟩
    have hrunning := hex.runs_before (s := s.system) hdl hruns
    simp [h.running hrunning, show (s.system.performed n p reply).runs i = true from hruns]
  · have hrunning : s.system.runs i = false := by
      simp [DeliveryState.runs, show s.system.deliveries[i]? = none from hnone]
    simp [h.undelivered hnone, hrunning]
  · cases hrunning : s.system.runs i with
    | true =>
        have hnone := h.running hrunning
        dsimp only
        split <;> omega
    | false => simpa using h.recorded_le
  · have hstopped : (s.system.performed n p reply).runs i = false := hruns
    cases hrunning : s.system.runs i with
    | true =>
        have hnone := h.running hrunning
        cases hsettles : w.settlesFor i with
        | true => simp [hnone, hstopped]
        | false => simp [hstopped]
    | false => simpa using h.stopped dl hdl hrunning
  · rcases mem_performed hw hv with hold | rfl
    · refine (h.missed v hold hi dl reply' hdl hv' hnames).imp hcause fun hlate => ⟨?_, hlate.2⟩
      simp [hlate.1, hstays hlate.1]
    · cases hv'
      cases hrunning : s.system.runs i with
      | true =>
          rcases h.reachable with ⟨clockMs, hreach'⟩
          have hexpired : s.system.expiredAt i nowMs = true :=
            expiredAt_of_missed habout hi hdl (reachable_sound hreach') hrunning
              (hreplied ▸ hnames)
          exact Or.inl (Or.inl (by simp [hexpired]))
      | false =>
          rcases h.stopped dl hdl hrunning with hone | htaken
          · refine Or.inr ⟨by simp [hone], ?_⟩
            by_contra horigin
            rw [not_or] at horigin
            have hnone := hquiet hi horigin.1 horigin.2
            omega
          · exact Or.inl (Or.inr (Or.inl (by simp [htaken])))
  · by_cases hsettles : w.settlesFor i = true
    · simp [hsettles] at hheld
    · simp only [if_neg hsettles] at hheld
      rcases h.early hheld with ⟨hrecorded, hunexecuted, hunsettled, hresults⟩
      refine ⟨by simp [hrecorded, hsettles], fun v hv hv_settles => ?_, hunsettled,
        fun r hr => ⟨(hresults r hr).1, hcause (hresults r hr).2⟩⟩
      rcases mem_performed hw hv with hold | rfl
      · exact hunexecuted v hold hv_settles
      · exact absurd hv_settles hsettles
  · have hagain : s.held = some true → s.recorded = 1 ∧ ∀ s' : Watch J,
        s'.system = s.system.performed n p reply → s'.recorded = 1 → s'.results = s.results →
        s'.Settled i := fun hheld' => ⟨(h.settled hheld').recorded,
      fun _ hsystem hone hsame => (h.settled hheld').of_perform hw hquiet hsystem hone hsame⟩
    by_cases hsettles : w.settlesFor i = true
    · simp only [if_pos hsettles] at hheld
      cases hbefore : s.held with
      | none =>
          simp only [hbefore, Option.none_or, Option.some.injEq, Bool.and_eq_true,
            Bool.not_eq_true', Bool.or_eq_false_iff] at hheld
          have hlost : ¬s.Lost := by
            rintro (h | h | h) <;> simp [h] at hheld
          rcases h.settled_of_first hw hp hsettles hbefore hlost hheld.1.1.2 hreplied with
            ⟨hrunning, hstopped, hsettled⟩
          refine hsettled _ rfl ?_ rfl
          simp [hsettles, hrunning, hstopped, h.running hrunning]
      | some b =>
          rw [hbefore, Option.some_or] at hheld
          rcases hagain (hbefore.trans hheld) with ⟨hone, hsettled⟩
          refine hsettled _ rfl ?_ rfl
          simp [hone, hstays hone]
    · simp only [if_neg hsettles] at hheld
      rcases hagain hheld with ⟨hone, hsettled⟩
      refine hsettled _ rfl ?_ rfl
      simp [hone, hstays hone]

end Perform

/-! ### Settle calls -/

/-- A settle call ends without a write. -/
theorem Watched.of_result (h : Watched d i s) {r : SettleResult}
    (hearly : s.held = none → r = .raised ∧ s.Lost) (hsettled : s.held = some true → r = .skipped) :
    Watched d i { s with results := s.results ++ [r] } where
  reachable := h.reachable
  about := h.about
  kinds := h.kinds
  running := h.running
  undelivered := h.undelivered
  recorded_le := h.recorded_le
  stopped := h.stopped
  lost := h.lost
  missed := h.missed
  early := by
    intro hheld
    have hbefore := h.early hheld
    refine ⟨hbefore.recorded, hbefore.unexecuted, hbefore.unsettled, fun r' hr' => ?_⟩
    rcases List.mem_append.mp hr' with hold | hnew
    · exact hbefore.results r' hold
    · rw [List.mem_singleton.mp hnew]
      exact hearly hheld
  settled := by
    intro hheld
    have hbefore := h.settled hheld
    have hr := hsettled hheld
    subst hr
    refine ⟨hbefore.recorded, hbefore.answered, hbefore.flags, ?_, ?_⟩
    · simpa using hbefore.results
    · have honce := hbefore.once
      show (s.results ++ [SettleResult.skipped]).count .returned + _ ≤ 1
      rw [List.count_append]
      simpa using honce

/-- Every step of a run that settles quietly keeps the invariant. -/
theorem Watched.of_step {s' : Watch J} {l : WatchStep J} (h : Watched d i s)
    (hquiet : SettlesQuietly i s l) (hstep : watching d i s l = some s') : Watched d i s' := by
  cases l with
  | settle write =>
      rcases Option.bind_eq_some_iff.mp hstep with ⟨dl, hdl, hs⟩
      split at hs
      · cases hs
      · split at hs
        · rename_i hsettled
          cases hs
          refine h.of_result (fun hheld => ?_) fun _ => rfl
          rw [(h.early hheld).unsettled dl hdl] at hsettled
          cases hsettled
        · rename_i hopen
          have hopen : dl.settled = false := by simpa using hopen
          split at hs
          · rename_i hflag
            cases hs
            refine h.of_result (fun _ => ⟨rfl, h.lost dl hdl hflag⟩) fun hheld => ?_
            rw [(h.settled hheld).flags dl hdl hopen] at hflag
            cases hflag
          · rcases Option.map_eq_some_iff.mp hs with ⟨after, hissued, rfl⟩
            cases seenAs_of_step (i := i) hissued with
            | quiet hq hobserve => exact h.of_quiet hq
  | other l =>
      rcases Option.map_eq_some_iff.mp hstep with ⟨after, hsystem, rfl⟩
      cases seenAs_of_step (i := i) hsystem with
      | executed e hex hwrites => exact h.of_execute hex hwrites
      | performed n nowMs held w p hw hnone hp => exact h.of_perform hw hp (hquiet w hw) rfl
      | answered n w reply hw hreply =>
          exact h.of_answer hw hreply fun dl hdl => hquiet w reply dl hw hreply hdl
      | timedOut dl hdl =>
          have habandoned : s.observe i (.timeout i)
              (s.system.modify i fun dl => { dl with leaseLost := true }) =
              { s with
                system := s.system.modify i fun dl => { dl with leaseLost := true }
                abandoned := true } := by
            simp [Watch.observe, hdl]
          rw [habandoned]
          exact h.of_timeout hdl (hquiet dl hdl rfl)
      | quiet hq hobserve =>
          rw [hobserve s rfl]
          exact h.of_quiet hq

/-! ## Settling once -/

/-- Settling is idempotent and `lost_lease` is truthful.  In every run in which no write of a
context is executed after a settlement of its attempt was recorded, no beat that came back without
the task is read between the settlement and the reading of its answer, and the attempt is not
abandoned in between: at most one settlement of the attempt is recorded; if the lease was held
when the first settlement was executed, exactly one is, and of the settle calls that are over at
most one returned the row and all others were no-ops; and the context is flagged only if the lease
had run out, someone else took the row, or the attempt was abandoned. -/
theorem settle_once {d : Dialect} {i : Nat} {clockMs : Int} {s : Watch J}
    (hreach : (watching d i).Reachable (SettlesQuietly i) (Watch.fresh clockMs) s) :
    s.recorded ≤ 1 ∧
      (s.held = some true → s.recorded = 1 ∧ s.results.count .returned ≤ 1 ∧
        ∀ r ∈ s.results, r = .returned ∨ r = .skipped) ∧
      ∀ dl, s.system.deliveries[i]? = some dl → dl.leaseLost = true → s.Lost := by
  have hwatched : Watched d i s :=
    hreach.invariant (fun _ _ _ h hquiet hstep => h.of_step hquiet hstep) (.fresh d i clockMs)
  refine ⟨hwatched.recorded_le, fun hheld => ?_, hwatched.lost⟩
  rcases hwatched.settled hheld with ⟨hrecorded, -, -, hresults, honce⟩
  refine ⟨hrecorded, by omega, fun r hr => ?_⟩
  cases r with
  | returned => exact Or.inl rfl
  | skipped => exact Or.inr rfl
  | raised => exact absurd hr hresults

/-- A task is submitted and delivered. -/
def deliveredRun : List (WatchStep Nat) :=
  [.other (.execute (.alone 0 (.insertTask (.plain "t" "work" 3 0)))),
    .other (.execute (.alone 1 (.claim (.claimOneQueue "default" none) "w" 10 1)))]

/-- The handler succeeds while a beat is on its way; the beat is executed after the settlement and
read after its answer; then the handler fails the task. -/
def lateBeatRun : List (WatchStep Nat) :=
  deliveredRun ++
    [.settle (.complete (some 7)),
      .other (.heartbeat "w" [0] 10),
      .other (.perform 0 2 unlocked),
      .other (.perform 1 3 unlocked),
      .other (.answer 0),
      .other (.answer 0),
      .settle (.fail 9 true 0)]

/-- The failure is a no-op, and the beat does not flag the context. -/
theorem settle_once_lateBeatRun :
    ((watching .sqlite 0).drive (Watch.fresh 0) lateBeatRun).results = [.returned, .skipped] ∧
      ((watching .sqlite 0).drive (Watch.fresh 0) lateBeatRun).recorded = 1 := by
  have hreach : (watching .sqlite 0).Reachable (SettlesQuietly 0) (Watch.fresh 0)
      ((watching .sqlite 0).drive (Watch.fresh 0) lateBeatRun) := by
    refine ⟨lateBeatRun, .cons trivial rfl (.cons trivial rfl (.cons trivial rfl (.cons trivial rfl
      (.cons ?_ rfl (.cons ?_ rfl (.cons ?_ rfl (.cons ?_ rfl (.cons trivial rfl (.nil _)))))))))⟩
    · intro w _ _ _ _
      rfl
    · intro w hw _ hloop _
      cases hw
      exact absurd rfl hloop
    · intro w reply dl hw _ _ _ hloop _
      cases hw
      cases hloop
    · intro w reply dl _ _ hdl _ _ _
      cases hdl
      exact Or.inr rfl
  exact ⟨rfl, ((settle_once hreach).2.1 rfl).1⟩

/-- The handler calls `succeed` twice at once. -/
def doubleRun : List (WatchStep Nat) :=
  deliveredRun ++
    [.settle (.complete (some 7)),
      .settle (.complete (some 8)),
      .other (.perform 0 2 unlocked),
      .other (.perform 1 3 unlocked),
      .other (.answer 0),
      .other (.answer 0)]

/-- The beat of {lit}`lateBeatRun` is read before the answer to the settlement. -/
def earlyBeatRun : List (WatchStep Nat) :=
  deliveredRun ++
    [.settle (.complete (some 7)),
      .other (.heartbeat "w" [0] 10),
      .other (.perform 0 2 unlocked),
      .other (.perform 1 3 unlocked),
      .other (.answer 1)]

/-- Settling is not idempotent and `lost_lease` is not truthful: of two concurrent calls of
`succeed` under a live lease one raises, and in both runs the context is flagged although nothing
but its own settlement happened to the task. -/
theorem settle_once_fails :
    (∃ s : Watch Nat, (watching .sqlite 0).Reachable anyStep (Watch.fresh 0) s ∧
      s.held = some true ∧ s.results = [.returned, .raised] ∧
      s.system.deliveries[0]?.map Delivery.leaseLost = some true ∧ ¬s.Lost) ∧
    ∃ s : Watch Nat, (watching .sqlite 0).Reachable anyStep (Watch.fresh 0) s ∧
      s.held = some true ∧ s.recorded = 1 ∧
      s.system.deliveries[0]?.map Delivery.leaseLost = some true ∧ ¬s.Lost :=
  ⟨⟨(watching .sqlite 0).drive (Watch.fresh 0) doubleRun,
      Machine.reachable_drive _ _ _ fun _ _ _ => trivial, rfl, rfl, rfl, by decide⟩,
    ⟨(watching .sqlite 0).drive (Watch.fresh 0) earlyBeatRun,
      Machine.reachable_drive _ _ _ fun _ _ _ => trivial, rfl, rfl, rfl, by decide⟩⟩

end CairnQ
