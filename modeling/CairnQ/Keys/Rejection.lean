import CairnQ.Keys.Linearization

/-!
# Submitting under a key once

Submissions that use `reject` elect one of them: the first is given its task, and every other one
is told `AlreadyExists`, whatever becomes of the task, until it is purged.  Keyed operations take
effect one at a time, so the argument is about the serial store: once the key points at a task, no
submission is about anything else.

Main results:

- Theorem `SerialState.Elected.step`: no step of the serial store elects a second task.
- Theorem `reject_elects_one`: neither do the transactions.
-/

namespace CairnQ

open Relational Transition

variable {J : Type} {d : Dialect} {key : String}

/-! ## The condition -/

/-- Submissions under the key use `reject`, and no purge is about the task it points at. -/
def Rejects (key : String) (h : KeyedHistory J) : KeyedStep J → Prop
  | .begin key' (.submit conflict _) => key' = key → conflict = .reject
  | .statement nowMs (.purge olderThanMs queue status name _) =>
      ∀ t, h.state.db.taskUnder key = some t →
        ¬Purgeable (nowMs - olderThanMs) queue status name t
  | _ => True

/-- The operation, if it is a submission under the key, uses `reject`. -/
def KeyedRequest.Rejecting (request : KeyedRequest J) : Prop :=
  ∀ conflict n, request = .submit conflict n → conflict = .reject

/-! ## The serial store -/

/-- The task that a submission was given. -/
def KeyedAnswer.admitted (a : KeyedAnswer J) : Option (Task J) :=
  match a.request, a.reply with
  | .submit _ _, .task t => t
  | _, _ => none

/-- The ids of the tasks that submissions under the key were given. -/
def admittedIds (answers : List (KeyedAnswer J)) (key : String) : List String :=
  ((answers.filter fun a => a.key = key).filterMap KeyedAnswer.admitted).map Task.id

/-- What a submission under the key is told: it was given its own task, the one the key points at,
or the key points at a task. -/
def KeyedAnswer.Told (db : Database J) (key : String) (a : KeyedAnswer J) : Prop :=
  ∀ conflict n, a.request = .submit conflict n →
    ((db.getKey key).isSome ∧ a.reply = .refused) ∨
      (db.getKey key = some n.id ∧ ∃ t, a.reply = .task (some t) ∧ t.id = n.id)

/-- The task the key points at is the one that was given out. -/
structure SerialState.Elected (v : SerialState J) (key : String) : Prop where
  one : admittedIds v.answers key = (v.db.getKey key).toList
  told : ∀ a ∈ v.answers, a.key = key → a.Told v.db key

theorem SerialState.elected_fresh : (SerialState.fresh (J := J)).Elected key where
  one := rfl
  told _ ha := nomatch ha

/-- A submission that inserts its task points the key at it. -/
theorem getKey_insertUnder {db db' : Database J} {n : NewTask J} {times : KeyedTimes}
    {reply : KeyedReply J} (h : db.insertUnder key n times = some (db', reply)) :
    (∀ key', db'.getKey key' = if key = key' then some n.id else db.getKey key') ∧
      ∃ t, reply = .task (some t) ∧ t.id = n.id := by
  rcases Option.bind_eq_some_iff.mp h with ⟨mid, hinsert, hmap⟩
  rcases Option.map_eq_some_iff.mp hmap with ⟨db'', hupsert, heq⟩
  cases heq
  refine ⟨fun key' => ?_, _, rfl, rfl⟩
  rw [Database.getKey_upsertKey? hupsert, Database.getKey_insertTask? hinsert]
  rfl

/-- An operation points no other key. -/
theorem getKey_perform_of_ne {key' : String} {db db' : Database J} {request : KeyedRequest J}
    {times : KeyedTimes} {reply : KeyedReply J}
    (h : request.perform key' times db = some (db', reply)) (hne : key' ≠ key) :
    db'.getKey key = db.getKey key := by
  cases request with
  | cancelByKey =>
      simp only [KeyedRequest.perform] at h
      split at h <;> cases h <;> rfl
  | submit conflict n =>
      simp only [KeyedRequest.perform] at h
      split at h
      · rw [(getKey_insertUnder h).1, if_neg hne]
      · split at h
        · cases h
          rfl
        · split at h
          · cases h
            rfl
          · rw [(getKey_insertUnder h).1, if_neg hne]
            rfl

theorem getKey_cancelByKey {db db' : Database J} {times : KeyedTimes} {reply : KeyedReply J}
    (h : KeyedRequest.cancelByKey.perform key times db = some (db', reply)) :
    db'.getKey key = db.getKey key := by
  simp only [KeyedRequest.perform] at h
  split at h <;> cases h <;> rfl

/-- A rejecting submission is refused where the key points at a task, and inserts its own where it
does not. -/
theorem perform_rejecting {db db' : Database J} {n : NewTask J} {times : KeyedTimes}
    {reply : KeyedReply J}
    (h : (KeyedRequest.submit .reject n).perform key times db = some (db', reply)) :
    ((db.getKey key).isSome ∧ db' = db ∧ reply = .refused) ∨
      (db.getKey key = none ∧ db'.getKey key = some n.id ∧
        ∃ t, reply = .task (some t) ∧ t.id = n.id) := by
  cases hkey : db.getKey key with
  | none =>
      simp only [KeyedRequest.perform, Database.taskUnder, hkey, Option.bind_none] at h
      rcases getKey_insertUnder h with ⟨hpointed, hreply⟩
      exact Or.inr ⟨rfl, (hpointed key).trans (if_pos rfl), hreply⟩
  | some id =>
      rcases Option.isSome_iff_exists.mp (Database.get_of_getKey hkey) with ⟨t, ht⟩
      simp only [KeyedRequest.perform, Database.taskUnder, hkey, Option.bind_some, ht,
        if_true, Option.some.injEq, Prod.mk.injEq] at h
      exact Or.inl ⟨rfl, h.1.symm, h.2.symm⟩

section Step

variable {v : SerialState J}

/-- What submissions were told stays right while the key points where it did. -/
theorem SerialState.Elected.of_getKey (h : v.Elected key) {db' : Database J}
    (hkey : db'.getKey key = v.db.getKey key) :
    SerialState.Elected { v with db := db' } key where
  one := by
    show admittedIds v.answers key = (db'.getKey key).toList
    rw [hkey]
    exact h.one
  told a ha hakey := by
    show a.Told db' key
    unfold KeyedAnswer.Told
    rw [hkey]
    exact h.told a ha hakey

theorem admittedIds_concat (answers : List (KeyedAnswer J)) (answer : KeyedAnswer J) :
    admittedIds (answers ++ [answer]) key = admittedIds answers key ++
      if answer.key = key then answer.admitted.toList.map Task.id else [] := by
  rw [admittedIds, filter_key_concat, List.filterMap_append, List.map_append]
  split <;> rename_i hkey
  · cases hadmitted : answer.admitted <;> simp [admittedIds, hadmitted]
  · simp [admittedIds]

/-- One more answer that gives out nothing. -/
theorem SerialState.Elected.concat (h : v.Elected key) {answer : KeyedAnswer J}
    (hnone : answer.key = key → answer.admitted = none)
    (htold : answer.key = key → answer.Told v.db key) :
    SerialState.Elected { v with answers := v.answers ++ [answer] } key where
  one := by
    show admittedIds (v.answers ++ [answer]) key = (v.db.getKey key).toList
    rw [admittedIds_concat, h.one]
    split
    · rename_i hkey
      simp [hnone hkey]
    · exact List.append_nil _
  told a ha hakey := by
    rcases List.mem_append.mp ha with ha | ha
    · exact h.told a ha hakey
    · cases List.mem_singleton.mp ha
      exact htold hakey

/-- A keyed operation elects no second task. -/
theorem SerialState.Elected.operation (h : v.Elected key) {key' : String}
    {request : KeyedRequest J} {times : KeyedTimes} {db' : Database J} {reply : KeyedReply J}
    (hperform : request.perform key' times v.db = some (db', reply))
    (hrejecting : key' = key → request.Rejecting) :
    SerialState.Elected
      { db := db', answers := v.answers ++ [⟨key', request, reply⟩] } key := by
  by_cases hkey : key' = key
  · subst hkey
    cases request with
    | cancelByKey =>
        refine (h.of_getKey (getKey_cancelByKey hperform)).concat (fun _ => rfl) fun _ => ?_
        intro conflict n hsubmit
        cases hsubmit
    | submit conflict n =>
        cases hrejecting rfl conflict n rfl
        rcases perform_rejecting hperform with ⟨hsome, rfl, rfl⟩ | ⟨hfree, hpointed, t, rfl, hid⟩
        · refine h.concat (fun _ => rfl) fun _ => ?_
          exact fun _ _ _ => Or.inl ⟨hsome, rfl⟩
        · -- nobody was given a task while the key was free, so nobody was refused either
          have hnobody := h.one
          rw [hfree, Option.toList_none] at hnobody
          refine ⟨?_, fun a ha hakey => ?_⟩
          · show admittedIds (v.answers ++ [_]) key' = (db'.getKey key').toList
            rw [admittedIds_concat, hnobody, hpointed]
            simp [KeyedAnswer.admitted, hid]
          · rcases List.mem_append.mp ha with ha | ha
            · intro conflict m hsubmit
              rcases h.told a ha hakey conflict m hsubmit with ⟨hsome, -⟩ | ⟨hsome, -⟩ <;>
                simp [hfree] at hsome
            · cases List.mem_singleton.mp ha
              intro conflict m hsubmit
              cases hsubmit
              exact Or.inr ⟨hpointed, t, rfl, hid⟩
  · exact (h.of_getKey (getKey_perform_of_ne hperform hkey)).concat (fun hsame => absurd hsame hkey)
      fun hsame => absurd hsame hkey

end Step

/-! ## The transactions -/

/-- A statement that spares the task of the key leaves the key where it points. -/
theorem getKey_exec_of_kept {db : Database J} {held : String → Bool} {nowMs : Int}
    {st : Statement J} (hunkeyed : st.unkeyed = true)
    (hkept : ∀ olderThanMs queue status name limit,
      st = .purge olderThanMs queue status name limit → ∀ t, db.taskUnder key = some t →
        ¬Purgeable (nowMs - olderThanMs) queue status name t) :
    (exec d held nowMs st db).1.getKey key = db.getKey key := by
  have hpoints : ∀ key taskId, st ≠ .upsertKey key taskId := fun _ _ h => by
    simp [h, Statement.unkeyed] at hunkeyed
  rw [exec_eq, Postgres.exec_getKey _ _ _ hpoints]
  cases hid : db.getKey key with
  | none => rfl
  | some id =>
      rcases Option.isSome_iff_exists.mp (Database.get_of_getKey hid) with ⟨t, ht⟩
      cases hgone : (Postgres.exec (d.locked held) nowMs st db).1.get id with
      | none =>
          rcases Postgres.exec_get_none ht hgone with ⟨_, _, _, _, _, hpurge, hpurgeable, -⟩
          have hunder : db.taskUnder key = some t := by
            rw [Database.taskUnder, hid, Option.bind_some, ht]
          exact absurd (purgeable_iff.mp hpurgeable) (hkept _ _ _ _ _ hpurge t hunder)
      | some t' => exact Option.filter_some_pos (by rw [hgone]; rfl)

/-- The serial store has elected one task, and the submissions begun under the key reject. -/
structure Electing (key : String) (h : KeyedHistory J) (v : SerialState J) : Prop where
  matched : Matches h v
  elected : v.Elected key
  rejecting : ∀ request, (key, request) ∈ h.begun → request.Rejecting

theorem electing_fresh : Electing key (KeyedHistory.fresh (J := J)) SerialState.fresh where
  matched := matches_fresh
  elected := SerialState.elected_fresh
  rejecting _ hbegun := nomatch hbegun

/-- What the serial store performed under the key was begun. -/
theorem Matches.begun_of_answered {h : KeyedHistory J} {v : SerialState J} (hm : Matches h v)
    {a : KeyedAnswer J} (ha : a ∈ v.answers) : (a.key, a.request) ∈ h.begun := by
  have hrequest : a.request ∈
      (v.answers.filter fun b => b.key = a.key).map KeyedAnswer.request :=
    List.mem_map_of_mem (List.mem_filter.mpr ⟨ha, decide_eq_true rfl⟩)
  have hbegun := ((List.sublist_append_left _ _).trans (hm.tally a.key).begun).subset hrequest
  rcases List.mem_map.mp hbegun with ⟨b, hb, hsame⟩
  rcases List.mem_filter.mp hb with ⟨hb, hkey⟩
  rw [← hsame, ← of_decide_eq_true hkey]
  exact hb

theorem SerialState.Elected.performed {v v' : SerialState J} (h : v.Elected key) {key' : String}
    {request : KeyedRequest J} {times : KeyedTimes}
    (hsteps : (serialized d).Steps anyStep v [.operation key' request times] v')
    (hrejecting : ∀ a ∈ v'.answers, a.key = key → a.request.Rejecting) : v'.Elected key := by
  cases hsteps with
  | cons _ hstep hrest =>
      cases hrest
      rcases Option.map_eq_some_iff.mp hstep with ⟨⟨db', reply⟩, hperform, rfl⟩
      exact h.operation hperform fun hkey =>
        hrejecting ⟨key', request, reply⟩ (List.mem_append_right _ (List.mem_singleton_self _)) hkey

/-- What a step of the transactions comes to elects no second task. -/
theorem Electing.step {h h' : KeyedHistory J} {v : SerialState J} {l : KeyedStep J}
    (he : Electing key h v) (hnew : NewIds h l) (hrejects : Rejects key h l)
    (hstep : observed d h l = some h') :
    ∃ block v', Linearized l block ∧ (serialized d).Steps anyStep v block v' ∧
      Electing key h' v' := by
  rcases he.matched.step hnew hstep with ⟨block, v', hblock, hsteps, hm⟩
  have hbegun : ∀ request, (key, request) ∈ h'.begun → request.Rejecting := by
    rcases Option.map_eq_some_iff.mp hstep with ⟨s, -, rfl⟩
    intro request hmem
    rcases List.mem_append.mp hmem with hold | hnow
    · exact he.rejecting request hold
    · cases l with
      | begin key' request' =>
          cases List.mem_singleton.mp hnow
          rintro conflict n rfl
          exact hrejects rfl
      | _ => cases hnow
  have hrejecting : ∀ a ∈ v'.answers, a.key = key → a.request.Rejecting := by
    rintro a ha rfl
    exact hbegun a.request (hm.begun_of_answered ha)
  refine ⟨block, v', hblock, hsteps, hm, ?_, hbegun⟩
  cases hblock with
  | begun | decided | answered | rolledBack =>
      cases hsteps
      exact he.elected
  | read | written => exact he.elected.performed hsteps hrejecting
  | statement held nowMs st =>
      cases hsteps with
      | cons _ hexec hrest =>
          cases hrest
          simp only [serialized, Option.ite_none_right_eq_some, Option.some.injEq] at hexec
          rcases hexec with ⟨hunkeyed, rfl⟩
          refine he.elected.of_getKey (getKey_exec_of_kept hunkeyed ?_)
          rintro olderThanMs queue status name limit rfl
          rw [he.matched.db]
          exact hrejects

/-- `reject` elects one submission.  In every run in which the submissions under a key reject and
nobody purges its task, at most one of them is given a task: its own, which the key points at from
then on.  Every other one is told that there is one. -/
theorem reject_elects_one {ls : List (KeyedStep J)} {h : KeyedHistory J}
    (hsteps : (observed d).Steps (fun h l => NewIds h l ∧ Rejects key h l) KeyedHistory.fresh
      ls h) :
    (admittedIds h.answered key).Sublist (h.state.db.getKey key).toList ∧
      ∀ a ∈ h.answered, a.key = key → a.Told h.state.db key := by
  have hmatch : ∀ (u : KeyedHistory J) (v : SerialState J) l u', Electing key u v →
      NewIds u l ∧ Rejects key u l → observed d u l = some u' →
      ∃ block v', Linearized l block ∧ (serialized d).Steps anyStep v block v' ∧
        Electing key u' v' :=
    fun u v l u' he hguard hstep => he.step hguard.1 hguard.2 hstep
  rcases Machine.Steps.blocks hmatch hsteps electing_fresh with ⟨blocks, -, hprefix⟩
  rcases hprefix ls.length with ⟨u, v, hu, -, he⟩
  rw [List.take_length] at hu
  cases hu.unique hsteps
  have hanswered := (List.sublist_append_left _ _).trans (he.matched.tally key).answered
  rw [← he.matched.db]
  refine ⟨?_, fun a ha hkey => ?_⟩
  · rw [← he.elected.one]
    exact (hanswered.filterMap _).map _
  · have hperformed := hanswered.subset (List.mem_filter.mpr ⟨ha, decide_eq_true hkey⟩)
    exact he.elected.told a (List.mem_filter.mp hperformed).1 hkey

/-- A second submission comes after the first, whose task is canceled meanwhile. -/
def refusedRun : List (KeyedStep Nat) :=
  [.begin "k" (.submit .reject (.plain "a" "work" 3 0)),
    .advance "k" 0, .advance "k" 0, .advance "k" 0, .commit "k",
    .begin "k" (.submit .reject (.plain "b" "work" 3 0)),
    .advance "k" 1, .statement 2 (.cancel "a"), .advance "k" 3, .rollback "k"]

theorem reject_elects_one_refusedRun :
    let h := (observed .postgres).drive KeyedHistory.fresh refusedRun
    (h.state.db.get "a").map Task.status = some .canceled ∧ h.answered.length = 2 ∧
      (admittedIds h.answered "k").length ≤ 1 := by
  intro h
  have hsteps : (observed .postgres).Steps (fun h l => NewIds h l ∧ Rejects "k" h l)
      KeyedHistory.fresh refusedRun h :=
    .cons ⟨by decide, fun _ => rfl⟩ rfl <| .cons ⟨by decide, trivial⟩ rfl <|
      .cons ⟨by decide, trivial⟩ rfl <| .cons ⟨by decide, trivial⟩ rfl <|
      .cons ⟨by decide, trivial⟩ rfl <| .cons ⟨by decide, fun _ => rfl⟩ rfl <|
      .cons ⟨by decide, trivial⟩ rfl <| .cons ⟨by decide, trivial⟩ rfl <|
      .cons ⟨by decide, trivial⟩ rfl <| .cons ⟨by decide, trivial⟩ rfl <| .nil h
  exact ⟨rfl, rfl, (reject_elects_one hsteps).1.length_le⟩

end CairnQ
