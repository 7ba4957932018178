import CairnQ.Worker.Capacity

/-!
# Turns and starvation

Every plan offers its budget to the next source in turn first, whether or not the plan
before it drew anything.  A source whose turn finds a free call and a free unit draws;
a source whose turns always fall on a full resource never does, however often the
resource is free in between.

Main results:

- Theorem `turnsUntil_turned`: every plan that is not the source's own brings its turn nearer.
- Theorem `draws_within_rotation`: as many plans as there are sources contain the turn of
  each, so a backlog is drawn from if its turns are not lost.
- Theorem `starved`: two names on one unit, one of which is never drawn.
-/

namespace CairnQ

open Transition

variable {J : Type} {cfg : WorkerConfig} {src : ClaimSource}

/-! ## Turns -/

/-- The source whose turn it is. -/
def Handlers.first (handlers : Handlers) (cursor : Nat) : Option ClaimSource :=
  (handlers.order cursor).head?

/-- The source's resource, if it has one, has a free unit. -/
def ClaimSource.Open (capacity inFlight : String → Nat) (src : ClaimSource) : Prop :=
  ∀ r ∈ src.resource, inFlight r < capacity r

instance (capacity inFlight : String → Nat) (src : ClaimSource) :
    Decidable (src.Open capacity inFlight) :=
  inferInstanceAs (Decidable (∀ r ∈ src.resource, inFlight r < capacity r))

/-- The plan starts with a free call and a free unit for the source. -/
def PlanRecord.Admits (cfg : WorkerConfig) (src : ClaimSource) (p : PlanRecord J) : Prop :=
  0 < p.free ∧ src.Open cfg.capacity p.inFlight

instance (cfg : WorkerConfig) (src : ClaimSource) (p : PlanRecord J) :
    Decidable (p.Admits cfg src) :=
  inferInstanceAs (Decidable (_ ∧ _))

/-- The plan draws a call from the source. -/
def PlanRecord.Draws (src : ClaimSource) (p : PlanRecord J) : Prop :=
  ∃ d ∈ p.draws, d.source = src ∧ d.calls ≠ []

/-- The source has claimable rows in every claim session. -/
def Backlogged (src : ClaimSource) : WorkerStep J → Prop
  | .plan session => ∀ limit, 0 < limit → session.claim src.names limit ≠ []
  | _ => True

/-- The source does not lose its turn: the plan made then finds its resource open, and its claim
session does not fail before the plan is made. -/
def TurnKept (cfg : WorkerConfig) (src : ClaimSource) (s : WorkerState J) : WorkerStep J → Prop
  | .plan _ => cfg.handlers.first s.cursor = some src → src.Open cfg.capacity s.inFlight
  | .fail true => ∀ free, s.polling = some (.asked free) → cfg.handlers.first s.cursor ≠ some src
  | _ => True

/-- Turns until the cursor comes to an index. -/
def turnsUntil (n index cursor : Nat) : Nat :=
  if cursor % n ≤ index then index - cursor % n else index + n - cursor % n

theorem turnsUntil_lt {n index : Nat} (hindex : index < n) (cursor : Nat) :
    turnsUntil n index cursor < n := by
  have hmod := Nat.mod_lt cursor (Nat.zero_lt_of_lt hindex)
  unfold turnsUntil
  split <;> omega

/-- Every turn of another source brings a source's own turn nearer by one. -/
theorem turnsUntil_turned {n index cursor : Nat} (hindex : index < n)
    (hother : cursor % n ≠ index) :
    turnsUntil n index ((cursor % n + 1) % n) + 1 = turnsUntil n index cursor := by
  have hmod := Nat.mod_lt cursor (Nat.zero_lt_of_lt hindex)
  unfold turnsUntil
  rw [Nat.mod_mod]
  by_cases hlast : cursor % n + 1 = n
  · rw [hlast, Nat.mod_self, if_pos (Nat.zero_le index)]
    split <;> omega
  · rw [Nat.mod_eq_of_lt (Nat.lt_of_le_of_ne hmod hlast)]
    split <;> split <;> omega

theorem Handlers.first_eq (handlers : Handlers) (cursor : Nat) :
    handlers.first cursor = handlers.sources[cursor % handlers.sources.length]? := by
  unfold first order
  cases hsources : handlers.sources with
  | nil => simp
  | cons src rest =>
      have hmod : cursor % (src :: rest).length < (src :: rest).length :=
        Nat.mod_lt cursor (Nat.succ_pos _)
      rw [List.head?_append, List.head?_drop, List.getElem?_eq_getElem hmod]
      rfl

/-! ## Draws -/

/-- A claim that returns rows makes a call. -/
theorem deliveries_ne_nil (handlers : Handlers) {rows : List (Task J)} (h : rows ≠ []) :
    deliveries handlers rows ≠ [] := by
  intro hnil
  have hperm := perm_deliveries handlers rows
  rw [hnil] at hperm
  exact h (List.nil_perm.mp hperm)

/-- The first source of an order is drawn from when it has a share and rows. -/
theorem exists_draw_first {capacity inFlight taken : String → Nat} {session : ClaimSession J}
    {rest : List ClaimSource} {left : Nat} (hleft : left ≠ 0) (hbatch : 0 < src.batch)
    (hshare : quota (headroom capacity inFlight taken src) left ≠ 0)
    (hrows : Backlogged src (.plan session)) :
    ∃ d ∈ planFrom cfg.handlers capacity inFlight session (src :: rest) left taken,
      d.source = src ∧ d.calls ≠ [] := by
  have hclaimed := hrows _ (Nat.mul_pos hbatch (Nat.pos_of_ne_zero hshare))
  unfold planFrom
  dsimp only
  rw [if_neg hleft, if_neg hshare, if_neg (by rwa [List.isEmpty_iff])]
  exact ⟨_, List.mem_cons_self, rfl, deliveries_ne_nil cfg.handlers hclaimed⟩

/-- At its own turn a source with rows, a free call and a free unit is drawn from. -/
theorem draws_of_first {s : WorkerState J} {free : Nat} {session : ClaimSession J}
    (hfirst : cfg.handlers.first s.cursor = some src) (hfree : 0 < free)
    (hopen : src.Open cfg.capacity s.inFlight) (hrows : Backlogged src (.plan session)) :
    (s.record cfg free session).Draws src := by
  rcases List.head?_eq_some_iff.mp hfirst with ⟨rest, horder⟩
  have hmem : src ∈ cfg.handlers.order s.cursor := by
    rw [horder]
    exact List.mem_cons_self
  have hshare : quota (headroom cfg.capacity s.inFlight (fun _ => 0) src) free ≠ 0 := by
    unfold headroom quota
    cases hres : src.resource with
    | none => exact Nat.pos_iff_ne_zero.mp hfree
    | some r =>
        have hunit := hopen r hres
        show min (cfg.capacity r - s.inFlight r - 0) free ≠ 0
        omega
  show ∃ d ∈ planFrom cfg.handlers cfg.capacity s.inFlight session
    (cfg.handlers.order s.cursor) free fun _ => 0, _
  rw [horder]
  exact exists_draw_first (Nat.pos_iff_ne_zero.mp hfree) (Handlers.batch_pos (mem_order.mp hmem))
    hshare hrows

/-! ## Steps -/

/-- Every step but a plan leaves the log alone, and the cursor moves with a plan only. -/
theorem cursor_cases {s s' : WorkerState J} {l : WorkerStep J} (hstep : worker cfg s l = some s') :
    (s'.cursor = s.cursor ∧ s'.plans = s.plans) ∨
      (s'.cursor = s.turned cfg ∧ ∃ free, s.polling = some (.asked free) ∧
        ((l = .fail true ∧ s'.plans = s.plans) ∨
          ∃ session, l = .plan session ∧ s'.plans = s.plans ++ [s.record cfg free session])) := by
  cases l with
  | poll =>
      simp only [worker] at hstep
      split at hstep
      · split at hstep
        · cases hstep
          exact Or.inl ⟨rfl, rfl⟩
        · cases hstep
      · cases hstep
  | plan session =>
      simp only [worker] at hstep
      split at hstep
      · rename_i free hasked
        cases hstep
        exact Or.inr ⟨rfl, free, hasked, Or.inr ⟨session, rfl, rfl⟩⟩
      · cases hstep
  | fail turned =>
      simp only [worker] at hstep
      split at hstep
      · rename_i free hasked
        cases hstep
        cases turned with
        | false => exact Or.inl ⟨rfl, rfl⟩
        | true => exact Or.inr ⟨rfl, free, hasked, Or.inl ⟨rfl, rfl⟩⟩
      · cases hstep
        exact Or.inl ⟨rfl, rfl⟩
      · cases hstep
  | dispatch =>
      simp only [worker] at hstep
      split at hstep
      · rename_i draws hplanned
        cases hstep
        have hcursor : ∀ (calls : List (RunningCall J)) (s : WorkerState J),
            (calls.foldl WorkerState.start s).cursor = s.cursor := by
          intro calls
          induction calls with
          | nil => exact fun _ => rfl
          | cons c rest ih => exact fun s => ih (s.start c)
        exact Or.inl ⟨hcursor _ _, (WorkerState.foldl_start _ _).2.2.1⟩
      · cases hstep
  | complete i =>
      simp only [worker] at hstep
      split at hstep
      · cases hstep
        exact Or.inl ⟨rfl, rfl⟩
      · cases hstep

/-- A poll asks only when a call is free. -/
def WorkerState.AsksFree (s : WorkerState J) : Prop :=
  ∀ free, s.polling = some (.asked free) → 0 < free

theorem WorkerState.AsksFree.of_step {s s' : WorkerState J} {l : WorkerStep J}
    (h : s.AsksFree) (hstep : worker cfg s l = some s') : s'.AsksFree := by
  intro free hasked
  cases l with
  | poll =>
      simp only [worker] at hstep
      split at hstep
      · split at hstep
        · rename_i hroom
          cases hstep
          cases hasked
          exact Nat.sub_pos_of_lt hroom.1
        · cases hstep
      · cases hstep
  | plan session =>
      simp only [worker] at hstep
      split at hstep
      · cases hstep
        cases hasked
      · cases hstep
  | fail turned =>
      simp only [worker] at hstep
      split at hstep
      · cases hstep
        cases hasked
      · cases hstep
        cases hasked
      · cases hstep
  | dispatch =>
      simp only [worker] at hstep
      split at hstep
      · cases hstep
        rw [(foldl_start _ _).2.1] at hasked
        cases hasked
      · cases hstep
  | complete i =>
      simp only [worker] at hstep
      split at hstep
      · cases hstep
        exact h free hasked
      · cases hstep

/-! ## Runs -/

/-- Since an earlier state the source has been drawn from, or every plan made has brought its turn
nearer. -/
structure Rotating (cfg : WorkerConfig) (src : ClaimSource) (index : Nat) (s₀ s : WorkerState J) :
    Prop where
  asksFree : s.AsksFree
  plans : s₀.plans <+: s.plans
  drawn : (∃ p ∈ s.plans.drop s₀.plans.length, p.Admits cfg src ∧ p.Draws src) ∨
    s.plans.length + turnsUntil cfg.handlers.sources.length index s.cursor ≤
      s₀.plans.length + turnsUntil cfg.handlers.sources.length index s₀.cursor

theorem Rotating.of_step {index : Nat} {s₀ s s' : WorkerState J} {l : WorkerStep J}
    (hindex : cfg.handlers.sources[index]? = some src) (h : Rotating cfg src index s₀ s)
    (hrows : Backlogged src l) (hkept : TurnKept cfg src s l) (hstep : worker cfg s l = some s') :
    Rotating cfg src index s₀ s' := by
  have hlt : index < cfg.handlers.sources.length := (List.getElem?_eq_some_iff.mp hindex).1
  have hfirst : s.cursor % cfg.handlers.sources.length = index →
      cfg.handlers.first s.cursor = some src := by
    intro hturn
    rw [Handlers.first_eq, hturn, hindex]
  have hasksFree := h.asksFree.of_step hstep
  rcases cursor_cases hstep with ⟨hcursor, hplans⟩ | ⟨hcursor, free, hasked, hmade⟩
  · refine ⟨hasksFree, hplans ▸ h.plans, ?_⟩
    rw [hplans, hcursor]
    exact h.drawn
  · rcases hmade with ⟨rfl, hplans⟩ | ⟨session, rfl, hplans⟩
    · -- the session failed at the turn of another source
      have hother : s.cursor % cfg.handlers.sources.length ≠ index := fun hturn =>
        hkept free hasked (hfirst hturn)
      have hnearer := turnsUntil_turned hlt hother
      refine ⟨hasksFree, hplans ▸ h.plans, ?_⟩
      rw [hplans, hcursor]
      refine h.drawn.imp_right fun hle => ?_
      rw [WorkerState.turned]
      omega
    · have hprefix : s₀.plans <+: s'.plans := by
        rw [hplans]
        exact h.plans.trans (List.prefix_append _ _)
      have hdrop : s'.plans.drop s₀.plans.length =
          s.plans.drop s₀.plans.length ++ [s.record cfg free session] := by
        rw [hplans, List.drop_append_of_le_length h.plans.length_le]
      refine ⟨hasksFree, hprefix, ?_⟩
      rw [hdrop]
      by_cases hturn : s.cursor % cfg.handlers.sources.length = index
      · have hfree := h.asksFree free hasked
        have hopen := hkept (hfirst hturn)
        exact Or.inl ⟨_, List.mem_append_right _ (List.mem_singleton_self _), ⟨hfree, hopen⟩,
          draws_of_first (hfirst hturn) hfree hopen hrows⟩
      · have hnearer := turnsUntil_turned hlt hturn
        rcases h.drawn with ⟨p, hp, hdraws⟩ | hle
        · exact Or.inl ⟨p, List.mem_append_left _ hp, hdraws⟩
        · right
          rw [hplans, hcursor, WorkerState.turned, List.length_append, List.length_singleton]
          omega

/-- No starvation by a backlog.  In every run of a worker, from any state it reaches, in which a
source has claimable rows in every claim session and does not lose a turn: among as many plans as
there are sources that start with a free call and a free unit for it, one draws a call from it. -/
theorem draws_within_rotation {s₀ s : WorkerState J} (hsrc : src ∈ cfg.handlers.sources)
    (hstart : (worker cfg).Reachable anyStep .fresh s₀)
    (hrun : (worker cfg).Reachable (fun s l => Backlogged src l ∧ TurnKept cfg src s l) s₀ s)
    (hplans : cfg.handlers.sources.length ≤
      (s.plans.drop s₀.plans.length).countP fun p => decide (p.Admits cfg src)) :
    ∃ p ∈ s.plans.drop s₀.plans.length, p.Admits cfg src ∧ p.Draws src := by
  rcases List.mem_iff_getElem?.mp hsrc with ⟨index, hindex⟩
  have hlt : index < cfg.handlers.sources.length := (List.getElem?_eq_some_iff.mp hindex).1
  have hasksFree : s₀.AsksFree :=
    hstart.invariant (fun _ _ _ h _ hstep => h.of_step hstep) fun _ h => by cases h
  have hrotating : Rotating cfg src index s₀ s :=
    hrun.invariant (fun _ _ _ h hguard hstep => h.of_step hindex hguard.1 hguard.2 hstep)
      ⟨hasksFree, List.prefix_refl _, Or.inr (Nat.le_refl _)⟩
  refine hrotating.drawn.resolve_right fun hle => ?_
  have hcount := List.countP_le_length (l := s.plans.drop s₀.plans.length)
    (p := fun p => decide (p.Admits cfg src))
  have hwait := turnsUntil_lt hlt s₀.cursor
  have hprefix := hrotating.plans.length_le
  rw [List.length_drop] at hcount
  omega

/-! ## The log -/

/-- The state with plans made before it. -/
def WorkerState.after (earlier : List (PlanRecord J)) (s : WorkerState J) : WorkerState J :=
  { s with plans := earlier ++ s.plans }

theorem foldl_start_after (earlier : List (PlanRecord J)) (calls : List (RunningCall J))
    (s : WorkerState J) :
    calls.foldl WorkerState.start (s.after earlier) =
      (calls.foldl WorkerState.start s).after earlier := by
  induction calls generalizing s with
  | nil => rfl
  | cons c rest ih => exact ih (s.start c)

/-- The loop does not read its log. -/
theorem worker_after (earlier : List (PlanRecord J)) (s : WorkerState J) (l : WorkerStep J) :
    worker cfg (s.after earlier) l = (worker cfg s l).map (WorkerState.after earlier) := by
  rcases s with ⟨inFlight, cursor, running, polling, plans⟩
  cases l with
  | poll =>
      simp only [worker, WorkerState.after]
      split
      · rw [apply_ite (Option.map (WorkerState.after earlier))]
        rfl
      · rfl
  | plan session =>
      simp only [worker, WorkerState.after]
      split
      · simp only [Option.map_some, List.append_assoc]
        rfl
      · rfl
  | fail turned =>
      simp only [worker, WorkerState.after]
      split <;> rfl
  | dispatch =>
      simp only [worker, WorkerState.after]
      split
      · rename_i draws
        exact congrArg some (foldl_start_after earlier (WorkerState.toStart draws)
          ⟨inFlight, cursor, running, none, plans⟩)
      · rfl
  | complete i =>
      simp only [worker, WorkerState.after]
      split <;> rfl

theorem drive_after (earlier : List (PlanRecord J)) (s : WorkerState J) (ls : List (WorkerStep J)) :
    (worker cfg).drive (s.after earlier) ls = ((worker cfg).drive s ls).after earlier := by
  induction ls generalizing s with
  | nil => rfl
  | cons l ls ih =>
      rw [Machine.drive, Machine.drive, worker_after]
      cases worker cfg s l with
      | none => exact ih s
      | some s' => exact ih s'

/-! ## Two names on one unit -/

/-- Two names that share the one unit of a resource, and a second slot. -/
def contended : WorkerConfig where
  handlers :=
    { entries :=
        [("embed",
           { batch := none, resource := some "gpu", batch_pos := Registration.batch_pos_none }),
          ("render",
            { batch := none, resource := some "gpu", batch_pos := Registration.batch_pos_none })]
      nodup := by decide }
  capacity := fun _ => 1
  concurrency := 2
  concurrency_pos := by decide

/-- The source of {lit}`render`. -/
def renderSource : ClaimSource where
  names := ["render"]
  batch := 1
  resource := some "gpu"

/-- A queue with a task for each name. -/
def bothQueued : ClaimSession Nat :=
  .ofQueue [(NewTask.plain "1" "embed" 3 0).row 0 0, (NewTask.plain "2" "render" 3 0).row 0 0]

theorem backlogged_bothQueued : Backlogged renderSource (.plan bothQueued) := by
  intro limit hlimit hnil
  have hrow : bothQueued.claim renderSource.names limit =
      [(NewTask.plain "2" "render" 3 0).row 0 0].take limit := rfl
  rw [hrow, List.take_of_length_le hlimit] at hnil
  cases hnil

/-- {lit}`embed` is drawn, runs and ends before the next poll. -/
def alternatingRun : List (WorkerStep Nat) :=
  [.poll, .plan bothQueued, .dispatch, .complete 0, .poll, .plan bothQueued]

/-- In the run that follows, {lit}`render` is drawn. -/
theorem draws_within_rotation_alternatingRun :
    ∃ p ∈ ((worker contended).drive .fresh alternatingRun).plans,
      p.Admits contended renderSource ∧ p.Draws renderSource := by
  have hrun : (worker contended).Reachable
      (fun s l => Backlogged renderSource l ∧ TurnKept contended renderSource s l) .fresh
      ((worker contended).drive .fresh alternatingRun) := by
    refine ⟨alternatingRun, .cons ⟨trivial, trivial⟩ rfl (.cons ⟨backlogged_bothQueued, ?_⟩ rfl
      (.cons ⟨trivial, trivial⟩ rfl (.cons ⟨trivial, trivial⟩ rfl (.cons ⟨trivial, trivial⟩ rfl
      (.cons ⟨backlogged_bothQueued, ?_⟩ rfl (.nil _))))))⟩
    · intro _
      decide
    · intro _
      decide
  exact draws_within_rotation (by decide) (Machine.Reachable.start _ _ _) hrun (by decide)

/-- {lit}`embed` is drawn and still runs at the next poll, which is the turn of {lit}`render`. -/
def embedRound : List (WorkerStep Nat) :=
  [.poll, .plan bothQueued, .dispatch, .poll, .plan bothQueued, .dispatch, .complete 0]

/-- The two plans of a round. -/
def roundPlans : List (PlanRecord Nat) :=
  ((worker contended).drive .fresh embedRound).plans

/-- A round ends where it began. -/
theorem drive_embedRound :
    (worker contended).drive .fresh embedRound = WorkerState.fresh.after roundPlans := by
  have hinFlight : ((worker contended).drive .fresh embedRound).inFlight = fun _ => 0 := by
    funext r
    show WorkerState.release (charge (fun _ => 0) (some "gpu") 1) (some "gpu") r = 0
    rw [WorkerState.release_apply, WorkerState.charge_one]
    omega
  have hcursor : ((worker contended).drive .fresh embedRound).cursor = 0 := rfl
  have hrunning : ((worker contended).drive .fresh embedRound).running = [] := rfl
  have hpolling : ((worker contended).drive .fresh embedRound).polling = none := rfl
  unfold roundPlans
  generalize (worker contended).drive .fresh embedRound = s at *
  rcases s with ⟨inFlight, cursor, running, polling, plans⟩
  dsimp only at hinFlight hcursor hrunning hpolling
  subst hinFlight hcursor hrunning hpolling
  simp [WorkerState.after, WorkerState.fresh]

/-- A round makes one plan with a free unit, and neither of its plans draws {lit}`render`. -/
theorem roundPlans_spec :
    roundPlans.countP (fun p => decide (p.Admits contended renderSource)) = 1 ∧
      ∀ p ∈ roundPlans, ∀ d ∈ p.draws, d.source ≠ renderSource := by
  decide

/-- A source starves: two names share a unit, and however often the unit is free at the start of a
plan while {lit}`render` has claimable rows, no plan draws it. -/
theorem starved :
    renderSource ∈ contended.handlers.sources ∧ contended.handlers.sources.length = 2 ∧
      ∀ n, ∃ s : WorkerState Nat,
        (worker contended).Reachable (fun _ l => Backlogged renderSource l) .fresh s ∧
          n ≤ s.plans.countP (fun p => decide (p.Admits contended renderSource)) ∧
          ∀ p ∈ s.plans, ¬p.Draws renderSource := by
  refine ⟨by decide, by decide, fun n => ?_⟩
  have hrounds : ∃ plans : List (PlanRecord Nat),
      (worker contended).Reachable (fun _ l => Backlogged renderSource l) .fresh
        (WorkerState.fresh.after plans) ∧
      n ≤ plans.countP (fun p => decide (p.Admits contended renderSource)) ∧
      ∀ p ∈ plans, ∀ d ∈ p.draws, d.source ≠ renderSource := by
    induction n with
    | zero =>
        refine ⟨[], Machine.Reachable.start _ _ _, Nat.le_refl 0, ?_⟩
        intro p hp
        cases hp
    | succ n ih =>
        rcases ih with ⟨plans, hreach, hcount, hothers⟩
        have hround : (worker contended).drive (WorkerState.fresh.after plans) embedRound =
            (WorkerState.fresh.after roundPlans).after plans := by
          rw [drive_after, drive_embedRound]
        refine ⟨plans ++ roundPlans, hreach.trans ?_, ?_, fun p hp => ?_⟩
        · have hafter : (WorkerState.fresh.after roundPlans).after plans =
              WorkerState.fresh.after (plans ++ roundPlans) := by
            simp [WorkerState.after, WorkerState.fresh]
          rw [← hafter, ← hround]
          refine Machine.reachable_drive _ _ _ fun l hl s => ?_
          simp only [embedRound, List.mem_cons, List.not_mem_nil, or_false] at hl
          rcases hl with rfl | rfl | rfl | rfl | rfl | rfl | rfl
          all_goals first | exact backlogged_bothQueued | trivial
        · rw [List.countP_append, roundPlans_spec.1]
          omega
        · exact (List.mem_append.mp hp).elim (hothers p) (roundPlans_spec.2 p)
  rcases hrounds with ⟨plans, hreach, hcount, hothers⟩
  refine ⟨WorkerState.fresh.after plans, hreach, ?_, fun p hp hdraws => ?_⟩
  · simpa [WorkerState.after, WorkerState.fresh] using hcount
  · rcases hdraws with ⟨d, hd, hsource, -⟩
    refine hothers p ?_ d hd hsource
    simpa [WorkerState.after, WorkerState.fresh] using hp

end CairnQ
