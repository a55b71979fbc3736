import G1Jepa.BucketAgreement
import Mathlib.Order.Bounds.Basic

/-!
# The planned target

The policy caches the object position when it plans, and every state acts on the cache. Over a run
the cache is the position read by the latest replan: neither an aborted lift nor a retry nor a call
of `act` refreshes it.
-/

namespace G1Jepa

/-! ## The latest write -/

/-- What a cache holds before step `n`: the value of the latest write, or the initial one. -/
structure Latest {α : Type} (writes : ℕ → Prop) (values : ℕ → Option α) (initial : α) (n : ℕ)
    (cached : α) : Prop where
  written : ∀ u, IsGreatest {u | u < n ∧ writes u} u → values u = some cached
  unwritten : (∀ u < n, ¬writes u) → cached = initial

namespace Latest

variable {α : Type} {writes : ℕ → Prop} {values : ℕ → Option α} {initial cached value : α} {n : ℕ}

theorem start : Latest writes values initial 0 initial where
  written u latest := absurd latest.1.1 (Nat.not_lt_zero u)
  unwritten _ := rfl

theorem write (writing : writes n) (read : values n = some value) :
    Latest writes values initial (n + 1) value where
  written u latest := by
    obtain rfl : u = n :=
      le_antisymm (Nat.lt_succ_iff.mp latest.1.1) (latest.2 ⟨Nat.lt_succ_self n, writing⟩)
    exact read
  unwritten untouched := absurd writing (untouched n (Nat.lt_succ_self n))

theorem keep (holds : Latest writes values initial n cached) (idle : ¬writes n) :
    Latest writes values initial (n + 1) cached where
  written u latest := by
    have earlier : ∀ v, v < n + 1 ∧ writes v → v < n ∧ writes v := by
      rintro v ⟨bound, writing⟩
      rcases Nat.lt_succ_iff_lt_or_eq.mp bound with inside | rfl
      · exact ⟨inside, writing⟩
      · exact absurd writing idle
    exact holds.written u
      ⟨earlier u latest.1, fun v ⟨inside, writing⟩ =>
        latest.2 ⟨Nat.lt_succ_of_lt inside, writing⟩⟩
  unwritten untouched := holds.unwritten fun u bound => untouched u (Nat.lt_succ_of_lt bound)

end Latest

/-! ## The target over a run -/

variable {K E R Row σ : Type} [Field K] [LinearOrder K] {env : Env K E R Row}
  {setting : ReplanSetting K E σ} {args : EpisodeArgs K} {s : E} {t : ℕ}

/-- The object position that step `t` of a run reads, when the run gets that far. -/
def objectRead (env : Env K E R Row) (setting : ReplanSetting K E σ) (args : EpisodeArgs K) (s : E)
    (t : ℕ) : Option (Fin 3 → K) :=
  (runReadings env setting args s t).map Readings.obj

theorem objectRead_eq {run : RunState K E R Row σ}
    (reached : runLoop env setting args s t = .ok (run, false)) :
    objectRead env setting args s t =
      some (env.getObjectPos (perturbStage env t run.episode).2.2.sim) := by
  rw [objectRead, runReadings_eq reached, Option.map_some]
  rfl

variable (env) in
/-- The logged position is the one that a replan in the same step would plan with. -/
theorem perturbStage_obj (t : ℕ) (s : EpisodeState K E R Row) :
    (perturbStage env t s).2.1 = env.getObjectPos (perturbStage env t s).2.2.sim := by
  change (if (s.sched.maybeFire env s.sim t s.policy.state).1 then
      env.getObjectPos (s.sched.maybeFire env s.sim t s.policy.state).2.1
    else env.getObjectPos s.sim) =
    env.getObjectPos (s.sched.maybeFire env s.sim t s.policy.state).2.1
  have called := PerturbationScheduler.called_maybeFire env s.sched s.sim t s.policy.state
  generalize s.sched.maybeFire env s.sim t s.policy.state = outcome at called ⊢
  obtain ⟨fired, sim, sched⟩ := outcome
  cases called <;> rfl

/-- The decision that step `t` makes, `false` standing for an exception. -/
def decidedAt (env : Env K E R Row) (setting : ReplanSetting K E σ) (t : ℕ)
    (run : RunState K E R Row σ) : Bool :=
  match decisionStage env setting t run with
  | .ok (doReplan, _) => doReplan
  | .error _ => false

theorem replan_eq_append {before after : RunState K E R Row σ} {left : Bool}
    (ran : runStep env setting t before = .ok (after, left)) :
    after.episode.log.replan = before.episode.log.replan ++ [decidedAt env setting t before] := by
  obtain ⟨doReplan, decided, advances⟩ := runStep_eq_ok ran
  rw [decidedAt, decided]
  exact (advanced_of_advanceStage advances).replan

theorem obj_eq_append {before after : RunState K E R Row σ} {left : Bool}
    (ran : runStep env setting t before = .ok (after, left)) :
    after.episode.log.obj = before.episode.log.obj ++
      [env.getObjectPos (perturbStage env t before.episode).2.2.sim] := by
  obtain ⟨doReplan, -, advances⟩ := runStep_eq_ok ran
  obtain ⟨⟨action, policy⟩, -, returned⟩ := Fallible.bind_eq_ok.mp advances
  obtain ⟨episode, -⟩ := Prod.mk.inj (Except.ok.inj returned)
  rw [← episode, ← perturbStage_obj env t before.episode]
  rfl

/-- The lists `log["replan"]` and `log["obj"]` hold the decisions and the positions of the steps. -/
theorem logged_decisions {before after : RunState K E R Row σ} {left : Bool} {u : ℕ}
    (running : runLoop env setting args s t = .ok (before, false))
    (ran : runStep env setting t before = .ok (after, left)) (bound : u ≤ t) :
    after.episode.log.replan[u]? = decisionAt env setting args s u ∧
      after.episode.log.obj[u]? = objectRead env setting args s u := by
  have reached : runLoop env setting args s (t + 1) = .ok (after, left) :=
    (ForRange.loop_succ_of_running running).trans ran
  obtain ⟨earlier, runningThen⟩ := ForRange.exists_earlier bound running
  obtain ⟨next, exit, ranThen⟩ :=
    ForRange.exists_ran reached (Nat.lt_succ_of_le bound) runningThen
  obtain ⟨doReplan, decided, -⟩ := runStep_eq_ok ranThen
  have replan := ForRange.getElem?_log rfl
    (fun t before after left ran => replan_eq_append ran) reached (Nat.lt_succ_of_le bound)
    runningThen
  have obj := ForRange.getElem?_log rfl
    (fun t before after left ran => obj_eq_append ran) reached (Nat.lt_succ_of_le bound)
    runningThen
  rw [replan, obj, decisionAt_eq_some runningThen decided, objectRead_eq runningThen, decidedAt,
    decided]
  exact ⟨rfl, rfl⟩

/-- Before step `t` the policy holds the position of the latest replan, or of the reset. -/
def Planned (env : Env K E R Row) (setting : ReplanSetting K E σ) (args : EpisodeArgs K) (s : E)
    (t : ℕ) (policy : ScriptedPickPlace K) : Prop :=
  ∃ target, policy.target = some target ∧
    Latest (fun u => decisionAt env setting args s u = some true) (objectRead env setting args s)
      (env.getObjectPos (seededReset env args.seed s)) t target

theorem planned_start :
    Planned env setting args s 0 (episodeStart env args s).policy :=
  ⟨_, ScriptedPickPlace.replan_target env _ _ none false, .start⟩

/-- The policy with which an iteration acts, after its decision. -/
def actingPolicy (env : Env K E R Row) (t : ℕ) (perturbed : EpisodeState K E R Row)
    (doReplan : Bool) : ScriptedPickPlace K :=
  if doReplan then perturbed.policy.replan env perturbed.sim (some t) true else perturbed.policy

/-- The decision of a step sets the target or leaves it. -/
theorem Planned.decide {before : RunState K E R Row σ} {doReplan : Bool} {trigger : Option σ}
    (running : runLoop env setting args s t = .ok (before, false))
    (planned : Planned env setting args s t before.episode.policy)
    (decided : decisionStage env setting t before = .ok (doReplan, trigger)) :
    Planned env setting args s (t + 1)
      (actingPolicy env t (perturbStage env t before.episode).2.2 doReplan) := by
  have decision := decisionAt_eq_some running decided
  cases doReplan with
  | true =>
      exact ⟨_, ScriptedPickPlace.replan_target env _ _ (some t) true,
        .write decision (objectRead_eq running)⟩
  | false =>
      obtain ⟨target, cached, latest⟩ := planned
      exact ⟨target, cached, latest.keep (by simp [decision])⟩

/-- No branch of `act` touches the target. -/
theorem Planned.act_target {policy after : ScriptedPickPlace K} {sim : E} {action : Fin 7 → K}
    (planned : Planned env setting args s t policy)
    (acts : policy.act env sim = .ok (action, after)) : after.target = policy.target := by
  obtain ⟨target, cached, -⟩ := planned
  exact (ScriptedPickPlace.acted_of_act (by rw [cached]; rfl) acts).target

/-- A step of a run plans and then acts on the plan. -/
theorem Planned.step {before after : RunState K E R Row σ} {left : Bool}
    (running : runLoop env setting args s t = .ok (before, false))
    (planned : Planned env setting args s t before.episode.policy)
    (ran : runStep env setting t before = .ok (after, left)) :
    ∃ acting action, Planned env setting args s (t + 1) acting ∧
      acting.act env (perturbStage env t before.episode).2.2.sim =
        .ok (action, after.episode.policy) := by
  obtain ⟨doReplan, decided, advances⟩ := runStep_eq_ok ran
  obtain ⟨action, acts, -⟩ := (advanced_of_advanceStage advances).acted
  exact ⟨_, action, planned.decide running decided, acts⟩

theorem planned_of_runLoop {run : RunState K E R Row σ}
    (running : runLoop env setting args s t = .ok (run, false)) :
    Planned env setting args s t run.episode.policy := by
  refine @ForRange.loop_invariant _ _ _ _
    (fun t (run : RunState K E R Row σ) => Planned env setting args s t run.episode.policy)
    ?_ ?_ t run running
  · exact planned_start
  · intro t before after left running planned ran
    obtain ⟨acting, action, holds, acts⟩ := planned.step running ran
    obtain ⟨target, cached, latest⟩ := holds
    exact ⟨target, (Planned.act_target ⟨target, cached, latest⟩ acts).trans cached, latest⟩

theorem decisionAt_of_noReplan (noReplan : setting.condition = .noReplan) (u : ℕ) :
    decisionAt env setting args s u ≠ some true := by
  rw [decisionAt]
  split
  case h_1 run running =>
    have idle : decisionStage env setting u run = .ok (false, run.trigger) :=
      decideReplan_of_noReplan noReplan ..
    simp [idle]
  case h_2 => simp

/-- In every step the target is the object position that the latest replan so far has read, or the
position after the reset; without replans it is that position for the whole run. -/
theorem target_refreshed_only_by_replan {before after : RunState K E R Row σ} {left : Bool}
    (running : runLoop env setting args s t = .ok (before, false))
    (ran : runStep env setting t before = .ok (after, left)) :
    ∃ target, after.episode.policy.target = some target ∧
      (∃ (acting : ScriptedPickPlace K) (action : Fin 7 → K), acting.target = some target ∧
        acting.act env (perturbStage env t before.episode).2.2.sim =
          .ok (action, after.episode.policy)) ∧
      (∀ u, IsGreatest {u | u ≤ t ∧ decisionAt env setting args s u = some true} u →
        objectRead env setting args s u = some target) ∧
      ((∀ u ≤ t, decisionAt env setting args s u ≠ some true) →
        target = env.getObjectPos (seededReset env args.seed s)) ∧
      (setting.condition = .noReplan → target = env.getObjectPos (seededReset env args.seed s)) ∧
      ∀ u ≤ t, after.episode.log.replan[u]? = decisionAt env setting args s u ∧
        after.episode.log.obj[u]? = objectRead env setting args s u := by
  obtain ⟨acting, action, planned, acts⟩ := (planned_of_runLoop running).step running ran
  have kept := planned.act_target acts
  obtain ⟨target, cached, latest⟩ := planned
  have initial : (∀ u ≤ t, decisionAt env setting args s u ≠ some true) →
      target = env.getObjectPos (seededReset env args.seed s) :=
    fun idle => latest.unwritten fun u bound => idle u (Nat.lt_succ_iff.mp bound)
  refine ⟨target, kept.trans cached, ⟨acting, action, cached, acts⟩, ?_, initial, ?_, ?_⟩
  · simp only [← Nat.lt_succ_iff]
    exact latest.written
  · intro noReplan
    apply initial
    intro u bound
    exact decisionAt_of_noReplan noReplan u
  · intro u bound
    exact logged_decisions running ran bound

/-- The descent over an object that moves by one metre in every step. -/
def driftingEnv : Env ℚ ℕ Unit Unit :=
  { glidingEnv with objQpos := fun n => ![n, 0, 0, 1, 0, 0, 0] }

/-- A replan every other step. -/
def driftingSetting : ReplanSetting ℚ ℕ (TriggerState Unit ℚ 1 (.ofGlobal 0 1)) :=
  { glidingSetting with condition := .fixed, fixedPeriod := 2 }

/-- In step 5 the policy is still at the position of step 4. -/
theorem target_refreshed_only_by_replan_drifting : ∃ before after left,
    runLoop driftingEnv driftingSetting glidingArgs 0 5 = .ok (before, false) ∧
      runStep driftingEnv driftingSetting 5 before = .ok (after, left) ∧
      after.episode.policy.target = some ![4, 0, 0] := by
  have runs : Fallible.Returns (runLoop driftingEnv driftingSetting glidingArgs 0 5)
      fun outcome => outcome.2 = false ∧
        (runStep driftingEnv driftingSetting 5 outcome.1).isOk = true := by decide +kernel
  have decisions : ∀ u ≤ 5, decisionAt driftingEnv driftingSetting glidingArgs 0 u =
      some (decide (u = 2 ∨ u = 4)) := by decide +kernel
  have read : objectRead driftingEnv driftingSetting glidingArgs 0 4 = some ![4, 0, 0] := by
    decide +kernel
  obtain ⟨⟨before, _⟩, running, rfl, returns⟩ := runs.exists_eq_ok
  obtain ⟨⟨after, left⟩, ran⟩ := Fallible.exists_eq_ok returns
  obtain ⟨target, cached, -, latest, -⟩ := target_refreshed_only_by_replan running ran
  have greatest : IsGreatest
      {u | u ≤ 5 ∧ decisionAt driftingEnv driftingSetting glidingArgs 0 u = some true} 4 := by
    refine ⟨⟨by decide, decisions 4 (by decide)⟩, ?_⟩
    rintro u ⟨bound, decided⟩
    rw [decisions u bound] at decided
    simp only [Option.some.injEq, decide_eq_true_eq] at decided
    omega
  rw [latest 4 greatest] at read
  exact ⟨before, after, left, running, ran, cached.trans read⟩

end G1Jepa
