import G1Jepa.RunEpisode

/-!
# Runs as functions of their replan schedule

Of everything that `run_episode` receives, the condition, the period, the trigger and the observe
flag reach the episode through one Boolean in each step. Two runs whose decisions agree so far are
therefore in the same state, and a trigger that is only observed changes nothing.
-/

namespace G1Jepa

variable {K E R Row σ τ : Type} [Field K] [LinearOrder K] {env : Env K E R Row}
  {args : EpisodeArgs K}

/-- What `env.reset` leaves behind is determined by the seeded placement sampler. -/
def Env.ResetDetermined (env : Env K E R Row) : Prop :=
  ∀ seed s s', seededReset env seed s = seededReset env seed s'

/-- An iteration that returns has made a decision and carried it out. -/
theorem runStep_eq_ok {setting : ReplanSetting K E σ} {t : ℕ} {s after : RunState K E R Row σ}
    {left : Bool} (ran : runStep env setting t s = .ok (after, left)) :
    ∃ doReplan, decisionStage env setting t s = .ok (doReplan, after.trigger) ∧
      advanceStage env t s.episode doReplan = .ok (after.episode, left) := by
  obtain ⟨⟨doReplan, trigger⟩, decided, rest⟩ := Fallible.bind_eq_ok.mp ran
  obtain ⟨⟨episode, exit⟩, advanced, returned⟩ := Fallible.bind_eq_ok.mp rest
  obtain ⟨rfl, rfl⟩ := Prod.mk.inj (Except.ok.inj returned)
  exact ⟨doReplan, decided, advanced⟩

theorem runStep_of_stages {setting : ReplanSetting K E σ} {t : ℕ} {s : RunState K E R Row σ}
    {doReplan left : Bool} {trigger : Option σ} {episode : EpisodeState K E R Row}
    (decided : decisionStage env setting t s = .ok (doReplan, trigger))
    (advanced : advanceStage env t s.episode doReplan = .ok (episode, left)) :
    runStep env setting t s = .ok (⟨episode, trigger⟩, left) := by
  rw [runStep, decided, Fallible.ok_bind]
  dsimp only
  rw [advanced, Fallible.ok_bind]

theorem decisionAt_eq_some {setting : ReplanSetting K E σ} {s : E} {t : ℕ}
    {state : RunState K E R Row σ} {doReplan : Bool} {trigger : Option σ}
    (reached : runLoop env setting args s t = .ok (state, false))
    (decided : decisionStage env setting t state = .ok (doReplan, trigger)) :
    decisionAt env setting args s t = some doReplan := by
  rw [decisionAt, reached]
  simp only [decided]

theorem episodeStart_eq (determined : env.ResetDetermined) (s s' : E) :
    episodeStart env args s = episodeStart env args s' := by
  rw [episodeStart, episodeStart, determined args.seed s s']

/-- Two runs are in the same episode state, whatever their triggers have seen. -/
def SameEpisode (left : RunState K E R Row σ) (right : RunState K E R Row τ) : Prop :=
  left.episode = right.episode

/-- Runs whose decisions have agreed so far are in the same episode state. -/
theorem runLoop_episode_eq {left : ReplanSetting K E σ} {right : ReplanSetting K E τ} {s s' : E}
    {t : ℕ} (determined : env.ResetDetermined)
    (agree : ∀ u < t, decisionAt env left args s u = decisionAt env right args s' u)
    {stateL : RunState K E R Row σ} {stateR : RunState K E R Row τ} {exitL exitR : Bool}
    (reachedL : runLoop env left args s t = .ok (stateL, exitL))
    (reachedR : runLoop env right args s' t = .ok (stateR, exitR)) :
    SameEpisode stateL stateR ∧ exitL = exitR := by
  have initial : SameEpisode (runStart env left args s) (runStart env right args s') :=
    episodeStart_eq determined s s'
  refine ForRange.loop_related initial ?_ reachedL reachedR
  intro u bound beforeL beforeR afterL afterR leftL leftR earlierL earlierR same ranL ranR
  obtain ⟨decisionL, decidedL, advancedL⟩ := runStep_eq_ok ranL
  obtain ⟨decisionR, decidedR, advancedR⟩ := runStep_eq_ok ranR
  have equal := agree u bound
  rw [decisionAt_eq_some earlierL decidedL, decisionAt_eq_some earlierR decidedR,
    Option.some.injEq] at equal
  rw [SameEpisode] at same
  rw [same, equal, advancedR] at advancedL
  exact Prod.mk.inj (Except.ok.inj advancedL.symm)

omit [LinearOrder K] in
/-- An observed trigger never asks for a replan. -/
theorem decideReplan_of_observeOnly {setting : ReplanSetting K E σ}
    (jepa : setting.condition = .jepa) (observes : setting.observeOnly = true)
    {trigger after : Option σ} {t : ℕ} {fired doReplan : Bool} {sim : E}
    {policy : ScriptedPickPlace K}
    (decided : decideReplan setting trigger t fired sim policy = .ok (doReplan, after)) :
    doReplan = false := by
  simp only [decideReplan, jepa] at decided
  cases trigger with
  | none => exact (Prod.mk.inj (Except.ok.inj decided)).1.symm
  | some st =>
      obtain ⟨⟨requested, next⟩, -, returned⟩ := Fallible.bind_eq_ok.mp decided
      rw [observes] at returned
      exact (Prod.mk.inj (Except.ok.inj returned)).1.symm

omit [LinearOrder K] in
theorem decideReplan_of_noReplan {setting : ReplanSetting K E σ}
    (idle : setting.condition = .noReplan) (trigger : Option σ) (t : ℕ) (fired : Bool) (sim : E)
    (policy : ScriptedPickPlace K) :
    decideReplan setting trigger t fired sim policy = .ok (false, trigger) := by
  simp only [decideReplan, idle]

/-- The run without replans follows every run in which the trigger is only observed. -/
theorem exists_baseline_runLoop {observer : ReplanSetting K E σ} {baseline : ReplanSetting K E τ}
    (determined : env.ResetDetermined) (jepa : observer.condition = .jepa)
    (observes : observer.observeOnly = true) (idle : baseline.condition = .noReplan) {s : E}
    (s' : E) {t : ℕ} {state : RunState K E R Row σ} {exit : Bool}
    (reached : runLoop env observer args s t = .ok (state, exit)) :
    ∃ state', runLoop env baseline args s' t = .ok (state', exit) ∧
      state'.episode = state.episode := by
  induction t generalizing state exit with
  | zero =>
      obtain ⟨rfl, rfl⟩ := Prod.mk.inj (Except.ok.inj reached)
      exact ⟨_, rfl, episodeStart_eq determined s' s⟩
  | succ t induction =>
      rcases ForRange.loop_succ_eq_ok reached with ⟨left, rfl⟩ | ⟨before, running, ran⟩
      · obtain ⟨state', follows, same⟩ := induction left
        exact ⟨state', ForRange.loop_succ_of_left follows, same⟩
      · obtain ⟨before', follows, same⟩ := induction running
        obtain ⟨doReplan, decided, advanced⟩ := runStep_eq_ok ran
        obtain rfl := decideReplan_of_observeOnly jepa observes decided
        have decides : decisionStage env baseline t before' = .ok (false, before'.trigger) :=
          decideReplan_of_noReplan idle ..
        rw [← same] at advanced
        refine ⟨⟨state.episode, before'.trigger⟩, ?_, rfl⟩
        rw [runLoop, ForRange.loop_succ_of_running follows]
        exact runStep_of_stages decides advanced

/-- A run depends on the condition, the period, the trigger and the observe flag only through the
decisions to replan; so a run that only observes its trigger returns what the run without replans
returns. -/
theorem runEpisode_depends_on_schedule (determined : env.ResetDetermined) (args : EpisodeArgs K) :
    (∀ (left : ReplanSetting K E σ) (right : ReplanSetting K E τ) (s s' : E) (t : ℕ),
      (∀ u < t, decisionAt env left args s u = decisionAt env right args s' u) →
      ∀ stateL stateR exitL exitR, runLoop env left args s t = .ok (stateL, exitL) →
        runLoop env right args s' t = .ok (stateR, exitR) →
        stateL.episode = stateR.episode ∧ exitL = exitR) ∧
      ∀ (observer : ReplanSetting K E σ) (baseline : ReplanSetting K E τ) (s s' : E),
        observer.condition = .jepa → observer.observeOnly = true →
        baseline.condition = .noReplan →
        ∀ result sim trigger, runEpisode env observer args s = .ok (result, sim, trigger) →
          ∃ result' trigger', runEpisode env baseline args s' = .ok (result', sim, trigger') ∧
            result'.success = result.success ∧ result'.steps = result.steps ∧
            result'.log = result.log ∧ result'.perturbStep = result.perturbStep ∧
            result'.perturbDelta = result.perturbDelta := by
  constructor
  · intro left right s s' t agree stateL stateR exitL exitR reachedL reachedR
    exact runLoop_episode_eq determined agree reachedL reachedR
  · intro observer baseline s s' jepa observes idle result sim trigger ran
    obtain ⟨state, exit, reached, rfl, rfl, rfl⟩ := exists_runLoop ran
    obtain ⟨state', follows, same⟩ :=
      exists_baseline_runLoop determined jepa observes idle s' reached
    refine ⟨runResult baseline args state', state'.trigger, ?_, ?_⟩
    · rw [runEpisode, follows, Fallible.ok_bind, ← same]
    · simp only [runResult, same, and_self]

/-- A simulator in which the gripper stays one metre above the hover point of the object. -/
def hoveringEnv : Env ℚ ℕ Unit Unit := .still ![0, 0, 11 / 10] 0

/-- An encoder whose latent jumps at the given steps. -/
def spikeEncoder (times : List ℕ) : VideoEncoder (List Unit) ℕ ℚ 1 where
  encode clip := (clip.getLast?.getD []).length
  pool n := { mean := fun _ => if n ∈ times then 10 else 0, temporal := 0, grid := 0 }

/-- A trigger that encodes single frames and fires on the first high error. -/
def hoveringConfig : TriggerConfig ℚ :=
  { TriggerConfig.ofGlobal 0 1 with framesN := 1, warmup := 0, consec := 1 }

/-- A setting with this trigger, which fires in step `8`, and a schedule that replans there. -/
def hoveringSetting (condition : Condition) (observeOnly : Bool) :
    ReplanSetting ℚ ℕ (TriggerState Unit ℚ 1 hoveringConfig) where
  condition
  fixedPeriod := 8
  observeOnly
  trigger := jepaTrigger hoveringEnv (spikeEncoder [8]) hoveringConfig
  triggerState := some (OnlineJepaTrigger.reset hoveringConfig)

theorem runEpisode_depends_on_schedule_hovering :
    (∃ fired fixed, runLoop hoveringEnv (hoveringSetting .jepa false) {} 0 10 = .ok fired ∧
      runLoop hoveringEnv (hoveringSetting .fixed false) {} 0 10 = .ok fixed ∧
      fired.1.episode.policy.replanSteps = [8] ∧ fired.1.episode = fixed.1.episode) ∧
    ∃ observed baseline,
      runEpisode hoveringEnv (hoveringSetting .jepa true) { maxSteps := 10 } 0 = .ok observed ∧
        runEpisode hoveringEnv (hoveringSetting .noReplan false) { maxSteps := 10 } 0 =
          .ok baseline ∧
        baseline.1.log = observed.1.log := by
  have fires : Fallible.Returns (runLoop hoveringEnv (hoveringSetting .jepa false) {} 0 10)
      fun outcome => outcome.1.episode.policy.replanSteps = [8] := by
    decide +kernel
  have scheduled : (runLoop hoveringEnv (hoveringSetting .fixed false) {} 0 10).isOk = true := by
    decide +kernel
  have agree : ∀ u < 10, decisionAt hoveringEnv (hoveringSetting .jepa false) {} 0 u =
      decisionAt hoveringEnv (hoveringSetting .fixed false) {} 0 u := by
    decide +kernel
  have returns : (runEpisode hoveringEnv (hoveringSetting .jepa true) { maxSteps := 10 } 0).isOk =
      true := by decide +kernel
  obtain ⟨⟨stateL, exitL⟩, reachedL, replans⟩ := fires.exists_eq_ok
  obtain ⟨⟨stateR, exitR⟩, reachedR⟩ := Fallible.exists_eq_ok scheduled
  obtain ⟨⟨result, sim, trigger⟩, ran⟩ := Fallible.exists_eq_ok returns
  obtain ⟨same, -⟩ := (runEpisode_depends_on_schedule (fun _ _ _ => rfl) {}).1 _ _ _ _ 10 agree
    stateL stateR exitL exitR reachedL reachedR
  obtain ⟨result', trigger', followed, -, -, log, -⟩ :=
    (runEpisode_depends_on_schedule (fun _ _ _ => rfl) { maxSteps := 10 }).2
      (hoveringSetting .jepa true) (hoveringSetting .noReplan false) 0 0 rfl rfl rfl result sim
      trigger ran
  exact ⟨⟨_, _, reachedL, reachedR, replans, same⟩, _, _, ran, followed, log⟩

end G1Jepa
