import G1Jepa.RunRecord

/-!
# Paired runs

The conditions are compared seed by seed: under one seed every condition meets the same scene. The
perturbation is drawn when it fires, from a state that the replans before it determine; conditions
that decide alike until then are perturbed in the same step and by the same displacement, although
their runs may differ in everything that follows.
-/

namespace G1Jepa

variable {K E R Row σ τ : Type} [Field K] [LinearOrder K] {env : Env K E R Row}
  {args : EpisodeArgs K}

/-! ## Behind the perturbation -/

/-- A scheduler that has fired does nothing. -/
theorem perturbStage_of_fired {s : EpisodeState K E R Row} (fired : s.sched.fired = true) (t : ℕ) :
    (perturbStage env t s).2.2.sched = s.sched := by
  rw [perturbStage, PerturbationScheduler.maybeFire, fired, Bool.or_true, if_pos rfl]

/-- Every list of a log begins with that of another. -/
structure RunLog.Extends (log earlier : RunLog K) : Prop where
  eef : earlier.eef <+: log.eef
  obj : earlier.obj <+: log.obj
  state : earlier.state <+: log.state
  action : earlier.action <+: log.action
  replan : earlier.replan <+: log.replan

omit [Field K] [LinearOrder K] in
theorem RunLog.Extends.trans {first second third : RunLog K} (later : third.Extends second)
    (earlier : second.Extends first) : third.Extends first where
  eef := earlier.eef.trans later.eef
  obj := earlier.obj.trans later.obj
  state := earlier.state.trans later.state
  action := earlier.action.trans later.action
  replan := earlier.replan.trans later.replan

theorem extends_of_advanceStage {t : ℕ} {s after : EpisodeState K E R Row} {doReplan left : Bool}
    (ran : advanceStage env t s doReplan = .ok (after, left)) : after.log.Extends s.log := by
  obtain ⟨⟨action, policy⟩, -, returned⟩ := Fallible.bind_eq_ok.mp ran
  obtain ⟨rfl, rfl⟩ := Prod.mk.inj (Except.ok.inj returned)
  exact ⟨List.prefix_append _ _, List.prefix_append _ _, List.prefix_append _ _,
    List.prefix_append _ _, List.prefix_append _ _⟩

/-- The rest of a run whose scheduler fires in step `p` leaves the scheduler alone and appends to
the log. -/
theorem behind_perturbation {setting : ReplanSetting K E σ} {s : E} {p n : ℕ}
    {before state : RunState K E R Row σ} {left : Bool} (bound : p < n)
    (running : runLoop env setting args s p = .ok (before, false))
    (fires : (perturbStage env p before.episode).2.2.sched.fired = true)
    (reached : runLoop env setting args s n = .ok (state, left)) :
    state.episode.sched = (perturbStage env p before.episode).2.2.sched ∧
      state.episode.log.Extends before.episode.log := by
  refine @ForRange.loop_holds_after _ _ (runStep env setting) _ before state
    (fun state => state.episode.sched = (perturbStage env p before.episode).2.2.sched ∧
      state.episode.log.Extends before.episode.log) p n left bound running ?_ ?_ reached
  · intro after exit ran
    obtain ⟨doReplan, -, advances⟩ := runStep_eq_ok ran
    exact ⟨(advanced_of_advanceStage advances).sched, extends_of_advanceStage advances⟩
  · rintro t current after exit ⟨sched, log⟩ ran
    obtain ⟨doReplan, -, advances⟩ := runStep_eq_ok ran
    refine ⟨?_, (extends_of_advanceStage advances).trans log⟩
    rw [(advanced_of_advanceStage advances).sched, ← sched]
    exact perturbStage_of_fired (by rw [sched, fires]) t

/-- A run whose scheduler has fired by the end was running, unperturbed, in that step. -/
theorem exists_perturbation {setting : ReplanSetting K E σ} {s : E} {n p : ℕ}
    {state : RunState K E R Row σ} {left : Bool}
    (reached : runLoop env setting args s n = .ok (state, left))
    (fires : state.episode.sched.fireStep = some p) :
    ∃ before, p < n ∧ runLoop env setting args s p = .ok (before, false) ∧
      Recorded setting.condition p before.episode ∧ before.episode.sched.fireStep = none ∧
      (perturbStage env p before.episode).1 = true ∧
      (perturbStage env p before.episode).2.2.sched.fired = true := by
  obtain ⟨t, bound, recorded, found⟩ : ∃ t ≤ n, Recorded setting.condition t state.episode ∧
      (state.episode.sched.fireStep = some p → ∃ before, p < t ∧
        runLoop env setting args s p = .ok (before, false) ∧
        Recorded setting.condition p before.episode ∧ before.episode.sched.fireStep = none ∧
        (perturbStage env p before.episode).1 = true ∧
        (perturbStage env p before.episode).2.2.sched.fired = true) := by
    refine @ForRange.exists_invariant _ _ (runStep env setting) (runStart env setting args s)
      (fun t state => Recorded setting.condition t state.episode ∧
        (state.episode.sched.fireStep = some p → ∃ before, p < t ∧
          runLoop env setting args s p = .ok (before, false) ∧
          Recorded setting.condition p before.episode ∧ before.episode.sched.fireStep = none ∧
          (perturbStage env p before.episode).1 = true ∧
          (perturbStage env p before.episode).2.2.sched.fired = true)) ?_ ?_ n state left reached
    · exact ⟨recorded_start setting.condition args s, fun fires => by contradiction⟩
    · rintro t before after left running ⟨recorded, found⟩ ran
      obtain ⟨doReplan, -, advances⟩ := runStep_eq_ok ran
      have sched := (advanced_of_advanceStage advances).sched
      have called := PerturbationScheduler.called_maybeFire env before.episode.sched
        before.episode.sim t before.episode.policy.state
      obtain ⟨consistent, fireStep, once⟩ := called.fireStep_eq recorded.fired
      refine ⟨(recorded.next ran).1, fun fires => ?_⟩
      rw [sched] at fires
      have fires : (before.episode.sched.maybeFire env before.episode.sim t
        before.episode.policy.state).2.2.fireStep = some p := fires
      rw [fireStep] at fires
      split at fires
      case isTrue now =>
        obtain rfl := Option.some.inj fires
        refine ⟨before, Nat.lt_succ_self _, running, recorded, once now, now, ?_⟩
        refine consistent.trans ?_
        rw [fireStep, if_pos now]
        rfl
      case isFalse =>
        obtain ⟨first, earlier, rest⟩ := found fires
        exact ⟨first, Nat.lt_succ_of_lt earlier, rest⟩
  obtain ⟨before, earlier, rest⟩ := found fires
  exact ⟨before, earlier.trans_le bound, rest⟩

/-! ## Two runs under one seed -/

/-- The two runs are perturbed in step `p`, by the same displacement, after the same history. -/
structure SameScenario (p : ℕ) (left right : RunResult K Row) : Prop where
  perturbStepL : left.perturbStep = some p
  perturbStepR : right.perturbStep = some p
  perturbDelta : left.perturbDelta = right.perturbDelta
  perturbDelay : left.perturbDelay = right.perturbDelay
  eef : left.log.eef.take p = right.log.eef.take p
  obj : left.log.obj.take p = right.log.obj.take p
  state : left.log.state.take p = right.log.state.take p
  action : left.log.action.take p = right.log.action.take p
  replan : left.log.replan.take p = right.log.replan.take p

omit [Field K] [LinearOrder K] in
theorem take_eq_of_prefix {α : Type} {earlier left right : List α} {p : ℕ}
    (length : earlier.length = p) (prefixL : earlier <+: left) (prefixR : earlier <+: right) :
    left.take p = right.take p := by
  obtain ⟨restL, rfl⟩ := prefixL
  obtain ⟨restR, rfl⟩ := prefixR
  rw [← length, List.take_left, List.take_left]

/-- Runs that are in the same state in the step of the perturbation. -/
theorem sameScenario_of_episode_eq {left : ReplanSetting K E σ} {right : ReplanSetting K E τ}
    {s s' : E} {n p : ℕ} {stateL beforeL : RunState K E R Row σ}
    {stateR beforeR : RunState K E R Row τ} {exitL exitR : Bool} (bound : p < n)
    (runningL : runLoop env left args s p = .ok (beforeL, false))
    (runningR : runLoop env right args s' p = .ok (beforeR, false))
    (same : beforeR.episode = beforeL.episode)
    (recorded : Recorded left.condition p beforeL.episode)
    (fires : (perturbStage env p beforeL.episode).2.2.sched.fired = true)
    (reachedL : runLoop env left args s n = .ok (stateL, exitL))
    (reachedR : runLoop env right args s' n = .ok (stateR, exitR))
    (step : stateL.episode.sched.fireStep = some p) :
    SameScenario p (runResult left args stateL) (runResult right args stateR) := by
  obtain ⟨schedL, logL⟩ := behind_perturbation bound runningL fires reachedL
  obtain ⟨schedR, logR⟩ := behind_perturbation bound runningR (by rwa [same]) reachedR
  rw [same] at schedR logR
  have sched := schedR.trans schedL.symm
  exact
    { perturbStepL := step
      perturbStepR := (congrArg PerturbationScheduler.fireStep sched).trans step
      perturbDelta := (congrArg PerturbationScheduler.delta sched).symm
      perturbDelay := (congrArg PerturbationScheduler.delaySteps sched).symm
      eef := take_eq_of_prefix recorded.eef logL.eef logR.eef
      obj := take_eq_of_prefix recorded.obj logL.obj logR.obj
      state := take_eq_of_prefix recorded.state logL.state logR.state
      action := take_eq_of_prefix recorded.action logL.action logR.action
      replan := take_eq_of_prefix recorded.replan logL.replan logR.replan }

/-- The run without replans follows an oracle run until the perturbation. -/
theorem exists_undisturbed_runLoop {oracle : ReplanSetting K E σ} {idle : ReplanSetting K E τ}
    (determined : env.ResetDetermined) (isOracle : oracle.condition = .oracle)
    (isIdle : idle.condition = .noReplan) {s : E} (s' : E) {t : ℕ} {state : RunState K E R Row σ}
    {exit : Bool} (reached : runLoop env oracle args s t = .ok (state, exit))
    (unfired : state.episode.sched.fireStep = none) :
    ∃ state', runLoop env idle args s' t = .ok (state', exit) ∧
      state'.episode = state.episode := by
  induction t generalizing state exit with
  | zero =>
      obtain ⟨rfl, rfl⟩ := Prod.mk.inj (Except.ok.inj reached)
      exact ⟨_, rfl, episodeStart_eq determined s' s⟩
  | succ t induction =>
      rcases ForRange.loop_succ_eq_ok reached with ⟨left, rfl⟩ | ⟨before, running, ran⟩
      · obtain ⟨state', follows, same⟩ := induction left unfired
        exact ⟨state', ForRange.loop_succ_of_left follows, same⟩
      · obtain ⟨doReplan, decided, advanced⟩ := runStep_eq_ok ran
        have recorded : Recorded oracle.condition t before.episode := by
          refine @ForRange.loop_invariant _ _ _ _
            (fun t state => Recorded oracle.condition t state.episode) ?_ ?_ t before running
          · exact recorded_start oracle.condition args s
          · intro t before after left _ recorded ran
            exact (recorded.next ran).1
        have called := PerturbationScheduler.called_maybeFire env before.episode.sched
          before.episode.sim t before.episode.policy.state
        obtain ⟨-, fireStep, -⟩ := called.fireStep_eq recorded.fired
        have decision := decideReplan_of_oracle isOracle decided
        have sched := (advanced_of_advanceStage advanced).sched
        rw [sched] at unfired
        have unfired : (before.episode.sched.maybeFire env before.episode.sim t
          before.episode.policy.state).2.2.fireStep = none := unfired
        rw [fireStep] at unfired
        have quiet : (before.episode.sched.maybeFire env before.episode.sim t
            before.episode.policy.state).1 = false := by
          by_contra fires
          rw [Bool.not_eq_false] at fires
          rw [if_pos fires] at unfired
          contradiction
        rw [quiet, if_neg Bool.false_ne_true] at unfired
        obtain rfl : doReplan = false := decision.trans quiet
        obtain ⟨before', follows, same⟩ := induction running unfired
        have decides : decisionStage env idle t before' = .ok (false, before'.trigger) :=
          decideReplan_of_noReplan isIdle ..
        rw [← same] at advanced
        refine ⟨⟨state.episode, before'.trigger⟩, ?_, rfl⟩
        rw [runLoop, ForRange.loop_succ_of_running follows]
        exact runStep_of_stages decides advanced

/-- Two conditions under one seed that decide alike before the perturbation meet the same scenario.
The oracle and the run without replans always do; without a perturbation their records differ in the
condition and in what they say about a trigger only. -/
theorem paired_runs (determined : env.ResetDetermined) {left : ReplanSetting K E σ}
    {right : ReplanSetting K E τ} {s s' simL simR : E} {resultL resultR : RunResult K Row}
    {triggerL : Option σ} {triggerR : Option τ}
    (ranL : runEpisode env left args s = .ok (resultL, simL, triggerL))
    (ranR : runEpisode env right args s' = .ok (resultR, simR, triggerR)) :
    (∀ p, resultL.perturbStep = some p →
      (∀ u < p, decisionAt env left args s u = decisionAt env right args s' u) →
        SameScenario p resultL resultR) ∧
      (left.condition = .oracle → right.condition = .noReplan →
        (∀ p, resultL.perturbStep = some p → SameScenario p resultL resultR) ∧
          (resultL.perturbStep = none → resultR =
            { resultL with
              condition := .noReplan
              zLog := resultR.zLog
              dbgLog := resultR.dbgLog })) := by
  obtain ⟨stateL, exitL, reachedL, rfl, -⟩ := exists_runLoop ranL
  obtain ⟨stateR, exitR, reachedR, rfl, -⟩ := exists_runLoop ranR
  refine ⟨fun p fires agree => ?_, fun isOracle isIdle => ⟨fun p fires => ?_, fun unfired => ?_⟩⟩
  · obtain ⟨beforeL, bound, runningL, recorded, -, -, fired⟩ := exists_perturbation reachedL fires
    obtain ⟨beforeR, exit, runningR⟩ := ForRange.exists_loop_of_le bound.le reachedR
    obtain ⟨same, rfl⟩ := runLoop_episode_eq determined agree runningL runningR
    exact sameScenario_of_episode_eq bound runningL runningR same.symm recorded fired reachedL
      reachedR fires
  · obtain ⟨beforeL, bound, runningL, recorded, unfired, -, fired⟩ :=
      exists_perturbation reachedL fires
    obtain ⟨beforeR, runningR, same⟩ :=
      exists_undisturbed_runLoop determined isOracle isIdle s' runningL unfired
    exact sameScenario_of_episode_eq bound runningL runningR same recorded fired reachedL reachedR
      fires
  · obtain ⟨final, reached, same⟩ :=
      exists_undisturbed_runLoop determined isOracle isIdle s' reachedL unfired
    obtain ⟨rfl, -⟩ := Prod.mk.inj (Except.ok.inj (reachedR.symm.trans reached))
    simp only [runResult, same, isIdle]

/-- On the descent both runs are perturbed in step `24`. -/
theorem paired_runs_descent :
    ∃ oracle idle,
      runEpisode glidingEnv { glidingSetting with condition := .oracle } { maxSteps := 26 } 0 =
          .ok oracle ∧
        runEpisode glidingEnv { glidingSetting with condition := .noReplan } { maxSteps := 26 } 0 =
          .ok idle ∧
        SameScenario 24 oracle.1 idle.1 := by
  have runs : Fallible.Returns
      (runEpisode glidingEnv { glidingSetting with condition := .oracle } { maxSteps := 26 } 0)
      fun outcome => outcome.1.perturbStep = some 24 := by
    decide +kernel
  have returns : (runEpisode glidingEnv { glidingSetting with condition := .noReplan }
      { maxSteps := 26 } 0).isOk = true := by decide +kernel
  obtain ⟨⟨oracle, sim, trigger⟩, ran, fires⟩ := runs.exists_eq_ok
  obtain ⟨⟨idle, sim', trigger'⟩, ran'⟩ := Fallible.exists_eq_ok returns
  exact ⟨_, _, ran, ran', ((paired_runs (fun _ _ _ => rfl) ran ran').2 rfl rfl).1 24 fires⟩

end G1Jepa
