import G1Jepa.ReplanSchedule

/-!
# The buckets of the two loops

The trigger reads the counter of the policy before the policy acts, when it still counts the state
executed last; the labels of a recorded episode count the state that is executed next. Along one
trajectory the two bucket ids therefore part at the boundaries of the sub-phases and after every
state that has lasted longer than one sub-phase.
-/

namespace G1Jepa

variable {K E R Row σ : Type} [Field K]

/-! ## The two counters -/

/-- The phase step that the next iteration records. -/
def CollectState.label (s : CollectState K E R Row) : ℕ :=
  if s.prevPhase = some s.policy.state then s.phaseStep + 1 else 0

/-- The policy approaches again, `states` being its states at the earlier steps. -/
def Retries (policy : ScriptedPickPlace K) (states : List PolicyState) : Prop :=
  policy.state = .approach ∧ ∃ state ∈ states, state ≠ .approach

instance (policy : ScriptedPickPlace K) (states : List PolicyState) :
    Decidable (Retries policy states) :=
  inferInstanceAs (Decidable (_ ∧ _))

/-- The counter of the policy lags one step behind the label, except after an aborted lift, whose
step the policy counts as the first of the new approach. -/
structure Counted (policy : ScriptedPickPlace K) (states : List PolicyState) (label : ℕ) :
    Prop where
  planned : policy.target.isSome
  entered : policy.prevState ≠ some policy.state → label = 0
  stayed : policy.prevState = some policy.state →
    label = if Retries policy states then policy.phaseStep else policy.phaseStep + 1
  approaching : policy.state = .approach → policy.prevState = some .approach ∨ states = []
  lifting : policy.state = .lift ∨ policy.state = .done → policy.prevState ≠ some .approach

theorem ne_approach_of_lifts {state : PolicyState} (lifts : state = .lift ∨ state = .done) :
    state ≠ .approach := by
  rcases lifts with rfl | rfl <;> decide

section Act

variable {policy after : ScriptedPickPlace K} {states : List PolicyState} {label : ℕ}

theorem retries_append (same : after.state = policy.state) :
    Retries after (states ++ [policy.state]) ↔ Retries policy states := by
  rw [Retries, Retries, same]
  apply and_congr_right
  intro approach
  simp [approach]

/-- A first step in a state is no retry. -/
theorem Counted.not_retries (counted : Counted policy states label)
    (entered : policy.prevState ≠ some policy.state) : ¬Retries policy states := by
  rintro ⟨approach, state, member, -⟩
  rcases counted.approaching approach with stayed | empty
  · exact entered (stayed.trans (congrArg some approach.symm))
  · rw [empty] at member
    contradiction

theorem Counted.stay (counted : Counted policy states label) (target : after.target.isSome)
    (prevState : after.prevState = some policy.state)
    (phaseStep : after.phaseStep =
      if policy.prevState = some policy.state then policy.phaseStep + 1 else 0)
    (stays : after.state = policy.state) :
    Counted after (states ++ [policy.state]) (label + 1) where
  planned := target
  entered other := absurd (prevState.trans (congrArg some stays.symm)) other
  stayed _ := by
    rw [if_congr (retries_append stays) rfl rfl, phaseStep]
    cases Decidable.em (policy.prevState = some policy.state) with
    | inl stayed =>
        rw [if_pos stayed, counted.stayed stayed]
        split <;> rfl
    | inr entered =>
        rw [if_neg entered, if_neg (counted.not_retries entered), counted.entered entered]
  approaching approach := .inl (prevState.trans (congrArg some (stays.symm.trans approach)))
  lifting lift := by
    rw [prevState, ← stays, ne_eq, Option.some.injEq]
    exact ne_approach_of_lifts lift

theorem counted_of_completed (target : after.target.isSome)
    (prevState : after.prevState = some policy.state) (completes : after.state = policy.state.next)
    (leaves : policy.state ≠ after.state) : Counted after (states ++ [policy.state]) 0 where
  planned := target
  entered _ := rfl
  stayed stayed := absurd (Option.some.inj (prevState.symm.trans stayed)) leaves
  approaching approach := by
    rw [completes] at approach
    cases state : policy.state <;> rw [state] at approach <;> contradiction
  lifting lift := by
    rw [prevState]
    intro approach
    rw [completes, Option.some.inj approach] at lift
    rcases lift with lift | done <;> contradiction

theorem Counted.abort (counted : Counted policy states label) (target : after.target.isSome)
    (lifts : policy.state = .lift ∨ policy.state = .done)
    (prevState : after.prevState = some .approach)
    (phaseStep : after.phaseStep =
      if policy.prevState = some .approach then policy.phaseStep + 1 else 0)
    (follows : after.state = .approach ∨ after.state = .descend) :
    Counted after (states ++ [policy.state]) 0 where
  planned := target
  entered _ := rfl
  stayed stayed := by
    have retries : Retries after (states ++ [policy.state]) := by
      have state := Option.some.inj (stayed.symm.trans prevState)
      exact ⟨state, policy.state, by simp, ne_approach_of_lifts lifts⟩
    rw [if_pos retries, phaseStep, if_neg (counted.lifting lifts)]
  approaching _ := .inl prevState
  lifting lift := by
    rcases follows with approach | descend
    · simp [approach] at lift
    · simp [descend] at lift

variable [LinearOrder K] {env : Env K E R Row} {s : E}

theorem counted_init (kwargs : PolicyKwargs K) :
    Counted ((ScriptedPickPlace.init kwargs).replan env s none false) [] 0 := by
  constructor <;>
    simp [ScriptedPickPlace.init, ScriptedPickPlace.replan, ScriptedPickPlace.moved]

/-- A call of `act` keeps the relation, when the label counts as `collect_episode` does. -/
theorem Counted.act (counted : Counted policy states label)
    (acted : ScriptedPickPlace.Acted env policy s after) :
    Counted after (states ++ [policy.state])
      (if policy.state = after.state then label + 1 else 0) := by
  have target : after.target.isSome := acted.target ▸ counted.planned
  have prevState := acted.prevState
  have phaseStep := acted.phaseStep
  have follows := acted.state
  rcases policy.executedState_cases env s with executed | ⟨lifts, executed⟩ <;>
    rw [executed] at prevState phaseStep follows
  · cases Decidable.em (policy.state = after.state) with
    | inl stays =>
        rw [if_pos stays]
        exact counted.stay target prevState phaseStep stays.symm
    | inr leaves =>
        rw [if_neg leaves]
        exact counted_of_completed target prevState
          (follows.resolve_left fun stays => leaves stays.symm) leaves
  · have leaves : policy.state ≠ after.state := by
      rcases lifts with lift | done <;> rcases follows with approach | descend <;>
        simp [*, PolicyState.next]
    rw [if_neg leaves]
    exact counted.abort target lifts prevState phaseStep follows

end Act

/-! ## The buckets -/

/-- The counter of the policy and the label it implies lie in one sub-phase. -/
def BucketsAgree (policy : ScriptedPickPlace K) (states : List PolicyState) : Prop :=
  if policy.prevState = some policy.state then
    -- The second and the third sub-phase begin at the labels 6 and 12.
    Retries policy states ∨ policy.phaseStep ≠ 5 ∧ policy.phaseStep ≠ 11
  else policy.phaseStep < 6

instance (policy : ScriptedPickPlace K) (states : List PolicyState) :
    Decidable (BucketsAgree policy states) :=
  inferInstanceAs (Decidable (ite _ _ _))

theorem phaseId_eq_phase (state : PolicyState) : phaseId state = state.phase := by
  cases state <;> rfl

theorem Counted.onlineBucket_eq_iff {policy : ScriptedPickPlace K} {states : List PolicyState}
    {label : ℕ} (counted : Counted policy states label) :
    onlineBucket policy = bucket policy.state.phase label ↔ BucketsAgree policy states := by
  rw [onlineBucket, policyPhaseStep, phaseId_eq_phase, bucket_eq, bucket_eq, BucketsAgree]
  split
  case isTrue stayed =>
    have label := counted.stayed stayed
    split at label
    case isTrue retries =>
      rw [label]
      exact iff_of_true rfl (.inl retries)
    case isFalse first =>
      rw [label, or_iff_right first]
      omega
  case isFalse entered =>
    rw [counted.entered entered]
    omega

/-! ## The two loops on one trajectory -/

variable [LinearOrder K] {env : Env K E R Row} {setting : ReplanSetting K E σ}
  {args : EpisodeArgs K} {collecting : CollectArgs K} {s s' : E} {t : ℕ}

/-- What the policy reads in step `t` of a run, when the run gets that far. -/
def runReadings (env : Env K E R Row) (setting : ReplanSetting K E σ) (args : EpisodeArgs K)
    (s : E) (t : ℕ) : Option (Readings K) :=
  match runLoop env setting args s t with
  | .ok (state, false) => some (env.readings (perturbStage env t state.episode).2.2.sim)
  | _ => none

/-- What the policy reads in step `t` of a collected episode, when it gets that far. -/
def collectReadings (env : Env K E R Row) (args : CollectArgs K) (s : E) (t : ℕ) :
    Option (Readings K) :=
  match collectLoop env args s t with
  | .ok (state, false) =>
      some (env.readings (state.sched.maybeFire env state.sim t state.policy.state).2.1)
  | _ => none

theorem runReadings_eq {run : RunState K E R Row σ}
    (reached : runLoop env setting args s t = .ok (run, false)) :
    runReadings env setting args s t =
      some (env.readings (perturbStage env t run.episode).2.2.sim) := by
  rw [runReadings, reached]

theorem collectReadings_eq {episode : CollectState K E R Row}
    (reached : collectLoop env collecting s t = .ok (episode, false)) :
    collectReadings env collecting s t = some (env.readings
      (episode.sched.maybeFire env episode.sim t episode.policy.state).2.1) := by
  rw [collectReadings, reached]

/-- A run and a collected episode have the same policy and the same readings before step `t`. -/
structure SameTrajectory (env : Env K E R Row) (setting : ReplanSetting K E σ)
    (args : EpisodeArgs K) (collecting : CollectArgs K) (s s' : E) (t : ℕ) : Prop where
  policyKwargs : args.policyKwargs = collecting.policyKwargs
  planned : env.getObjectPos (seededReset env args.seed s) = env.getObjectPos (env.reset s')
  readings : ∀ u < t, runReadings env setting args s u = collectReadings env collecting s' u

/-- The two loops have the same policy, and the label is the one its counter implies. -/
structure Lockstep (run : RunState K E R Row σ) (episode : CollectState K E R Row) : Prop where
  policy : run.episode.policy = episode.policy
  counted : Counted episode.policy run.episode.log.state episode.label

theorem SameTrajectory.lockstep_start (same : SameTrajectory env setting args collecting s s' t) :
    Lockstep (runStart env setting args s) (collectStart env collecting s') where
  policy := by
    simp only [runStart, episodeStart, collectStart, ScriptedPickPlace.replan, same.policyKwargs,
      same.planned]
  counted := counted_init collecting.policyKwargs

/-- An iteration without a replan keeps the two loops in lockstep. -/
theorem Lockstep.step {run run' : RunState K E R Row σ} {episode episode' : CollectState K E R Row}
    {left left' : Bool} {objInitZ : K} (lockstep : Lockstep run episode)
    (readings : env.readings (perturbStage env t run.episode).2.2.sim =
      env.readings (episode.sched.maybeFire env episode.sim t episode.policy.state).2.1)
    (advanced : advanceStage env t run.episode false = .ok (run'.episode, left))
    (stepped : collectStep env collecting objInitZ t episode = .ok (episode', left')) :
    Lockstep run' episode' := by
  have advanced := advanced_of_advanceStage advanced
  have stepped := collectStepped_of_collectStep stepped
  obtain ⟨actionL, actedL, -⟩ := advanced.acted
  obtain ⟨actionR, actedR, -⟩ := stepped.acted
  have keeps : (perturbStage env t run.episode).2.2.policy = episode.policy := lockstep.policy
  have logs : (perturbStage env t run.episode).2.2.log = run.episode.log := rfl
  have state := advanced.state
  simp only [Bool.false_eq_true, if_false, keeps, logs] at actedL state
  have congr := episode.policy.act_policy_congr readings
  rw [actedL, actedR] at congr
  have label : episode'.label =
      if episode.policy.state = episode'.policy.state then episode.label + 1 else 0 := by
    simp only [CollectState.label, stepped.prevPhase, stepped.phaseStep, Option.some.injEq]
  constructor
  · exact Except.ok.inj congr
  · rw [state, label]
    exact lockstep.counted.act (ScriptedPickPlace.acted_of_act lockstep.counted.planned actedR)

/-- A run without replans and a collected episode on its trajectory are in lockstep. -/
theorem SameTrajectory.lockstep (same : SameTrajectory env setting args collecting s s' t)
    (undisturbed : ∀ u < t, decisionAt env setting args s u = some false)
    {run : RunState K E R Row σ} {episode : CollectState K E R Row}
    (reached : runLoop env setting args s t = .ok (run, false))
    (collected : collectLoop env collecting s' t = .ok (episode, false)) :
    Lockstep run episode := by
  refine ForRange.running_related same.lockstep_start ?_ reached collected
  intro u bound before episode after episode' running runningR lockstep ran stepped
  obtain ⟨doReplan, decided, advanced⟩ := runStep_eq_ok ran
  obtain rfl : doReplan = false := by
    have decision := undisturbed u bound
    rw [decisionAt_eq_some running decided] at decision
    exact Option.some.inj decision
  have readings := same.readings u bound
  rw [runReadings_eq running, collectReadings_eq runningR, Option.some.injEq] at readings
  exact lockstep.step readings advanced stepped

/-- The labels of an episode are those of the iterations that recorded them. -/
theorem exists_iteration_of_labels {episode : CollectState K E R Row} {left : Bool} {n : ℕ}
    {phase phaseStep : ℤ} (collected : collectLoop env collecting s' n = .ok (episode, left))
    (phaseAt : episode.phase[t]? = some phase)
    (phaseStepAt : episode.phaseSteps[t]? = some phaseStep) :
    ∃ before, t < n ∧ collectLoop env collecting s' t = .ok (before, false) ∧
      before.policy.state.phase = phase ∧ (before.label : ℤ) = phaseStep := by
  obtain ⟨before, bound, running, recorded⟩ := ForRange.exists_iteration_of_log rfl
    (fun t before after left ran => (collectStepped_of_collectStep ran).phase) collected phaseAt
  obtain ⟨before', -, running', labelled⟩ := ForRange.exists_iteration_of_log rfl
    (fun t before after left ran => by
      have stepped := collectStepped_of_collectStep ran
      rw [stepped.phaseSteps, stepped.phaseStep]) collected phaseStepAt
  obtain ⟨rfl, -⟩ := Prod.mk.inj (Except.ok.inj (running.symm.trans running'))
  exact ⟨before, bound, running, recorded, labelled⟩

/-- In a step that a run without replans reaches, the bucket of the trigger is the bucket of the
labels recorded on the same trajectory if and only if the two counters lie in one sub-phase. -/
theorem onlineBucket_eq_label_iff (same : SameTrajectory env setting args collecting s s' t)
    (undisturbed : ∀ u < t, decisionAt env setting args s u = some false)
    {run : RunState K E R Row σ} (reached : runLoop env setting args s t = .ok (run, false))
    {record : EpisodeRecord K} {frames : Camera → List (List Row)} {sim : E}
    (collected : collectEpisode env collecting s' = .ok (record, frames, sim))
    {phase phaseStep : ℤ} (phaseAt : record.phase[t]? = some phase)
    (phaseStepAt : record.phaseStep[t]? = some phaseStep) :
    onlineBucket run.episode.policy = bucket phase phaseStep ↔
      BucketsAgree run.episode.policy run.episode.log.state := by
  obtain ⟨⟨final, left⟩, looped, returned⟩ := Fallible.bind_eq_ok.mp collected
  obtain ⟨rfl, -⟩ := Prod.mk.inj (Except.ok.inj returned)
  obtain ⟨episode, -, running, rfl, rfl⟩ := exists_iteration_of_labels looped phaseAt phaseStepAt
  have lockstep := same.lockstep undisturbed reached running
  rw [lockstep.policy]
  exact lockstep.counted.onlineBucket_eq_iff

/-- The height of a gripper that starts one metre above its hover point and descends by five
centimetres a step, then by half of what is left. -/
def glideHeight (n : ℕ) : ℚ :=
  if n ≤ 18 then 11 / 10 - n / 20 else 1 / 10 + 1 / 10 / 2 ^ (n - 18)

/-- A simulator that plays back the descent, its states counting the steps. -/
def glidingEnv : Env ℚ ℕ Unit Unit where
  np := .rational
  random := .lowest ℚ
  objQpos _ := ![0, 0, 0, 1, 0, 0, 0]
  setObjQpos _ n := n
  setObjQvel _ n := n
  forward n := n
  gripSiteXpos n := ![0, 0, glideHeight n]
  baseXmat _ := none
  checkGrasp _ := some false
  fingerJoint1 _ := 0
  fingerJoint2 _ := 0
  simRender _ _ _ := []
  obsImage _ _ := []
  step _ n := n + 1
  setPlacementRng _ n := n
  setDeterministicReset _ n := n
  reset _ := 0

/-- A setting whose trigger is only observed. -/
def glidingSetting : ReplanSetting ℚ ℕ (TriggerState Unit ℚ 1 (.ofGlobal 0 1)) where
  condition := .jepa
  observeOnly := true
  trigger := jepaTrigger glidingEnv (.zero (List Unit) ℚ 1) (.ofGlobal 0 1)
  triggerState := some (OnlineJepaTrigger.reset (.ofGlobal 0 1))

/-- The arguments of the two loops on the descent. -/
def glidingArgs : EpisodeArgs ℚ := { perturb := false }
def glidingCollectArgs : CollectArgs ℚ := { seed := 0, perturb := false, maxSteps := 23 }

theorem sameTrajectory_gliding {t : ℕ} (bound : t ≤ 22) :
    SameTrajectory glidingEnv glidingSetting glidingArgs glidingCollectArgs 0 0 t where
  policyKwargs := rfl
  planned := rfl
  readings u inside := by
    have readings : ∀ u < 22, runReadings glidingEnv glidingSetting glidingArgs 0 u =
        collectReadings glidingEnv glidingCollectArgs 0 u := by decide +kernel
    exact readings u (by omega)

theorem undisturbed_gliding {t : ℕ} (bound : t ≤ 22) :
    ∀ u < t, decisionAt glidingEnv glidingSetting glidingArgs 0 u = some false := by
  intro u inside
  have undisturbed : ∀ u < 22, decisionAt glidingEnv glidingSetting glidingArgs 0 u =
      some false := by decide +kernel
  exact undisturbed u (by omega)

/-- After twenty steps the two bucket ids are both the last one of the approach. -/
theorem onlineBucket_eq_label_iff_gliding :
    ∃ run record frames sim,
      runLoop glidingEnv glidingSetting glidingArgs 0 20 = .ok (run, false) ∧
        collectEpisode glidingEnv glidingCollectArgs 0 = .ok (record, frames, sim) ∧
        record.phase[20]? = some 0 ∧ record.phaseStep[20]? = some 20 ∧
        onlineBucket run.episode.policy = bucket 0 20 := by
  have runs : Fallible.Returns (runLoop glidingEnv glidingSetting glidingArgs 0 20) fun outcome =>
      outcome.2 = false ∧
        BucketsAgree outcome.1.episode.policy outcome.1.episode.log.state := by decide +kernel
  have collects : Fallible.Returns (collectEpisode glidingEnv glidingCollectArgs 0) fun outcome =>
      outcome.1.phase[20]? = some 0 ∧ outcome.1.phaseStep[20]? = some 20 := by decide +kernel
  obtain ⟨⟨run, left⟩, reached, rfl, agree⟩ := runs.exists_eq_ok
  obtain ⟨⟨record, frames, sim⟩, collected, phaseAt, phaseStepAt⟩ := collects.exists_eq_ok
  exact ⟨run, record, frames, sim, reached, collected, phaseAt, phaseStepAt,
    (onlineBucket_eq_label_iff (sameTrajectory_gliding (by omega)) (undisturbed_gliding (by omega))
      reached collected phaseAt phaseStepAt).mpr agree⟩

/-- In the first step after the approach the trigger looks up the bucket of its counter in the
approach and not the first bucket of the descent. -/
theorem onlineBucket_ne_label_after_approach :
    SameTrajectory glidingEnv glidingSetting glidingArgs glidingCollectArgs 0 0 22 ∧
      (∀ u < 22, decisionAt glidingEnv glidingSetting glidingArgs 0 u = some false) ∧
      ∃ run record frames sim,
        runLoop glidingEnv glidingSetting glidingArgs 0 22 = .ok (run, false) ∧
          collectEpisode glidingEnv glidingCollectArgs 0 = .ok (record, frames, sim) ∧
          record.phase[22]? = some 1 ∧ record.phaseStep[22]? = some 0 ∧
          onlineBucket run.episode.policy = 5 ∧ bucket 1 0 = 3 := by
  have runs : Fallible.Returns (runLoop glidingEnv glidingSetting glidingArgs 0 22) fun outcome =>
      outcome.2 = false ∧ onlineBucket outcome.1.episode.policy = 5 := by decide +kernel
  have collects : Fallible.Returns (collectEpisode glidingEnv glidingCollectArgs 0) fun outcome =>
      outcome.1.phase[22]? = some 1 ∧ outcome.1.phaseStep[22]? = some 0 := by decide +kernel
  obtain ⟨⟨run, left⟩, reached, rfl, online⟩ := runs.exists_eq_ok
  obtain ⟨⟨record, frames, sim⟩, collected, phaseAt, phaseStepAt⟩ := collects.exists_eq_ok
  exact ⟨sameTrajectory_gliding (by omega), undisturbed_gliding (by omega), run, record, frames,
    sim, reached, collected, phaseAt, phaseStepAt, online, by decide⟩

end G1Jepa
