import G1Jepa.CollectLabels

/-!
# Teleports with an open gripper

The scheduler counts the steps whose iteration starts in `DESCEND`, while replans, aborted lifts
and completed phases change the state inside an iteration. In both loops every step that it counts,
and the one before the first of them, still ends in an action of `APPROACH` or `DESCEND`, so the
object is never moved while the gripper has been told to close.
-/

namespace G1Jepa

variable {K E R Row σ : Type} [Field K]

/-- The call approaches or descends, with the gripper commanded open. -/
def ActCall.Opens (call : ActCall K) : Prop :=
  call.action 6 = -1 ∧ (call.executed = .approach ∨ call.executed = .descend)

/-- The calls of the last `count` steps before step `t` open the gripper. -/
def OpenedFor (callAt : ℕ → Option (ActCall K)) (t count : ℕ) : Prop :=
  count ≤ t ∧ ∀ u, t - count ≤ u → u < t → ∃ call, callAt u = some call ∧ call.Opens

theorem OpenedFor.succ {callAt : ℕ → Option (ActCall K)} {t count : ℕ} {call : ActCall K}
    (opened : OpenedFor callAt t count) (called : callAt t = some call) (opens : call.Opens) :
    OpenedFor callAt (t + 1) (count + 1) := by
  refine ⟨by have := opened.1; omega, fun u lower upper => ?_⟩
  rcases Nat.lt_succ_iff_lt_or_eq.mp upper with earlier | rfl
  · exact opened.2 u (by omega) earlier
  · exact ⟨call, called, opens⟩

/-- What the scheduler and the policy guarantee at the start of step `t`. -/
structure Guarded (callAt : ℕ → Option (ActCall K)) (t : ℕ) (sched : PerturbationScheduler K R)
    (policy : ScriptedPickPlace K) : Prop where
  planned : policy.target.isSome
  fireState : sched.fireState = .descend
  delay : 2 ≤ sched.delaySteps
  opened : sched.enabled = true → sched.fired = false → policy.state = .descend →
    OpenedFor callAt t (sched.inState + 1)

variable [LinearOrder K] {env : Env K E R Row}

/-- A call that starts or ends in the approach or the descent opens the gripper. -/
theorem opens_of_actCall {policy after : ScriptedPickPlace K} {s : E} {call : ActCall K}
    (planned : policy.target.isSome) (called : policy.actCall env s = .ok (call, after))
    (descends : policy.state = .descend ∨ policy.state = .approach ∨ after.state = .descend) :
    call.Opens := by
  obtain ⟨action, rfl, branch⟩ := branch_of_actCall planned called
  have unaborted : ∀ {state}, policy.executedState env s = state → state ≠ .approach →
      policy.state = state :=
    ScriptedPickPlace.state_of_executedState
  cases branch with
  | reach reaches opens _ => exact ⟨opens, reaches⟩
  | dwell grasp =>
      have start := unaborted grasp (by simp)
      have stays : (policy.abortFailedLift env s).countPhaseStep.state = .grasp := grasp
      simp [start, stays] at descends
  | lift grasp => simp [unaborted grasp (by simp)] at descends
  | carry lift _ follows =>
      have start := unaborted lift (by simp)
      rw [lift] at follows
      rcases follows with rfl | rfl <;> simp [start, PolicyState.next] at descends
  | hold done =>
      have start := unaborted done (by simp)
      simp [start, done] at descends

section Iteration

variable {callAt : ℕ → Option (ActCall K)} {t : ℕ} {sched after : PerturbationScheduler K R}
  {policy planned acted : ScriptedPickPlace K} {fired : Bool} {sim sim' : E} {call : ActCall K}

/-- One iteration of either loop keeps the guarantee: the scheduler is called, the policy may be
replanned, and `act` is called. -/
theorem Guarded.next (guarded : Guarded callAt t sched policy)
    (called : PerturbationScheduler.Called env sched sim t policy.state fired sim' after)
    (replanned : planned = policy ∨ ScriptedPickPlace.Replanned policy planned)
    (acts : planned.actCall env sim' = .ok (call, acted)) (found : callAt t = some call) :
    Guarded callAt (t + 1) after acted := by
  have target : planned.target.isSome := by
    rcases replanned with rfl | replanned
    · exact guarded.planned
    · exact replanned.planned
  have descent : policy.state = .descend →
      planned.state = .descend ∨ planned.state = .approach := by
    intro descends
    rcases replanned with rfl | replanned
    · exact .inl descends
    · rcases replanned.state with ⟨kept, -⟩ | ⟨-, approach, -⟩
      · exact .inl (kept.trans descends)
      · exact .inr approach
  have finish : acted.target.isSome := (acted_of_actCall target acts).2.target ▸ target
  have opens : policy.state = .descend ∨ acted.state = .descend → call.Opens := by
    intro descends
    apply opens_of_actCall target acts
    rcases descends with before | later
    · rcases descent before with descend | approach
      · exact .inl descend
      · exact .inr (.inl approach)
    · exact .inr (.inr later)
  have once : acted.state = .descend → OpenedFor callAt (t + 1) (0 + 1) := by
    intro descends
    have none : OpenedFor callAt t 0 := ⟨Nat.zero_le t, fun u lower upper => by omega⟩
    exact none.succ found (opens (.inr descends))
  cases called with
  | idle off =>
      refine ⟨finish, guarded.fireState, guarded.delay, fun enabled unfired => ?_⟩
      rcases off with disabled | done
      · cases disabled.symm.trans enabled
      · cases done.symm.trans unfired
  | away unfired other =>
      exact ⟨finish, guarded.fireState, guarded.delay, fun _ _ => once⟩
  | waiting enabled unfired waits early =>
      have descends := waits.trans guarded.fireState
      refine ⟨finish, guarded.fireState, guarded.delay, fun _ _ _ => ?_⟩
      exact (guarded.opened enabled unfired descends).succ found (opens (.inl descends))
  | fires => exact ⟨finish, guarded.fireState, guarded.delay, fun _ done => by contradiction⟩

/-- When the scheduler fires, the last `delay_steps + 1` calls have opened the gripper. -/
theorem Guarded.opened_of_fires (guarded : Guarded callAt t sched policy)
    (called : PerturbationScheduler.Called env sched sim t policy.state true sim' after) :
    2 ≤ sched.delaySteps ∧ sched.delaySteps + 1 ≤ t ∧
      ∀ u : ℕ, (t : ℤ) - (sched.delaySteps + 1) ≤ u → u < t →
        ∃ call, callAt u = some call ∧ call.Opens := by
  cases called with
  | fires enabled unfired waits late =>
      obtain ⟨room, opened⟩ := guarded.opened enabled unfired (waits.trans guarded.fireState)
      refine ⟨guarded.delay, by omega, fun u lower upper => ?_⟩
      exact opened u (by omega) upper

end Iteration

/-- The guarantee holds before the first step. -/
theorem guarded_start {callAt : ℕ → Option (ActCall K)} (kwargs : PolicyKwargs K) (sim : E)
    (enabled : Bool) (rng : R) :
    Guarded callAt 0 (PerturbationScheduler.init env {} enabled rng)
      ((ScriptedPickPlace.init kwargs).replan env sim none false) where
  planned := ((ScriptedPickPlace.init kwargs).replanned env sim none false).planned
  fireState := rfl
  delay := (env.random.integers_mem rng 2 12 (by decide)).1
  opened _ _ descends := by
    rw [(ScriptedPickPlace.init_replan_approach env kwargs sim none false).1] at descends
    contradiction

omit [LinearOrder K] in
/-- The action of a call that returns. -/
theorem issuedAction_of_toOption {outcome : Except PyError (ActCall K × ScriptedPickPlace K)}
    {call : ActCall K} (returned : outcome.toOption.map Prod.fst = some call) :
    issuedAction outcome = call.action := by
  cases outcome with
  | error failure => contradiction
  | ok value =>
      obtain rfl := Option.some.inj returned
      rfl

/-! ## The loop of `run_episode` -/

section Run

variable {setting : ReplanSetting K E σ} {args : EpisodeArgs K} {s : E} {t : ℕ}

/-- The call of `act` in an iteration of the loop, after its decision to replan. -/
def runActCall (env : Env K E R Row) (setting : ReplanSetting K E σ) (t : ℕ)
    (state : RunState K E R Row σ) : Except PyError (ActCall K × ScriptedPickPlace K) := do
  let (doReplan, _) ← decisionStage env setting t state
  let perturbed := (perturbStage env t state.episode).2.2
  (if doReplan then perturbed.policy.replan env perturbed.sim (some t) true
    else perturbed.policy).actCall env perturbed.sim

/-- The call of `act` in step `t` of a run and the policy after it, when the run gets that far. -/
def runCallAt (env : Env K E R Row) (setting : ReplanSetting K E σ) (args : EpisodeArgs K) (s : E)
    (t : ℕ) : Option (ActCall K × ScriptedPickPlace K) :=
  match runLoop env setting args s t with
  | .ok (state, false) => (runActCall env setting t state).toOption
  | _ => none

/-- An iteration calls `act` on the policy, replanned or not. -/
theorem exists_runActCall {before after : RunState K E R Row σ} {left : Bool}
    (ran : runStep env setting t before = .ok (after, left)) :
    ∃ planned call, (planned = before.episode.policy ∨
        ScriptedPickPlace.Replanned before.episode.policy planned) ∧
      planned.actCall env (perturbStage env t before.episode).2.2.sim =
        .ok (call, after.episode.policy) ∧
      runActCall env setting t before = .ok (call, after.episode.policy) ∧
      after.episode.sched = (perturbStage env t before.episode).2.2.sched ∧
      after.episode.log.action = before.episode.log.action ++
        [issuedAction (runActCall env setting t before)] := by
  obtain ⟨doReplan, decided, advances⟩ := runStep_eq_ok ran
  have advanced := advanced_of_advanceStage advances
  obtain ⟨action, acts, -, recorded⟩ := advanced.acted
  have called := ScriptedPickPlace.actCall_of_act acts
  have performed : runActCall env setting t before = ScriptedPickPlace.actCall env
      (if doReplan then (perturbStage env t before.episode).2.2.policy.replan env
        (perturbStage env t before.episode).2.2.sim (some t) true
      else (perturbStage env t before.episode).2.2.policy)
      (perturbStage env t before.episode).2.2.sim := by
    rw [runActCall, decided, Fallible.ok_bind]
  rw [called] at performed
  refine ⟨_, _, ?_, called, performed, advanced.sched, ?_⟩
  · cases doReplan with
    | false => exact .inl rfl
    | true =>
        rw [if_pos rfl]
        exact .inr (ScriptedPickPlace.replanned env before.episode.policy _ _ _)
  · rw [recorded, performed]
    rfl

theorem guarded_of_runLoop {state : RunState K E R Row σ}
    (reached : runLoop env setting args s t = .ok (state, false)) :
    Guarded (fun u => (runCallAt env setting args s u).map Prod.fst) t state.episode.sched
      state.episode.policy := by
  refine @ForRange.loop_invariant _ _ _ _
    (fun t state => Guarded (fun u => (runCallAt env setting args s u).map Prod.fst) t
      state.episode.sched state.episode.policy) ?_ ?_ t state reached
  · exact guarded_start args.policyKwargs _ _ _
  · intro t before after left running guarded ran
    obtain ⟨planned, call, replanned, acts, performed, sched, -⟩ := exists_runActCall ran
    have found : (runCallAt env setting args s t).map Prod.fst = some call := by
      rw [runCallAt, runLoop, running]
      dsimp only
      rw [performed]
      rfl
    have called := PerturbationScheduler.called_maybeFire env before.episode.sched
      before.episode.sim t before.episode.policy.state
    rw [sched]
    exact guarded.next called replanned acts found

theorem runLog_eq_append {before after : RunState K E R Row σ} {left : Bool}
    (ran : runStep env setting t before = .ok (after, left)) :
    after.episode.log.action = before.episode.log.action ++
      [issuedAction (runActCall env setting t before)] := by
  obtain ⟨_, _, -, -, -, -, recorded⟩ := exists_runActCall ran
  exact recorded

/-- The call of an earlier step is the one whose action the run has logged. -/
theorem runLog_eq_of_runCallAt {state : RunState K E R Row σ} {u : ℕ} {call : ActCall K}
    (reached : runLoop env setting args s t = .ok (state, false)) (bound : u < t)
    (found : (runCallAt env setting args s u).map Prod.fst = some call) :
    state.episode.log.action[u]? = some call.action := by
  rw [runCallAt] at found
  split at found
  case h_1 before running =>
    have logged := ForRange.getElem?_log rfl
      (fun t before after left ran => runLog_eq_append ran) reached bound running
    rw [logged, issuedAction_of_toOption found]
  case h_2 => contradiction

end Run

/-! ## The loop of `collect_episode` -/

section Collect

variable {args : CollectArgs K} {s : E} {t : ℕ}

theorem guarded_of_collectLoop {state : CollectState K E R Row}
    (reached : collectLoop env args s t = .ok (state, false)) :
    Guarded (fun u => (collectCallAt env args s u).map Prod.fst) t state.sched state.policy := by
  refine @ForRange.loop_invariant _ _ _ _
    (fun t state => Guarded (fun u => (collectCallAt env args s u).map Prod.fst) t state.sched
      state.policy) ?_ ?_ t state reached
  · exact guarded_start args.policyKwargs _ _ _
  · intro t before after left running guarded ran
    have stepped := collectStepped_of_collectStep ran
    obtain ⟨call, acts, -, -⟩ := exists_actCall stepped
    have found : (collectCallAt env args s t).map Prod.fst = some call := by
      rw [(collectExecutedAt_eq running acts).1]
      rfl
    rw [stepped.sched]
    exact guarded.next (PerturbationScheduler.called_maybeFire env before.sched before.sim t
      before.policy.state) (.inl rfl) acts found

/-- The call of an earlier step is the one whose action the episode has recorded. -/
theorem record_eq_of_collectCallAt {state : CollectState K E R Row} {u : ℕ} {call : ActCall K}
    (reached : collectLoop env args s t = .ok (state, false)) (bound : u < t)
    (found : (collectCallAt env args s u).map Prod.fst = some call) :
    state.action[u]? = some call.action := by
  rw [collectCallAt] at found
  split at found
  case h_1 before running =>
    have recorded := ForRange.getElem?_log rfl
      (fun t before after left ran => action_eq_append ran) reached bound running
    rw [recorded, issuedAction_of_toOption found]
  case h_2 => contradiction

end Collect

/-! ## Both loops -/

/-- The last `delay + 1` calls of `act` before step `t` have issued the recorded actions, which all
open the gripper, and each has approached or descended. -/
structure OpenBefore (callAt : ℕ → Option (ActCall K)) (actions : List (Fin 7 → K)) (t : ℕ)
    (delay : ℤ) : Prop where
  waits : 2 ≤ delay
  room : delay + 1 ≤ t
  opened : ∀ u : ℕ, (t : ℤ) - (delay + 1) ≤ u → u < t →
    ∃ call, callAt u = some call ∧ actions[u]? = some call.action ∧ call.Opens

/-- In both loops, whenever the scheduler teleports the object, the gripper has been told to open
in the last `delay_steps + 1` actions and none of them was part of a grasp or a lift. -/
theorem teleports_with_open_gripper (env : Env K E R Row) :
    (∀ (setting : ReplanSetting K E σ) (args : EpisodeArgs K) (s : E) (t : ℕ)
        (state : RunState K E R Row σ), runLoop env setting args s t = .ok (state, false) →
      (perturbStage env t state.episode).1 = true →
      OpenBefore (fun u => (runCallAt env setting args s u).map Prod.fst)
        state.episode.log.action t state.episode.sched.delaySteps) ∧
      ∀ (args : CollectArgs K) (s : E) (t : ℕ) (state : CollectState K E R Row),
        collectLoop env args s t = .ok (state, false) →
        (state.sched.maybeFire env state.sim t state.policy.state).1 = true →
        OpenBefore (fun u => (collectCallAt env args s u).map Prod.fst) state.action t
          state.sched.delaySteps := by
  constructor
  · intro setting args s t state reached fires
    have called := PerturbationScheduler.called_maybeFire env state.episode.sched
      state.episode.sim t state.episode.policy.state
    have fires : (state.episode.sched.maybeFire env state.episode.sim t
      state.episode.policy.state).1 = true := fires
    rw [fires] at called
    obtain ⟨delay, room, opened⟩ := (guarded_of_runLoop reached).opened_of_fires called
    refine ⟨delay, room, fun u lower upper => ?_⟩
    obtain ⟨call, found, opens⟩ := opened u lower upper
    exact ⟨call, found, runLog_eq_of_runCallAt reached upper found, opens⟩
  · intro args s t state reached fires
    have called := PerturbationScheduler.called_maybeFire env state.sched state.sim t
      state.policy.state
    rw [fires] at called
    obtain ⟨delay, room, opened⟩ := (guarded_of_collectLoop reached).opened_of_fires called
    refine ⟨delay, room, fun u lower upper => ?_⟩
    obtain ⟨call, found, opens⟩ := opened u lower upper
    exact ⟨call, found, record_eq_of_collectCallAt reached upper found, opens⟩

theorem teleports_with_open_gripper_gliding :
    ∃ state, collectLoop glidingEnv { seed := 0, perturb := true } 0 24 = .ok (state, false) ∧
      OpenBefore (fun u =>
          (collectCallAt glidingEnv { seed := 0, perturb := true } 0 u).map Prod.fst)
        state.action 24 state.sched.delaySteps := by
  have collects : Fallible.Returns (collectLoop glidingEnv { seed := 0, perturb := true } 0 24)
      fun outcome => outcome.2 = false ∧ (outcome.1.sched.maybeFire glidingEnv outcome.1.sim 24
        outcome.1.policy.state).1 = true := by decide +kernel
  obtain ⟨⟨state, left⟩, reached, rfl, fires⟩ := collects.exists_eq_ok
  exact ⟨state, reached, (@teleports_with_open_gripper ℚ ℕ Unit Unit Unit _ _ glidingEnv).2
    { seed := 0, perturb := true } 0 24 state reached fires⟩

end G1Jepa
