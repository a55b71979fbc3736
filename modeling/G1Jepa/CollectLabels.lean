import G1Jepa.BucketAgreement
import G1Jepa.PolicyTrace

/-!
# The labels of a collected episode

`collect_episode` labels a step with the state of the policy before `act`, and counts the steps in
that state itself. `act` counts as well, but may first abort a failed lift, and executes `APPROACH`
in the step that is labelled `LIFT` or `DONE`. The two counts then differ until that approach ends.
-/

namespace G1Jepa

variable {K E R Row : Type} [Field K] [LinearOrder K]

/-- The condition under which `act` aborts a lift. -/
def ScriptedPickPlace.AbortsLift (env : Env K E R Row) (policy : ScriptedPickPlace K) (s : E) :
    Prop :=
  (policy.state = .lift ∨ policy.state = .done) ∧ env.isGrasping s = false

instance (env : Env K E R Row) (policy : ScriptedPickPlace K) (s : E) :
    Decidable (policy.AbortsLift env s) :=
  inferInstanceAs (Decidable (_ ∧ _))

theorem ScriptedPickPlace.executedState_eq_iff (env : Env K E R Row)
    (policy : ScriptedPickPlace K) (s : E) :
    policy.executedState env s = policy.state ↔ ¬policy.AbortsLift env s := by
  rw [executedState, abortFailedLift, AbortsLift]
  cases state : policy.state <;> cases env.isGrasping s <;> simp [state]

/-- The simulator that `act` reads in an iteration, after the call of the scheduler. -/
def CollectState.actSim (env : Env K E R Row) (t : ℕ) (s : CollectState K E R Row) : E :=
  (s.sched.maybeFire env s.sim t s.policy.state).2.1

/-- The call of `act` in step `t` of an episode and the policy after it, when the episode gets that
far. -/
def collectCallAt (env : Env K E R Row) (args : CollectArgs K) (s : E) (t : ℕ) :
    Option (ActCall K × ScriptedPickPlace K) :=
  match collectLoop env args s t with
  | .ok (state, false) => (state.policy.actCall env (state.actSim env t)).toOption
  | _ => none

/-- The state whose branch `act` executes in step `t`. -/
def collectExecutedAt (env : Env K E R Row) (args : CollectArgs K) (s : E) (t : ℕ) :
    Option PolicyState :=
  (collectCallAt env args s t).map fun called => called.1.executed

/-- The iteration approaches again: an earlier one has recorded another phase. -/
def CollectState.Reapproaches (s : CollectState K E R Row) : Prop :=
  s.policy.state = .approach ∧ ∃ label ∈ s.phase, label ≠ PolicyState.approach.phase

instance (s : CollectState K E R Row) : Decidable s.Reapproaches :=
  inferInstanceAs (Decidable (_ ∧ _))

variable {env : Env K E R Row} {args : CollectArgs K} {s : E}

/-! ## The counter of the policy -/

/-- The policy has counted the last steps that executed the same state. -/
def PhaseCounted (executedAt : ℕ → Option PolicyState) (n : ℕ) (policy : ScriptedPickPlace K) :
    Prop :=
  (n = 0 ∧ policy.prevState = none) ∨ ∃ state, policy.prevState = some state ∧
    policy.phaseStep + 1 =
      Debounce.runLength (fun u => decide (executedAt u = some state)) 0 n

omit [LinearOrder K] in
/-- Before step `n` the counter implies how many steps have just executed a given state. -/
theorem PhaseCounted.runLength_eq {executedAt : ℕ → Option PolicyState} {n : ℕ}
    {policy : ScriptedPickPlace K} (counted : PhaseCounted executedAt n policy)
    (state : PolicyState) :
    Debounce.runLength (fun u => decide (executedAt u = some state)) 0 n =
      if policy.prevState = some state then policy.phaseStep + 1 else 0 := by
  rcases counted with ⟨rfl, start⟩ | ⟨last, prevState, counter⟩
  · rw [start]
    rfl
  · cases n with
    | zero => cases counter
    | succ n =>
        rw [prevState]
        cases Decidable.em (last = state) with
        | inl same =>
            rw [if_pos (congrArg some same), counter, same]
        | inr other =>
            have executed : executedAt n = some last := by
              by_contra different
              rw [Debounce.runLength, Nat.zero_add, decide_eq_false different] at counter
              cases counter
            rw [if_neg fun same => other (Option.some.inj same), Debounce.runLength, Nat.zero_add,
              executed, decide_eq_false fun same => other (Option.some.inj same)]
            rfl

theorem PhaseCounted.next {executedAt : ℕ → Option PolicyState} {n : ℕ}
    {policy after : ScriptedPickPlace K} {sim : E}
    (counted : PhaseCounted executedAt n policy)
    (acted : ScriptedPickPlace.Acted env policy sim after)
    (executed : executedAt n = some (policy.executedState env sim)) :
    after.phaseStep = Debounce.runLength
        (fun u => decide (executedAt u = some (policy.executedState env sim))) 0 n ∧
      PhaseCounted executedAt (n + 1) after := by
  have counter : after.phaseStep = Debounce.runLength
      (fun u => decide (executedAt u = some (policy.executedState env sim))) 0 n := by
    rw [counted.runLength_eq, acted.phaseStep]
  refine ⟨counter, .inr ⟨_, acted.prevState, ?_⟩⟩
  rw [Debounce.runLength, Nat.zero_add, executed, decide_eq_true rfl, if_pos rfl, counter]

/-! ## The labels -/

/-- What holds at the start of step `t`. -/
structure Labelled (env : Env K E R Row) (args : CollectArgs K) (s : E) (t : ℕ)
    (state : CollectState K E R Row) : Prop where
  counted : PhaseCounted (collectExecutedAt env args s) t state.policy
  labels : ∃ states : List PolicyState,
    Counted state.policy states state.label ∧ state.phase = states.map PolicyState.phase

theorem PolicyState.phase_injective : Function.Injective PolicyState.phase := by
  intro left right same
  cases left <;> cases right <;> first | rfl | contradiction

omit [LinearOrder K] in
theorem reapproaches_iff {state : CollectState K E R Row} {states : List PolicyState}
    (recorded : state.phase = states.map PolicyState.phase) :
    state.Reapproaches ↔ Retries state.policy states := by
  rw [CollectState.Reapproaches, Retries, recorded]
  simp only [List.mem_map, exists_exists_and_eq_and, ne_eq, PolicyState.phase_injective.eq_iff]

theorem collectExecutedAt_eq {t : ℕ} {before : CollectState K E R Row} {call : ActCall K}
    {after : ScriptedPickPlace K}
    (reached : collectLoop env args s t = .ok (before, false))
    (called : before.policy.actCall env (before.actSim env t) = .ok (call, after)) :
    collectCallAt env args s t = some (call, after) ∧
      collectExecutedAt env args s t = some call.executed := by
  have found : collectCallAt env args s t = some (call, after) := by
    rw [collectCallAt, reached]
    dsimp only
    rw [called]
    rfl
  refine ⟨found, ?_⟩
  rw [collectExecutedAt, found]
  rfl

/-- The call of `act` in an iteration of the loop. -/
theorem exists_actCall {objInitZ : K} {t : ℕ} {before after : CollectState K E R Row} {left : Bool}
    (stepped : CollectStepped env args objInitZ t before after left) :
    ∃ call, before.policy.actCall env (before.actSim env t) = .ok (call, after.policy) ∧
      call.executed = before.policy.executedState env (before.actSim env t) ∧
      after.action = before.action ++ [call.action] := by
  obtain ⟨action, acts, -, recorded⟩ := stepped.acted
  exact ⟨_, ScriptedPickPlace.actCall_of_act acts, rfl, recorded⟩

theorem labelled_of_collectLoop {t : ℕ} {state : CollectState K E R Row}
    (reached : collectLoop env args s t = .ok (state, false)) : Labelled env args s t state := by
  refine ForRange.loop_invariant ?_ ?_ reached
  · exact ⟨.inl ⟨rfl, rfl⟩, [], counted_init args.policyKwargs, rfl⟩
  · intro t before after left reached labelled ran
    have stepped := collectStepped_of_collectStep ran
    obtain ⟨call, called, executed, -⟩ := exists_actCall stepped
    obtain ⟨states, counted, recorded⟩ := labelled.labels
    obtain ⟨action, acts, -⟩ := stepped.acted
    have acted := ScriptedPickPlace.acted_of_act counted.planned acts
    have executedAt := (collectExecutedAt_eq reached called).2
    rw [executed] at executedAt
    have label : after.label =
        if before.policy.state = after.policy.state then before.label + 1 else 0 := by
      simp only [CollectState.label, stepped.prevPhase, stepped.phaseStep, Option.some.injEq]
    refine ⟨(labelled.counted.next acted executedAt).2, states ++ [before.policy.state], ?_, ?_⟩
    · rw [label]
      exact counted.act acted
    · rw [stepped.phase, recorded, List.map_append]
      rfl

theorem action_eq_append {objInitZ : K} {t : ℕ} {before after : CollectState K E R Row}
    {left : Bool}
    (ran : collectStep env args objInitZ t before = .ok (after, left)) :
    after.action = before.action ++
      [issuedAction (before.policy.actCall env (before.actSim env t))] := by
  obtain ⟨call, called, -, recorded⟩ := exists_actCall (collectStepped_of_collectStep ran)
  rw [recorded, called]
  rfl

/-- The recorded phase step and the counter of the policy after `act`. -/
theorem Counted.label_eq_iff {policy after : ScriptedPickPlace K} {states : List PolicyState}
    {label : ℕ} {sim : E} (counted : Counted policy states label)
    (acted : ScriptedPickPlace.Acted env policy sim after)
    (executed : policy.executedState env sim = policy.state) :
    label = after.phaseStep ↔ ¬Retries policy states := by
  have counter := acted.phaseStep
  rw [executed] at counter
  cases Decidable.em (policy.prevState = some policy.state) with
  | inl stayed =>
      have label := counted.stayed stayed
      rw [if_pos stayed] at counter
      rw [label, counter]
      split
      case isTrue retries => simp [retries]
      case isFalse first => simp [first]
  | inr entered =>
      rw [if_neg entered] at counter
      rw [counter, counted.entered entered]
      simp [counted.not_retries entered]

/-- In every step of an episode the recorded phase is the state whose branch `act` executed and the
recorded phase step is the counter of the policy after `act`, if and only if the step does not
abort a lift and does not approach again after another phase. The counter is always the number of
calls of `act` just before that executed the same state. -/
theorem labels_eq_executed_iff {record : EpisodeRecord K} {frames : Camera → List (List Row)}
    {sim : E} (collected : collectEpisode env args s = .ok (record, frames, sim)) {t : ℕ}
    {phase phaseStep : ℤ} (phaseAt : record.phase[t]? = some phase)
    (phaseStepAt : record.phaseStep[t]? = some phaseStep) :
    ∃ before call after, collectLoop env args s t = .ok (before, false) ∧
      before.policy.actCall env (before.actSim env t) = .ok (call, after) ∧
      record.action[t]? = some call.action ∧
      after.phaseStep = Debounce.runLength
        (fun u => decide (collectExecutedAt env args s u = some call.executed)) 0 t ∧
      (phase = call.executed.phase ∧ phaseStep = after.phaseStep ↔
        ¬before.policy.AbortsLift env (before.actSim env t) ∧ ¬before.Reapproaches) := by
  obtain ⟨⟨final, left⟩, looped, returned⟩ := Fallible.bind_eq_ok.mp collected
  obtain ⟨rfl, -⟩ := Prod.mk.inj (Except.ok.inj returned)
  obtain ⟨before, bound, running, rfl, rfl⟩ := exists_iteration_of_labels looped phaseAt phaseStepAt
  obtain ⟨after, exit, ran⟩ := ForRange.exists_ran looped bound running
  have stepped := collectStepped_of_collectStep ran
  obtain ⟨call, called, executed, -⟩ := exists_actCall stepped
  obtain ⟨action, acts, -⟩ := stepped.acted
  obtain ⟨phaseCounted, states, counted, recorded⟩ := labelled_of_collectLoop running
  have acted := ScriptedPickPlace.acted_of_act counted.planned acts
  have executedAt := (collectExecutedAt_eq running called).2
  rw [executed] at executedAt
  have issued := ForRange.getElem?_log rfl
    (fun t before after left ran => action_eq_append ran) looped bound running
  rw [called] at issued
  refine ⟨before, call, after.policy, running, called, issued, ?_, ?_⟩
  · rw [executed]
    exact (phaseCounted.next acted executedAt).1
  · rw [executed, PolicyState.phase_injective.eq_iff, eq_comm,
      ScriptedPickPlace.executedState_eq_iff, reapproaches_iff recorded, Int.natCast_inj]
    apply and_congr_right
    intro kept
    exact counted.label_eq_iff acted
      ((ScriptedPickPlace.executedState_eq_iff env before.policy _).mpr kept)

/-- The heights of a gripper that hovers, goes down, grasps and then stays up without the object. -/
def dropHeight : ℕ → ℚ
  | 0 => 1 / 10
  | 1 => 1 / 500
  | _ => 1

/-- A simulator that plays back a grasp that misses the object. -/
def droppingEnv : Env ℚ ℕ Unit Unit :=
  { glidingEnv with gripSiteXpos := fun n => ![0, 0, dropHeight n] }

def droppingArgs : CollectArgs ℚ :=
  { seed := 0, perturb := false, maxSteps := 5, policyKwargs := { graspSteps := 1 } }

/-- The step after the missed lift approaches for the second time. -/
theorem labels_eq_executed_iff_dropping :
    ∃ record frames sim before call after,
      collectEpisode droppingEnv droppingArgs 0 = .ok (record, frames, sim) ∧
        collectLoop droppingEnv droppingArgs 0 4 = .ok (before, false) ∧
        before.policy.actCall droppingEnv (before.actSim droppingEnv 4) = .ok (call, after) ∧
        ((0 : ℤ) = call.executed.phase ∧ (0 : ℤ) = after.phaseStep ↔
          ¬before.policy.AbortsLift droppingEnv (before.actSim droppingEnv 4) ∧
            ¬before.Reapproaches) := by
  have collects : Fallible.Returns (collectEpisode droppingEnv droppingArgs 0) fun outcome =>
      outcome.1.phase[4]? = some 0 ∧ outcome.1.phaseStep[4]? = some 0 := by decide +kernel
  obtain ⟨⟨record, frames, sim⟩, collected, phaseAt, phaseStepAt⟩ := collects.exists_eq_ok
  obtain ⟨before, call, after, running, called, -, -, agree⟩ :=
    labels_eq_executed_iff collected phaseAt phaseStepAt
  exact ⟨record, frames, sim, before, call, after, collected, running, called, agree⟩

/-- The step that aborts the lift is labelled `LIFT` and executes `APPROACH`; in the next step the
label counts the approach from zero and the policy from one. -/
theorem labels_ne_executed_after_missed_grasp :
    ∃ record frames sim,
      collectEpisode droppingEnv droppingArgs 0 = .ok (record, frames, sim) ∧
        record.phase[3]? = some PolicyState.lift.phase ∧
        collectExecutedAt droppingEnv droppingArgs 0 3 = some .approach ∧
        record.phaseStep[4]? = some 0 ∧
        (collectCallAt droppingEnv droppingArgs 0 4).map (fun called => called.2.phaseStep) =
          some 1 := by
  have collects : Fallible.Returns (collectEpisode droppingEnv droppingArgs 0) fun outcome =>
      outcome.1.phase[3]? = some PolicyState.lift.phase ∧ outcome.1.phaseStep[4]? = some 0 := by
    decide +kernel
  obtain ⟨⟨record, frames, sim⟩, collected, phaseAt, phaseStepAt⟩ := collects.exists_eq_ok
  have executed : collectExecutedAt droppingEnv droppingArgs 0 3 = some .approach := by
    decide +kernel
  have counted : (collectCallAt droppingEnv droppingArgs 0 4).map
      (fun called => called.2.phaseStep) = some 1 := by decide +kernel
  exact ⟨record, frames, sim, collected, phaseAt, executed, phaseStepAt, counted⟩

end G1Jepa
