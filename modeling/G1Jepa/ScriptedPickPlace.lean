import G1Jepa.TaskEnv

/-!
# The scripted pick-and-place policy

The waypoint state machine of `run_episode.py`. The policy caches the object position when it
plans and then acts on the cached position; `replan` and `act` are its only operations.
-/

namespace G1Jepa

/-- What the policy reads of the simulator to choose its next state. -/
structure Readings (K : Type) where
  eef : Fin 3 → K
  obj : Fin 3 → K
  grasping : Bool
  deriving DecidableEq

def Env.readings {K E R Row : Type} [Field K] [LinearOrder K] (env : Env K E R Row) (s : E) :
    Readings K where
  eef := env.getEefPos s
  obj := env.getObjectPos s
  grasping := env.isGrasping s

/-- The state that a completed state leads to. -/
def PolicyState.next : PolicyState → PolicyState
  | .approach => .descend
  | .descend => .grasp
  | .grasp => .lift
  | .lift => .done
  | .done => .done

/-- The keyword arguments of the policy, with the defaults of its constructor. -/
structure PolicyKwargs (K : Type) [Field K] where
  kp : K := 10
  hoverThresh : K := 2 / 100
  descendThresh : K := 8 / 1000
  graspSteps : ℤ := 15
  liftThresh : K := 5 / 100
  retreatThresh : K := 2 / 100

structure ScriptedPickPlace (K : Type) [Field K] extends PolicyKwargs K where
  state : PolicyState
  /-- The cached object position, which only `replan` refreshes. -/
  target : Option (Fin 3 → K)
  graspCounter : ℕ
  nReplans : ℕ
  replanSteps : List ℕ
  phaseStep : ℕ
  prevState : Option PolicyState
  /-- The gripper height at the end of the last grasp; `none` while the attribute is not set. -/
  liftFrom : Option K

namespace ScriptedPickPlace

variable {K E R Row : Type} [Field K] [LinearOrder K]

def hoverH : K := 10 / 100
def graspDz : K := 2 / 1000
def liftH : K := 18 / 100

/-- The constructor, which ends with `reset`. -/
def init (kwargs : PolicyKwargs K) : ScriptedPickPlace K where
  toPolicyKwargs := kwargs
  state := .approach
  target := none
  graspCounter := 0
  nReplans := 0
  replanSteps := []
  phaseStep := 0
  prevState := none
  liftFrom := none

variable (env : Env K E R Row) (policy : ScriptedPickPlace K)

/-- The target differs from the cached one by more than `retreat_thresh` in the plane. -/
def moved (newTarget : Fin 3 → K) : Bool :=
  match policy.target with
  | none => true
  | some target =>
      let offset : Fin 2 → K := fun i =>
        newTarget (Fin.castLE (by omega) i) - target (Fin.castLE (by omega) i)
      decide (policy.retreatThresh < env.np.norm offset)

/-- Refresh the target; only a target that has moved sends the policy back to `APPROACH`. -/
def replan (s : E) (step : Option ℕ) (count : Bool) : ScriptedPickPlace K :=
  let newTarget := env.getObjectPos s
  let moved := policy.moved env newTarget
  let policy := { policy with target := some newTarget }
  let policy :=
    if moved && (policy.state == .approach || policy.state == .descend) then
      { policy with state := .approach, graspCounter := 0 }
    else policy
  if count then
    { policy with
      nReplans := policy.nReplans + 1
      replanSteps := policy.replanSteps ++ step.toList }
  else policy

/-- The action that moves the gripper towards a waypoint. -/
def goto (s : E) (eef tgt : Fin 3 → K) (grip : K) : Fin 7 → K :=
  let errWorld := tgt - eef
  let cmdWorld := Numpy.clip (policy.kp • errWorld) (-1) 1
  let cmdBase := Numpy.clip (env.worldToBase s cmdWorld) (-1) 1
  ![cmdBase 0, cmdBase 1, cmdBase 2, 0, 0, 0, grip]

/-- The first part of `act`: a lift that has lost the object is aborted. -/
def abortFailedLift (s : E) : ScriptedPickPlace K :=
  if (policy.state == .lift || policy.state == .done) && !env.isGrasping s then
    { policy with state := .approach, graspCounter := 0 }
  else policy

/-- The second part of `act`: count the steps spent in the state that is about to be executed. -/
def countPhaseStep : ScriptedPickPlace K :=
  { policy with
    phaseStep := if policy.prevState = some policy.state then policy.phaseStep + 1 else 0
    prevState := some policy.state }

/-- The rest of `act`: the action of the current state and the transition that follows it. -/
def actInState (s : E) : Except PyError ((Fin 7 → K) × ScriptedPickPlace K) :=
  let eef := env.getEefPos s
  let target := policy.target.getD (env.getObjectPos s)
  let policy := if policy.target.isNone then policy.replan env s none false else policy
  match policy.state with
  | .approach =>
      let tgt := target + ![0, 0, hoverH]
      let action := policy.goto env s eef tgt (-1)
      if env.np.norm (eef - tgt) < policy.hoverThresh then
        .ok (action, { policy with state := .descend })
      else .ok (action, policy)
  | .descend =>
      let tgt := target + ![0, 0, graspDz]
      let action := policy.goto env s eef tgt (-1)
      if env.np.norm (eef - tgt) < policy.descendThresh then
        .ok (action, { policy with state := .grasp })
      else .ok (action, policy)
  | .grasp =>
      let action := ![0, 0, 0, 0, 0, 0, 1]
      let policy := { policy with graspCounter := policy.graspCounter + 1 }
      if policy.graspSteps ≤ (policy.graspCounter : ℤ) then
        .ok (action, { policy with state := .lift, liftFrom := some (eef 2) })
      else .ok (action, policy)
  | .lift =>
      let tgt := ![target 0, target 1, target 2 + liftH]
      let action := policy.goto env s eef tgt 1
      match policy.liftFrom with
      | none => .error (.attributeError "lift_from")
      | some liftFrom =>
          if liftFrom + policy.liftThresh < eef 2 then
            .ok (action, { policy with state := .done })
          else .ok (action, policy)
  | .done =>
      let tgt := ![target 0, target 1, target 2 + liftH]
      .ok (policy.goto env s eef tgt 1, policy)

def act (s : E) : Except PyError ((Fin 7 → K) × ScriptedPickPlace K) :=
  ((policy.abortFailedLift env s).countPhaseStep).actInState env s

section Replanned

variable {env policy} {after : ScriptedPickPlace K}

/-- What `replan` does: it refreshes the target and may send an approach back to its start. -/
structure Replanned (policy after : ScriptedPickPlace K) : Prop where
  planned : after.target.isSome
  toPolicyKwargs : after.toPolicyKwargs = policy.toPolicyKwargs
  liftFrom : after.liftFrom = policy.liftFrom
  state : (after.state = policy.state ∧ after.graspCounter = policy.graspCounter) ∨
    (policy.state = .approach ∨ policy.state = .descend) ∧ after.state = .approach ∧
      after.graspCounter = 0

variable (env policy) in
theorem replanned (s : E) (step : Option ℕ) (count : Bool) :
    Replanned policy (policy.replan env s step count) := by
  rw [replan]
  cases retreats : policy.moved env (env.getObjectPos s) &&
      (policy.state == .approach || policy.state == .descend) with
  | false => cases count <;> exact ⟨rfl, rfl, rfl, .inl ⟨rfl, rfl⟩⟩
  | true =>
      have state : policy.state = .approach ∨ policy.state = .descend := by
        simpa using (Bool.and_eq_true_iff.mp retreats).2
      cases count <;> exact ⟨rfl, rfl, rfl, .inr ⟨state, rfl, rfl⟩⟩

/-- A policy that has just been constructed and planned approaches. -/
theorem init_replan_approach (env : Env K E R Row) (kwargs : PolicyKwargs K) (s : E)
    (step : Option ℕ) (count : Bool) :
    ((init kwargs).replan env s step count).state = .approach ∧
      ((init kwargs).replan env s step count).graspCounter = 0 := by
  rcases ((init kwargs).replanned env s step count).state with kept | ⟨-, approach⟩
  · exact kept
  · exact approach

variable (env policy) in
theorem replan_target (s : E) (step : Option ℕ) (count : Bool) :
    (policy.replan env s step count).target = some (env.getObjectPos s) := by
  rw [replan]
  cases policy.moved env (env.getObjectPos s) &&
      (policy.state == .approach || policy.state == .descend) <;>
    cases count <;> rfl

variable (env policy) in
theorem replan_counters (s : E) (step : Option ℕ) (count : Bool) :
    (policy.replan env s step count).nReplans = policy.nReplans + count.toNat ∧
      (policy.replan env s step count).replanSteps =
        policy.replanSteps ++ if count then step.toList else [] := by
  rw [replan]
  cases policy.moved env (env.getObjectPos s) &&
      (policy.state == .approach || policy.state == .descend) <;>
    cases count <;> simp

end Replanned

section Acted

variable {env policy} {s s' : E} {after : ScriptedPickPlace K} {action : Fin 7 → K}

/-- The state whose branch `act` executes. -/
def executedState (env : Env K E R Row) (policy : ScriptedPickPlace K) (s : E) : PolicyState :=
  (policy.abortFailedLift env s).state

variable (env policy s) in
/-- Only a lift is ever aborted. -/
theorem abortFailedLift_cases : policy.abortFailedLift env s = policy ∨
    (policy.state = .lift ∨ policy.state = .done) ∧
      policy.abortFailedLift env s = { policy with state := .approach, graspCounter := 0 } := by
  rw [abortFailedLift]
  split
  case isTrue aborts =>
    simp only [Bool.and_eq_true, Bool.or_eq_true, beq_iff_eq] at aborts
    exact .inr ⟨aborts.1, rfl⟩
  case isFalse => exact .inl rfl

variable (env policy s) in
theorem executedState_cases : policy.executedState env s = policy.state ∨
    (policy.state = .lift ∨ policy.state = .done) ∧ policy.executedState env s = .approach := by
  rw [executedState]
  rcases abortFailedLift_cases env policy s with kept | ⟨lifts, aborted⟩
  · exact .inl (by rw [kept])
  · exact .inr ⟨lifts, by rw [aborted]⟩

/-- A branch other than the approach executes the state in which the call begins. -/
theorem state_of_executedState {state : PolicyState}
    (executed : policy.executedState env s = state) (other : state ≠ .approach) :
    policy.state = state := by
  rcases executedState_cases env policy s with kept | ⟨-, approach⟩
  · exact kept.symm.trans executed
  · exact absurd (executed.symm.trans approach) other

/-- What `act` does to a policy that has a target. -/
structure Acted (env : Env K E R Row) (policy : ScriptedPickPlace K) (s : E)
    (after : ScriptedPickPlace K) : Prop where
  target : after.target = policy.target
  prevState : after.prevState = some (policy.executedState env s)
  phaseStep : after.phaseStep =
    if policy.prevState = some (policy.executedState env s) then policy.phaseStep + 1 else 0
  state : after.state = policy.executedState env s ∨
    after.state = (policy.executedState env s).next

/-- What the branch of the current state does, given a plan: its action and the policy after it. -/
inductive ActBranch (env : Env K E R Row) (policy : ScriptedPickPlace K) (s : E) :
    (Fin 7 → K) → ScriptedPickPlace K → Prop
  | reach {action : Fin 7 → K} {state : PolicyState} :
      policy.state = .approach ∨ policy.state = .descend → action 6 = -1 →
      state = policy.state ∨ state = policy.state.next →
      ActBranch env policy s action { policy with state }
  | dwell : policy.state = .grasp → (policy.graspCounter + 1 : ℕ) < policy.graspSteps →
      ActBranch env policy s ![0, 0, 0, 0, 0, 0, 1]
        { policy with graspCounter := policy.graspCounter + 1 }
  | lift : policy.state = .grasp → policy.graspSteps ≤ (policy.graspCounter + 1 : ℕ) →
      ActBranch env policy s ![0, 0, 0, 0, 0, 0, 1]
        { policy with
          graspCounter := policy.graspCounter + 1, state := .lift
          liftFrom := some (env.getEefPos s 2) }
  | carry {action : Fin 7 → K} {state : PolicyState} {height : K} : policy.state = .lift →
      policy.liftFrom = some height → state = policy.state ∨ state = policy.state.next →
      ActBranch env policy s action { policy with state }
  | hold {action : Fin 7 → K} : policy.state = .done → ActBranch env policy s action policy

/-- The inversion of the last part of `act`. -/
theorem actBranch_of_actInState (planned : policy.target.isSome)
    (acts : policy.actInState env s = .ok (action, after)) :
    ActBranch env policy s action after := by
  obtain ⟨kwargs, state, target, counter, nReplans, replanSteps, phaseStep, prevState, liftFrom⟩ :=
    policy
  have present : target.isNone = false := Option.isNone_eq_false_iff.mpr planned
  cases state with
  | approach | descend =>
      simp only [actInState, present, Bool.false_eq_true, if_false] at acts
      split at acts <;> obtain ⟨rfl, rfl⟩ := Prod.mk.inj (Except.ok.inj acts)
      · exact .reach (by simp) rfl (.inr rfl)
      · exact .reach (by simp) rfl (.inl rfl)
  | grasp =>
      simp only [actInState, present, Bool.false_eq_true, if_false] at acts
      split at acts
      case isTrue full =>
        obtain ⟨rfl, rfl⟩ := Prod.mk.inj (Except.ok.inj acts)
        exact .lift rfl full
      case isFalse short =>
        obtain ⟨rfl, rfl⟩ := Prod.mk.inj (Except.ok.inj acts)
        exact .dwell rfl (not_le.mp short)
  | lift =>
      simp only [actInState, present, Bool.false_eq_true, if_false] at acts
      cases liftFrom with
      | none => contradiction
      | some height =>
          dsimp only at acts
          split at acts <;> obtain ⟨rfl, rfl⟩ := Prod.mk.inj (Except.ok.inj acts)
          · exact .carry rfl rfl (.inr rfl)
          · exact .carry rfl rfl (.inl rfl)
  | done =>
      simp only [actInState, present, Bool.false_eq_true, if_false] at acts
      obtain ⟨rfl, rfl⟩ := Prod.mk.inj (Except.ok.inj acts)
      exact .hold rfl

variable (env s) in
/-- Only the branch of `LIFT` can raise, when no grasp has set `lift_from`. -/
theorem exists_actInState (planned : policy.target.isSome)
    (lifting : policy.state = .lift → policy.liftFrom.isSome) :
    ∃ action after, policy.actInState env s = .ok (action, after) := by
  obtain ⟨kwargs, state, target, counter, nReplans, replanSteps, phaseStep, prevState, liftFrom⟩ :=
    policy
  have present : target.isNone = false := Option.isNone_eq_false_iff.mpr planned
  cases state with
  | approach | descend | grasp =>
      simp only [actInState, present, Bool.false_eq_true, if_false]
      split <;> exact ⟨_, _, rfl⟩
  | lift =>
      obtain ⟨height, lifted⟩ := Option.isSome_iff_exists.mp (lifting rfl)
      obtain rfl : liftFrom = some height := lifted
      simp only [actInState, present, Bool.false_eq_true, if_false]
      split <;> exact ⟨_, _, rfl⟩
  | done =>
      simp only [actInState, present, Bool.false_eq_true, if_false]
      exact ⟨_, _, rfl⟩

/-- The branch of a state keeps the plan and the counters and may complete the state. -/
theorem actInState_eq_ok (planned : policy.target.isSome)
    (acts : policy.actInState env s = .ok (action, after)) :
    after.target = policy.target ∧ after.prevState = policy.prevState ∧
      after.phaseStep = policy.phaseStep ∧
      (after.state = policy.state ∨ after.state = policy.state.next) := by
  cases actBranch_of_actInState planned acts with
  | reach _ _ follows | carry _ _ follows => exact ⟨rfl, rfl, rfl, follows⟩
  | dwell | hold => exact ⟨rfl, rfl, rfl, .inl rfl⟩
  | lift state => exact ⟨rfl, rfl, rfl, .inr (by rw [state]; rfl)⟩

variable (env policy s) in
theorem abortFailedLift_counters : (policy.abortFailedLift env s).target = policy.target ∧
    (policy.abortFailedLift env s).prevState = policy.prevState ∧
    (policy.abortFailedLift env s).phaseStep = policy.phaseStep := by
  rcases abortFailedLift_cases env policy s with kept | ⟨-, aborted⟩
  · rw [kept]
    exact ⟨rfl, rfl, rfl⟩
  · rw [aborted]
    exact ⟨rfl, rfl, rfl⟩

theorem planned_countPhaseStep (planned : policy.target.isSome) :
    (policy.abortFailedLift env s).countPhaseStep.target.isSome := by
  rw [countPhaseStep, (abortFailedLift_counters env policy s).1]
  exact planned

theorem actBranch_of_act (planned : policy.target.isSome)
    (acts : policy.act env s = .ok (action, after)) :
    ActBranch env (policy.abortFailedLift env s).countPhaseStep s action after :=
  actBranch_of_actInState (planned_countPhaseStep planned) acts

theorem acted_of_act (planned : policy.target.isSome)
    (acts : policy.act env s = .ok (action, after)) : Acted env policy s after := by
  obtain ⟨target, prevState, phaseStep⟩ := abortFailedLift_counters env policy s
  obtain ⟨keepsTarget, keepsPrevState, keepsPhaseStep, follows⟩ :=
    actInState_eq_ok (planned_countPhaseStep planned) acts
  refine ⟨keepsTarget.trans target, keepsPrevState, ?_, follows⟩
  rw [keepsPhaseStep, executedState, ← prevState, ← phaseStep]
  rfl

/-- `act` counts no replan. -/
theorem act_replans (planned : policy.target.isSome)
    (acts : policy.act env s = .ok (action, after)) :
    after.nReplans = policy.nReplans ∧ after.replanSteps = policy.replanSteps := by
  have start : (policy.abortFailedLift env s).nReplans = policy.nReplans ∧
      (policy.abortFailedLift env s).replanSteps = policy.replanSteps := by
    rcases abortFailedLift_cases env policy s with kept | ⟨-, aborted⟩
    · rw [kept]
      exact ⟨rfl, rfl⟩
    · rw [aborted]
      exact ⟨rfl, rfl⟩
  cases actBranch_of_act planned acts <;> exact start

variable (policy) in
/-- The policy after `act` depends on the simulator through the readings only. -/
theorem act_policy_congr (same : env.readings s = env.readings s') :
    (policy.act env s).map Prod.snd = (policy.act env s').map Prod.snd := by
  obtain ⟨eef, obj, grasping⟩ := Readings.mk.inj same
  have aborted : policy.abortFailedLift env s = policy.abortFailedLift env s' := by
    rw [abortFailedLift, abortFailedLift, grasping]
  rw [act, act, aborted]
  generalize (policy.abortFailedLift env s').countPhaseStep = counted
  have planned : counted.replan env s none false = counted.replan env s' none false := by
    rw [replan, replan, obj]
  simp only [actInState, eef, obj, planned]
  generalize (if counted.target.isNone = true then counted.replan env s' none false else counted) =
    policy
  cases policy.state with
  | lift =>
      cases policy.liftFrom with
      | none => rfl
      | some liftFrom =>
          dsimp only
          split <;> rfl
  | grasp | done => rfl
  | approach | descend =>
      dsimp only
      split <;> rfl

end Acted

end ScriptedPickPlace

end G1Jepa
