import G1Jepa.Library.Fallible
import G1Jepa.Library.ForRange
import G1Jepa.ScriptedPickPlace

/-!
# Collecting an episode

The loop of `collect_data.py`. It records, for every control step, the images seen before the
action, the action, and the policy state with a second counter of the steps spent in it.
-/

namespace G1Jepa

/-- The cameras under the keys that the recorded files use. -/
inductive Camera
  | agentview
  | wrist
  deriving DecidableEq, Repr

/-- The name of a camera in the simulator. -/
def Camera.simName : Camera → String
  | .agentview => "agentview"
  | .wrist => "robot0_eye_in_hand"

/-- `PHASES.index(state)`. -/
def PolicyState.phase : PolicyState → ℤ
  | .approach => 0
  | .descend => 1
  | .grasp => 2
  | .lift => 3
  | .done => 4

structure CollectArgs (K : Type) [Field K] where
  seed : ℕ
  perturb : Bool
  imgSize : ℕ := 384
  maxSteps : ℕ := 300
  policyKwargs : PolicyKwargs K := {}

/-- The low-dimensional record of an episode. -/
structure EpisodeRecord (K : Type) where
  eef : List (Fin 3 → K)
  obj : List (Fin 3 → K)
  action : List (Fin 7 → K)
  phase : List ℤ
  phaseStep : List ℤ
  gripper : List K
  success : Bool
  steps : ℕ
  seed : ℕ
  perturbed : Bool
  perturbStep : ℤ
  perturbDelta : Fin 2 → K

/-- The record of `T` steps in which the gripper approaches and nothing moves. -/
def EpisodeRecord.blank (T : ℕ) : EpisodeRecord ℚ where
  eef := List.replicate T 0
  obj := List.replicate T 0
  action := List.replicate T 0
  phase := List.replicate T 0
  phaseStep := (List.range T).map fun t => (t : ℤ)
  gripper := List.replicate T 0
  success := false
  steps := T
  seed := 0
  perturbed := false
  perturbStep := -1
  perturbDelta := 0

/-- The variables of the loop. -/
structure CollectState (K E R Row : Type) [Field K] where
  sim : E
  policy : ScriptedPickPlace K
  sched : PerturbationScheduler K R
  frames : Camera → List (List Row)
  eef : List (Fin 3 → K)
  obj : List (Fin 3 → K)
  action : List (Fin 7 → K)
  phase : List ℤ
  phaseSteps : List ℤ
  gripper : List K
  phaseStep : ℕ
  prevPhase : Option PolicyState
  success : Bool
  t : ℕ

variable {K E R Row : Type} [Field K] [LinearOrder K] (env : Env K E R Row)

/-- The statements before the loop. -/
def collectStart (args : CollectArgs K) (s : E) : CollectState K E R Row :=
  let rng := env.random.defaultRng args.seed
  let sim := env.reset s
  let policy := (ScriptedPickPlace.init args.policyKwargs).replan env sim none false
  { sim, policy, sched := .init env {} args.perturb rng, frames := fun _ => []
    eef := [], obj := [], action := [], phase := [], phaseSteps := [], gripper := []
    phaseStep := 0, prevPhase := none, success := false, t := 0 }

/-- The body of the loop. -/
def collectStep (args : CollectArgs K) (objInitZ : K) (t : ℕ) (s : CollectState K E R Row) :
    Except PyError (CollectState K E R Row × Bool) := do
  let eef := env.getEefPos s.sim
  let obj := env.getObjectPos s.sim
  let (fired, sim, sched) := s.sched.maybeFire env s.sim t s.policy.state
  let obj := if fired then env.getObjectPos sim else obj
  let phase := s.policy.state
  let phaseStep := if s.prevPhase = some phase then s.phaseStep + 1 else 0
  let frames := fun camera =>
    s.frames camera ++ [env.renderFrame sim camera.simName args.imgSize]
  let (action, policy) ← s.policy.act env sim
  let gripper := env.fingerJoint1 sim
  let sim := env.step action sim
  let lifted := decide (objInitZ + 4 / 100 < env.getObjectPos sim 2)
  .ok
    ({ sim, policy, sched, frames
       eef := s.eef ++ [eef]
       obj := s.obj ++ [obj]
       action := s.action ++ [action]
       phase := s.phase ++ [phase.phase]
       phaseSteps := s.phaseSteps ++ [(phaseStep : ℤ)]
       gripper := s.gripper ++ [gripper]
       phaseStep
       prevPhase := some phase
       success := lifted || s.success
       t }, lifted)

/-- The state of the loop at the start of step `t`, or after the break that ended it earlier. -/
def collectLoop (args : CollectArgs K) (s : E) (t : ℕ) :
    Except PyError (CollectState K E R Row × Bool) :=
  let start := collectStart env args s
  ForRange.loop (collectStep env args (env.getObjectPos start.sim 2)) start t

/-- The record, the frames and the simulator state after the episode. -/
def collectEpisode (args : CollectArgs K) (s : E) :
    Except PyError (EpisodeRecord K × (Camera → List (List Row)) × E) := do
  let (s, _) ← collectLoop env args s args.maxSteps
  .ok
    ({ eef := s.eef, obj := s.obj, action := s.action, phase := s.phase
       phaseStep := s.phaseSteps, gripper := s.gripper, success := s.success
       steps := s.t + 1
       seed := args.seed
       perturbed := s.sched.fired
       perturbStep := match s.sched.fireStep with
         | none => -1
         | some step => step
       perturbDelta := s.sched.delta.getD 0 }, s.frames, s.sim)

/-- What an iteration does, as far as later results read it. -/
structure CollectStepped (args : CollectArgs K) (objInitZ : K) (t : ℕ)
    (s after : CollectState K E R Row) (left : Bool) : Prop where
  sched : after.sched = (s.sched.maybeFire env s.sim t s.policy.state).2.2
  acted : ∃ action,
    s.policy.act env (s.sched.maybeFire env s.sim t s.policy.state).2.1 =
      .ok (action, after.policy) ∧
    after.sim = env.step action (s.sched.maybeFire env s.sim t s.policy.state).2.1 ∧
    after.action = s.action ++ [action]
  frames : ∀ camera, after.frames camera = s.frames camera ++
    [env.renderFrame (s.sched.maybeFire env s.sim t s.policy.state).2.1 camera.simName
      args.imgSize]
  phase : after.phase = s.phase ++ [s.policy.state.phase]
  phaseSteps : after.phaseSteps = s.phaseSteps ++ [(after.phaseStep : ℤ)]
  phaseStep : after.phaseStep =
    if s.prevPhase = some s.policy.state then s.phaseStep + 1 else 0
  prevPhase : after.prevPhase = some s.policy.state
  exit : left = decide (objInitZ + 4 / 100 < env.getObjectPos after.sim 2)

variable {env} {args : CollectArgs K} {objInitZ : K} {t : ℕ} {s after : CollectState K E R Row}
  {left : Bool}

theorem collectStepped_of_collectStep
    (ran : collectStep env args objInitZ t s = .ok (after, left)) :
    CollectStepped env args objInitZ t s after left := by
  obtain ⟨⟨action, policy⟩, acted, returned⟩ := Fallible.bind_eq_ok.mp ran
  obtain ⟨rfl, rfl⟩ := Prod.mk.inj (Except.ok.inj returned)
  exact ⟨rfl, ⟨action, acted, rfl, rfl⟩, fun _ => rfl, rfl, rfl, rfl, rfl, rfl⟩

/-- There is one frame of each camera for every recorded action. -/
def CollectState.Aligned (state : CollectState K E R Row) : Prop :=
  ∀ camera, (state.frames camera).length = state.action.length

theorem aligned_of_collectLoop {sim : E} {n : ℕ} {state : CollectState K E R Row}
    (reached : collectLoop env args sim n = .ok (state, left)) : state.Aligned := by
  have initial : (collectStart env args sim).Aligned := fun _ => rfl
  refine ForRange.loop_preserves initial (fun t before after left aligned ran camera => ?_) reached
  have stepped := collectStepped_of_collectStep ran
  obtain ⟨action, -, -, recorded⟩ := stepped.acted
  rw [stepped.frames camera, recorded, List.length_append, List.length_append, aligned]
  rfl

theorem action_ne_nil_of_collectLoop {sim : E} {n : ℕ} {state : CollectState K E R Row}
    (reached : collectLoop env args sim (n + 1) = .ok (state, left)) : state.action ≠ [] := by
  obtain ⟨t, before, -, -, ran⟩ := ForRange.exists_iteration reached
  obtain ⟨action, -, -, recorded⟩ := (collectStepped_of_collectStep ran).acted
  simp [recorded]

end G1Jepa
