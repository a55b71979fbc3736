import G1Jepa.Numpy
import Mathlib.Algebra.Order.Group.Abs
import Mathlib.Data.Fin.VecNotation

/-!
# The simulated task and its perturbation

`Env` is the interface of the simulator and of the random generators, which are not part of the
repository. Over it stand the accessors of `task_env.py` and the scheduler that teleports the
object once in an episode.
-/

namespace G1Jepa

/-- The states of the scripted policy. -/
inductive PolicyState
  | approach
  | descend
  | grasp
  | lift
  | done
  deriving DecidableEq, Repr

/-- `numpy.random.Generator` with explicit generator states `R`. -/
structure RandomGenerator (K R : Type) where
  /-- `np.random.default_rng(seed)`. -/
  defaultRng : ℕ → R
  /-- `rng.integers(low, high)`. -/
  integers : R → ℤ → ℤ → ℤ × R
  /-- `rng.uniform(low, high)`. -/
  uniform : R → K → K → K × R
  /-- A drawn integer lies in the half-open interval. -/
  integers_mem : ∀ rng low high, low < high →
    low ≤ (integers rng low high).1 ∧ (integers rng low high).1 < high

/-- The simulator, its states being `E` and the rows of its images `Row`. -/
structure Env (K E R Row : Type) [Zero K] [LE K] where
  /-- The array routines. -/
  np : Numpy K
  /-- The random generators. -/
  random : RandomGenerator K R
  /-- `sim.data.get_joint_qpos("cube_joint0")`: position and quaternion. -/
  objQpos : E → Fin 7 → K
  /-- `sim.data.set_joint_qpos("cube_joint0", ·)`. -/
  setObjQpos : (Fin 7 → K) → E → E
  /-- `sim.data.set_joint_qvel("cube_joint0", ·)`. -/
  setObjQvel : (Fin 6 → K) → E → E
  /-- `sim.forward()`. -/
  forward : E → E
  /-- `sim.data.get_site_xpos(grip_site)`. -/
  gripSiteXpos : E → Fin 3 → K
  /-- `sim.data.get_body_xmat("robot0_base")`, or `none` when the call raises. -/
  baseXmat : E → Option (Matrix (Fin 3) (Fin 3) K)
  /-- `_check_grasp(gripper, cube)`, or `none` when the call raises. -/
  checkGrasp : E → Option Bool
  /-- `sim.data.get_joint_qpos("gripper0_right_finger_joint1")`. -/
  fingerJoint1 : E → K
  /-- `sim.data.get_joint_qpos("gripper0_right_finger_joint2")`. -/
  fingerJoint2 : E → K
  /-- `sim.render(size, size, camera)`, which has no effect on the physics. -/
  simRender : E → ℕ → String → List Row
  /-- The camera image in the observation that `step` returns with this state. -/
  obsImage : E → String → List Row
  /-- `env.step(action)`. -/
  step : (Fin 7 → K) → E → E
  /-- `env.placement_initializer.rng = ·`. -/
  setPlacementRng : R → E → E
  /-- `env.deterministic_reset = ·`. -/
  setDeterministicReset : Bool → E → E
  /-- `env.reset()`. -/
  reset : E → E

namespace Env

variable {K E R Row : Type} [Field K] [LinearOrder K] (env : Env K E R Row)

/-- `base_rot`: the rotation from the base frame to the world frame. -/
def baseRot (s : E) : Matrix (Fin 3) (Fin 3) K :=
  (env.baseXmat s).getD 1

def worldToBase (s : E) (v : Fin 3 → K) : Fin 3 → K :=
  (env.baseRot s).transpose.mulVec v

def getObjectPose (s : E) : (Fin 3 → K) × (Fin 4 → K) :=
  (fun i => env.objQpos s (Fin.castLE (by omega) i), fun i => env.objQpos s (Fin.natAdd 3 i))

def getObjectPos (s : E) : Fin 3 → K :=
  (env.getObjectPose s).1

def getEefPos (s : E) : Fin 3 → K :=
  env.gripSiteXpos s

/-- Move the object horizontally and stop it; the new position comes first. -/
def teleportObject (s : E) (delta : Fin 2 → K) : (Fin 3 → K) × E :=
  let q := env.objQpos s
  let q := Function.update q 0 (q 0 + delta 0)
  let q := Function.update q 1 (q 1 + delta 1)
  (fun i => q (Fin.castLE (by omega) i), env.forward (env.setObjQvel 0 (env.setObjQpos q s)))

/-- A displacement in a random direction, its length drawn from `magRange`. -/
def samplePerturbation (rng : R) (magRange : K × K) : (Fin 2 → K) × R :=
  let (theta, rng) := env.random.uniform rng 0 (2 * env.np.pi)
  let (mag, rng) := env.random.uniform rng magRange.1 magRange.2
  (![mag * env.np.cos theta, mag * env.np.sin theta], rng)

/-- Whether the gripper holds the object; the finger opening decides when the check raises. -/
def isGrasping (s : E) : Bool :=
  match env.checkGrasp s with
  | some held => held
  | none =>
      let w := |env.fingerJoint1 s| + |env.fingerJoint2 s|
      decide (8 / 1000 < w ∧ w < 38 / 1000)

/-- `np.asarray(img)[::-1]`: the rendered image with its rows from top to bottom. -/
def renderFrame (s : E) (camera : String) (size : ℕ) : List Row :=
  (env.simRender s size camera).reverse

end Env

/-- The constructor arguments that keep their defaults throughout the repository. -/
structure SchedulerArgs (K : Type) [Field K] where
  fireState : PolicyState := .descend
  delayRange : ℤ × ℤ := (2, 12)
  minStep : ℤ := 10
  magRange : K × K := (5 / 100, 10 / 100)

/-- The scheduler that perturbs the object once, some steps after a state was entered. -/
structure PerturbationScheduler (K R : Type) where
  fireState : PolicyState
  minStep : ℤ
  enabled : Bool
  rng : R
  delaySteps : ℤ
  magRange : K × K
  fired : Bool
  fireStep : Option ℕ
  delta : Option (Fin 2 → K)
  newPos : Option (Fin 3 → K)
  inState : ℕ

namespace PerturbationScheduler

variable {K E R Row : Type} [Field K] [LinearOrder K] (env : Env K E R Row)

def init (args : SchedulerArgs K) (enabled : Bool) (rng : R) : PerturbationScheduler K R :=
  let (delaySteps, rng) := env.random.integers rng args.delayRange.1 args.delayRange.2
  { fireState := args.fireState, minStep := args.minStep, enabled, rng, delaySteps
    magRange := args.magRange, fired := false, fireStep := none, delta := none, newPos := none
    inState := 0 }

/-- One call in each control step: whether the object was teleported, and the new states. -/
def maybeFire (sched : PerturbationScheduler K R) (s : E) (step : ℕ) (policyState : PolicyState) :
    Bool × E × PerturbationScheduler K R :=
  if !sched.enabled || sched.fired then
    (false, s, sched)
  else if policyState ≠ sched.fireState then
    (false, s, { sched with inState := 0 })
  else
    let sched := { sched with inState := sched.inState + 1 }
    if (sched.inState : ℤ) ≤ sched.delaySteps ∨ (step : ℤ) < sched.minStep then
      (false, s, sched)
    else
      let (delta, rng) := env.samplePerturbation sched.rng sched.magRange
      let (newPos, s) := env.teleportObject s delta
      (true, s, { sched with
        rng, delta := some delta, newPos := some newPos, fired := true, fireStep := some step })

/-- What a call of the scheduler can do: nothing at all, reset its counter outside the state that
it waits for, count, or teleport the object. -/
inductive Called (env : Env K E R Row) (sched : PerturbationScheduler K R) (s : E) (step : ℕ)
    (policyState : PolicyState) : Bool → E → PerturbationScheduler K R → Prop
  | idle : sched.enabled = false ∨ sched.fired = true →
      Called env sched s step policyState false s sched
  | away : sched.fired = false → policyState ≠ sched.fireState →
      Called env sched s step policyState false s { sched with inState := 0 }
  | waiting : sched.enabled = true → sched.fired = false → policyState = sched.fireState →
      (sched.inState + 1 : ℕ) ≤ sched.delaySteps ∨ (step : ℤ) < sched.minStep →
      Called env sched s step policyState false s { sched with inState := sched.inState + 1 }
  | fires {rng : R} {delta : Fin 2 → K} {newPos : Fin 3 → K} : sched.enabled = true →
      sched.fired = false → policyState = sched.fireState →
      sched.delaySteps < (sched.inState + 1 : ℕ) → sched.minStep ≤ step →
      Called env sched s step policyState true (env.teleportObject s delta).2
        { sched with
          inState := sched.inState + 1, rng, delta := some delta, newPos := some newPos
          fired := true, fireStep := some step }

/-- The inversion of `maybe_fire`. -/
theorem called_maybeFire (sched : PerturbationScheduler K R) (s : E) (step : ℕ)
    (policyState : PolicyState) :
    Called env sched s step policyState (sched.maybeFire env s step policyState).1
      (sched.maybeFire env s step policyState).2.1
      (sched.maybeFire env s step policyState).2.2 := by
  simp only [maybeFire]
  split
  case isTrue off => exact .idle (by simpa using off)
  case isFalse on =>
    have enabled : sched.enabled = true := by grind
    have unfired : sched.fired = false := by grind
    split
    case isTrue other => exact .away unfired other
    case isFalse waits =>
      rw [not_not] at waits
      split
      case isTrue early => exact .waiting enabled unfired waits early
      case isFalse late =>
        rw [not_or, not_le, not_lt] at late
        exact .fires enabled unfired waits late.1 late.2

/-- The scheduler fires at most once and then knows its step. -/
theorem Called.fireStep_eq {env : Env K E R Row} {sched after : PerturbationScheduler K R}
    {s s' : E}
    {step : ℕ} {policyState : PolicyState} {fired : Bool}
    (called : Called env sched s step policyState fired s' after)
    (consistent : sched.fired = sched.fireStep.isSome) :
    after.fired = after.fireStep.isSome ∧
      after.fireStep = (if fired then some step else sched.fireStep) ∧
      (fired = true → sched.fireStep = none) := by
  cases called with
  | fires _ unfired =>
      rw [consistent] at unfired
      exact ⟨rfl, rfl, fun _ => by simpa using unfired⟩
  | idle | away | waiting => exact ⟨consistent, rfl, fun fires => by contradiction⟩

end PerturbationScheduler

/-- The generator that always draws the lower bound. -/
def RandomGenerator.lowest (K : Type) : RandomGenerator K Unit where
  defaultRng _ := ()
  integers _ low _ := (low, ())
  uniform _ low _ := (low, ())
  integers_mem _ _ _ nonempty := ⟨le_rfl, nonempty⟩

/-- A simulator in which nothing moves and nothing is held; its states count the steps, which its
frames show. -/
def Env.still (eef obj : Fin 3 → ℚ) : Env ℚ ℕ Unit Unit where
  np := .rational
  random := .lowest ℚ
  objQpos _ := ![obj 0, obj 1, obj 2, 1, 0, 0, 0]
  setObjQpos _ n := n
  setObjQvel _ n := n
  forward n := n
  gripSiteXpos _ := eef
  baseXmat _ := none
  checkGrasp _ := some false
  fingerJoint1 _ := 0
  fingerJoint2 _ := 0
  simRender n _ _ := List.replicate n ()
  obsImage n _ := List.replicate n ()
  step _ n := n + 1
  setPlacementRng _ n := n
  setDeterministicReset _ n := n
  reset _ := 0

end G1Jepa
