import G1Jepa.ReplanSchedule
import G1Jepa.Library.SaturatedStep
import Mathlib.Algebra.BigOperators.Fin
import Mathlib.Analysis.SpecialFunctions.Trigonometric.Basic
import Mathlib.Tactic.FinCases

/-!
# The waypoint controller on an ideal plant

In `APPROACH` and `DESCEND` the policy moves the gripper towards a waypoint over its target. On a
plant that carries out the commanded displacement each axis is a saturated proportional controller,
so the gripper gets within the threshold of both waypoints and never overshoots one.
-/

namespace G1Jepa

open SaturatedStep

variable {K E R Row : Type} [Field K] [LinearOrder K]

/-- `ACTION_SCALE`: the displacement in metres for an action of one. -/
def actionScale : K := 5 / 100

/-- The base frame is aligned with the world, the gripper moves as commanded, and the object
stays. -/
structure IdealPlant (env : Env K E R Row) : Prop where
  aligned : ∀ s, env.baseRot s = 1
  moves : ∀ action s, env.getEefPos (env.step action s) =
    env.getEefPos s + (actionScale : K) • ![action 0, action 1, action 2]
  fixed : ∀ action s, env.getObjectPos (env.step action s) = env.getObjectPos s

/-- `np.sqrt` computed exactly. -/
def Numpy.ExactSqrt (np : Numpy K) : Prop :=
  ∀ x, 0 ≤ x → np.sqrt x * np.sqrt x = x

/-- Call `act` and carry out its action, `n` times. -/
def drive (env : Env K E R Row) (policy : ScriptedPickPlace K) (s : E) :
    ℕ → Except PyError (ScriptedPickPlace K × E)
  | 0 => .ok (policy, s)
  | n + 1 => do
      let (policy, s) ← drive env policy s n
      let (action, policy) ← policy.act env s
      .ok (policy, env.step action s)

section Drive

variable {env : Env K E R Row} {policy before after : ScriptedPickPlace K} {s s' : E}

theorem drive_succ {n : ℕ} {action : Fin 7 → K} (drives : drive env policy s n = .ok (before, s'))
    (acts : before.act env s' = .ok (action, after)) :
    drive env policy s (n + 1) = .ok (after, env.step action s') := by
  rw [drive, drives, Fallible.ok_bind]
  dsimp only
  rw [acts, Fallible.ok_bind]

/-- A drive goes on from where it has got to. -/
theorem drive_add {m : ℕ} (drives : drive env policy s m = .ok (before, s')) (n : ℕ) :
    drive env policy s (m + n) = drive env before s' n := by
  induction n with
  | zero => exact drives
  | succ n induction => rw [← Nat.add_assoc, drive, induction, drive]

end Drive

namespace ScriptedPickPlace

/-- The waypoint of `APPROACH` and of `DESCEND` relative to the target. -/
def waypointOffset : PolicyState → Fin 3 → K
  | .approach => ![0, 0, hoverH]
  | _ => ![0, 0, graspDz]

/-- The distance at which `APPROACH` and `DESCEND` end. -/
def reachThresh (kwargs : PolicyKwargs K) : PolicyState → K
  | .approach => kwargs.hoverThresh
  | _ => kwargs.descendThresh

end ScriptedPickPlace

section Norm

theorem Numpy.norm_sub_comm (np : Numpy K) {ι : Type} [Fintype ι] (u v : ι → K) :
    np.norm (u - v) = np.norm (v - u) := by
  have squares : ∀ i, (u - v) i * (u - v) i = (v - u) i * (v - u) i := by
    intro i
    simp only [Pi.sub_apply]
    ring
  simp only [Numpy.norm, squares]

variable [IsStrictOrderedRing K]

/-- A vector is shorter than a bound when every coordinate is less than half of it. -/
theorem Numpy.norm_lt {np : Numpy K} (exact : np.ExactSqrt) {bound : K} (positive : 0 < bound)
    {v : Fin 3 → K} (small : ∀ i, |v i| < bound / 2) : np.norm v < bound := by
  have square : ∀ i, v i * v i < bound * bound / 4 := by
    intro i
    have half := abs_lt.mp (small i)
    nlinarith
  have squares : 0 ≤ ∑ i, v i * v i := Finset.sum_nonneg fun i _ => mul_self_nonneg (v i)
  have total : (∑ i, v i * v i) < bound * bound := by
    rw [Fin.sum_univ_three]
    have := square 0
    have := square 1
    have := square 2
    have := mul_pos positive positive
    linarith
  rw [← exact _ squares] at total
  exact lt_of_mul_self_lt_mul_self₀ positive.le total

end Norm

namespace ScriptedPickPlace

variable {env : Env K E R Row} {policy : ScriptedPickPlace K} {s : E} {target : Fin 3 → K}

/-- The policy moves towards a waypoint. -/
structure Reaching (policy : ScriptedPickPlace K) (target : Fin 3 → K) (state : PolicyState) :
    Prop where
  phase : state = .approach ∨ state = .descend
  state : policy.state = state
  planned : policy.target = some target

theorem Reaching.abortFailedLift {state : PolicyState} (reaching : policy.Reaching target state) :
    policy.abortFailedLift env s = policy := by
  rcases abortFailedLift_cases env policy s with kept | ⟨lifts, -⟩
  · exact kept
  · have := reaching.phase
    simp [reaching.state] at lifts
    grind

variable (env s) in
/-- A call of `act` commands a move to the waypoint and completes the state near it. -/
theorem Reaching.act {state : PolicyState} (reaching : policy.Reaching target state) :
    policy.act env s = .ok
      (policy.goto env s (env.getEefPos s) (target + waypointOffset state) (-1),
        { policy.countPhaseStep with
          state := if env.np.norm (env.getEefPos s - (target + waypointOffset state)) <
              reachThresh policy.toPolicyKwargs state then state.next else state }) := by
  rw [ScriptedPickPlace.act, reaching.abortFailedLift]
  obtain ⟨kwargs, state, _, counter, nReplans, replanSteps, phaseStep, prevState, liftFrom⟩ :=
    policy
  obtain ⟨phase, rfl, rfl⟩ := reaching
  by_cases near : env.np.norm (env.getEefPos s - (target + waypointOffset state)) <
      reachThresh kwargs state
  · rw [if_pos near]
    rcases phase with rfl | rfl <;> exact if_pos near
  · rw [if_neg near]
    rcases phase with rfl | rfl <;> exact if_neg near

/-- With an aligned base the command is saturated once on each axis. -/
theorem goto_apply [IsStrictOrderedRing K] (aligned : env.baseRot s = 1) (eef tgt : Fin 3 → K)
    (grip : K) : policy.goto env s eef tgt grip =
      ![saturate (policy.kp * (tgt 0 - eef 0)), saturate (policy.kp * (tgt 1 - eef 1)),
        saturate (policy.kp * (tgt 2 - eef 2)), 0, 0, 0, grip] := by
  have base : ∀ v, env.worldToBase s v = v := by
    intro v
    rw [Env.worldToBase, aligned, Matrix.transpose_one, Matrix.one_mulVec]
  have clipped : ∀ v : Fin 3 → K, ∀ i, Numpy.clip (Numpy.clip v (-1) 1) (-1) 1 i =
      saturate (v i) := fun v i => saturate_saturate (v i)
  simp only [goto, base, clipped, Pi.smul_apply, Pi.sub_apply, smul_eq_mul]

/-- No component of a command to an aligned base exceeds one. -/
theorem abs_goto_le [IsStrictOrderedRing K] (aligned : env.baseRot s = 1) (eef tgt : Fin 3 → K)
    (i : Fin 7) : |policy.goto env s eef tgt (-1) i| ≤ 1 := by
  rw [goto_apply aligned]
  have saturated := @abs_saturate_le K _ _ _
  fin_cases i <;> simp [saturated]

end ScriptedPickPlace

/-! ## One phase -/

section Phase

open ScriptedPickPlace

variable [IsStrictOrderedRing K] {env : Env K E R Row} {policy : ScriptedPickPlace K} {s : E}
  {target : Fin 3 → K} {state : PolicyState}

/-- The displacement to the waypoint of a state. -/
def waypointError (env : Env K E R Row) (target : Fin 3 → K) (state : PolicyState) (s : E) :
    Fin 3 → K :=
  target + waypointOffset state - env.getEefPos s

/-- On each axis a call leaves the error of a saturated step. -/
theorem waypointError_step (ideal : IdealPlant env) (i : Fin 3) :
    waypointError env target state (env.step
        (policy.goto env s (env.getEefPos s) (target + waypointOffset state) (-1)) s) i =
      next actionScale policy.kp (waypointError env target state s i) := by
  have moved : env.getEefPos (env.step (policy.goto env s (env.getEefPos s)
      (target + waypointOffset state) (-1)) s) i =
      env.getEefPos s i +
        actionScale * saturate (policy.kp * waypointError env target state s i) := by
    rw [ideal.moves, goto_apply (ideal.aligned s)]
    fin_cases i <;> rfl
  rw [waypointError, Pi.sub_apply, moved, next, waypointError, Pi.sub_apply]
  ring

/-- After `n` calls the policy is in a state and still holds its target, and the errors to the
waypoint have taken `n` saturated steps. -/
def DrivenTo (env : Env K E R Row) (policy : ScriptedPickPlace K) (s : E) (target : Fin 3 → K)
    (waypoint : PolicyState) (n : ℕ) (state : PolicyState) : Prop :=
  ∃ policy' s', drive env policy s n = .ok (policy', s') ∧ policy'.state = state ∧
    policy'.target = some target ∧ policy'.toPolicyKwargs = policy.toPolicyKwargs ∧
    ∀ i, waypointError env target waypoint s' i =
      (next actionScale policy.kp)^[n] (waypointError env target waypoint s i)

/-- The errors after `n` saturated steps pass the exit test of a state. -/
def Near (env : Env K E R Row) (policy : ScriptedPickPlace K) (s : E) (target : Fin 3 → K)
    (state : PolicyState) (n : ℕ) : Prop :=
  env.np.norm (fun i => (next actionScale policy.kp)^[n] (waypointError env target state s i)) <
    reachThresh policy.toPolicyKwargs state

/-- One more call. -/
theorem DrivenTo.next (ideal : IdealPlant env) {n : ℕ}
    (phase : state = .approach ∨ state = .descend)
    (driven : DrivenTo env policy s target state n state) :
    (Near env policy s target state n → DrivenTo env policy s target state (n + 1) state.next) ∧
      (¬Near env policy s target state n → DrivenTo env policy s target state (n + 1) state) := by
  obtain ⟨policy', s', drives, current, planned, kwargs, errors⟩ := driven
  have reaching : policy'.Reaching target state := ⟨phase, current, planned⟩
  have kp : policy'.kp = policy.kp := by rw [kwargs]
  have test : env.np.norm (env.getEefPos s' - (target + waypointOffset state)) <
      reachThresh policy'.toPolicyKwargs state ↔ Near env policy s target state n := by
    rw [Numpy.norm_sub_comm, kwargs, Near, ← funext errors]
    exact Iff.rfl
  have acts := reaching.act env s'
  have advances : ∀ next : PolicyState,
      (if env.np.norm (env.getEefPos s' - (target + waypointOffset state)) <
        reachThresh policy'.toPolicyKwargs state then state.next else state) = next →
      DrivenTo env policy s target state (n + 1) next := by
    intro next follows
    rw [follows] at acts
    refine ⟨_, _, drive_succ drives acts, rfl, planned, kwargs, fun i => ?_⟩
    rw [waypointError_step ideal, kp, errors, Function.iterate_succ_apply']
  exact ⟨fun near => advances _ (if_pos (test.mpr near)),
    fun far => advances _ (if_neg fun near => far (test.mp near))⟩

/-- The first `k` calls complete a state: they stay in it and then lead to the next one. -/
structure Completes (env : Env K E R Row) (policy : ScriptedPickPlace K) (s : E)
    (target : Fin 3 → K) (state : PolicyState) (k : ℕ) : Prop where
  positive : 0 < k
  stays : ∀ n < k, DrivenTo env policy s target state n state
  ends : DrivenTo env policy s target state k state.next

variable (s) in
/-- A phase ends after some calls. -/
theorem exists_completes [Archimedean K] (ideal : IdealPlant env) (exact : env.np.ExactSqrt)
    (reaching : policy.Reaching target state) (thresh : 0 < reachThresh policy.toPolicyKwargs state)
    (gain : 0 < policy.kp) (moderate : policy.kp * actionScale ≤ 1) :
    ∃ k, Completes env policy s target state k := by
  classical
  have scale : (0 : K) < actionScale := by
    rw [actionScale]
    positivity
  obtain ⟨n, small⟩ := exists_forall_abs_lt scale gain moderate (half_pos thresh)
    (waypointError env target state s)
  have ends : ∃ n, Near env policy s target state n := ⟨n, Numpy.norm_lt exact thresh small⟩
  have stays : ∀ n ≤ Nat.find ends, DrivenTo env policy s target state n state := by
    intro n bound
    induction n with
    | zero => exact ⟨policy, s, rfl, reaching.state, reaching.planned, rfl, fun _ => rfl⟩
    | succ n induction =>
        have before := induction (Nat.le_of_succ_le bound)
        exact (before.next ideal reaching.phase).2 (Nat.find_min ends bound)
  refine ⟨Nat.find ends + 1, Nat.succ_pos _, fun n bound => stays n (Nat.lt_succ_iff.mp bound), ?_⟩
  exact ((stays _ le_rfl).next ideal reaching.phase).1 (Nat.find_spec ends)

end Phase

/-! ## The way to the grasp -/

section Way

open ScriptedPickPlace

variable [IsStrictOrderedRing K] {env : Env K E R Row} {policy : ScriptedPickPlace K} {s : E}
  {target : Fin 3 → K} {state : PolicyState}

omit [IsStrictOrderedRing K] in
theorem DrivenTo.holds {waypoint : PolicyState} {n : ℕ} {after : ScriptedPickPlace K} {sim : E}
    (driven : DrivenTo env policy s target waypoint n state)
    (drives : drive env policy s n = .ok (after, sim)) :
    after.state = state ∧ after.target = some target := by
  obtain ⟨_, _, same, current, planned, -⟩ := driven
  obtain ⟨rfl, rfl⟩ := Prod.mk.inj (Except.ok.inj (drives.symm.trans same))
  exact ⟨current, planned⟩

variable {k : ℕ}

omit [IsStrictOrderedRing K] in
theorem Completes.exists_drivenTo (completes : Completes env policy s target state k) {n : ℕ}
    (bound : n ≤ k) : ∃ current, DrivenTo env policy s target state n current := by
  rcases Nat.lt_or_eq_of_le bound with inside | rfl
  · exact ⟨_, completes.stays n inside⟩
  · exact ⟨_, completes.ends⟩

omit [IsStrictOrderedRing K] in
theorem Completes.exists_drive (completes : Completes env policy s target state k) {n : ℕ}
    (bound : n ≤ k) : ∃ outcome, drive env policy s n = .ok outcome := by
  obtain ⟨_, _, _, drives, -⟩ := completes.exists_drivenTo bound
  exact ⟨_, drives⟩

omit [IsStrictOrderedRing K] in
/-- Before its end the policy moves towards the waypoint of the phase. -/
theorem Completes.reaching (completes : Completes env policy s target state k)
    (phase : state = .approach ∨ state = .descend) {n : ℕ} (inside : n < k)
    {after : ScriptedPickPlace K} {sim : E} (drives : drive env policy s n = .ok (after, sim)) :
    after.Reaching target state :=
  have held := (completes.stays n inside).holds drives
  ⟨phase, held.1, held.2⟩

/-- Between two calls of a phase the error keeps its sign and does not grow on any axis. -/
theorem Completes.towards (completes : Completes env policy s target state k)
    (gain : 0 < policy.kp) (moderate : policy.kp * actionScale ≤ 1) {m n : ℕ} (ordered : m ≤ n)
    (bound : n ≤ k) {policyM policyN : ScriptedPickPlace K} {simM simN : E}
    (drivesM : drive env policy s m = .ok (policyM, simM))
    (drivesN : drive env policy s n = .ok (policyN, simN)) (i : Fin 3) :
    0 ≤ waypointError env target state simM i * waypointError env target state simN i ∧
      |waypointError env target state simN i| ≤ |waypointError env target state simM i| := by
  have scale : (0 : K) < actionScale := by
    rw [actionScale]
    positivity
  obtain ⟨_, _, _, sameM, -, -, -, errorsM⟩ := completes.exists_drivenTo (ordered.trans bound)
  obtain ⟨_, _, _, sameN, -, -, -, errorsN⟩ := completes.exists_drivenTo bound
  obtain ⟨rfl, rfl⟩ := Prod.mk.inj (Except.ok.inj (drivesM.symm.trans sameM))
  obtain ⟨rfl, rfl⟩ := Prod.mk.inj (Except.ok.inj (drivesN.symm.trans sameN))
  rw [errorsM i, errorsN i]
  have towards := towards_iterate scale gain moderate
    (waypointError env target state s i) ordered
  exact ⟨towards.sign, towards.abs_le⟩

/-- On an ideal plant the policy approaches, descends and then grasps, and in the two phases the
error to the waypoint keeps its sign and never grows on any axis, and no command exceeds one. -/
theorem reaches_grasp_without_overshoot [Archimedean K] (ideal : IdealPlant env)
    (exact : env.np.ExactSqrt) (kwargs : PolicyKwargs K) (gain : 0 < kwargs.kp * actionScale)
    (moderate : kwargs.kp * actionScale ≤ 1) (hover : 0 < kwargs.hoverThresh)
    (descend : 0 < kwargs.descendThresh) (s : E) :
    ∃ (a d : ℕ) (policies : ℕ → ScriptedPickPlace K) (sims : ℕ → E), 0 < a ∧ a < d ∧
      (∀ n ≤ d, drive env ((init kwargs).replan env s none false) s n =
        .ok (policies n, sims n)) ∧
      (∀ n < a, (policies n).state = .approach) ∧
      (∀ n, a ≤ n → n < d → (policies n).state = .descend) ∧
      (policies d).state = .grasp ∧
      (∀ n < d, ∃ action, (policies n).act env (sims n) = .ok (action, policies (n + 1)) ∧
        ∀ i, -1 ≤ action i ∧ action i ≤ 1) ∧
      (∀ m n, m ≤ n → n ≤ a → ∀ i,
        let error := waypointError env (env.getObjectPos s) .approach
        0 ≤ error (sims m) i * error (sims n) i ∧ |error (sims n) i| ≤ |error (sims m) i|) ∧
      ∀ m n, a ≤ m → m ≤ n → n ≤ d → ∀ i,
        let error := waypointError env (env.getObjectPos s) .descend
        0 ≤ error (sims m) i * error (sims n) i ∧ |error (sims n) i| ≤ |error (sims m) i| := by
  have scale : (0 : K) < actionScale := by
    rw [actionScale]
    positivity
  have kp : 0 < kwargs.kp := (mul_pos_iff_of_pos_right scale).mp gain
  have planned := ((init kwargs).replanned env s none false).toPolicyKwargs
  have kept := replan_target env (init kwargs) s none false
  have starts := (init_replan_approach env kwargs s none false).1
  generalize (init kwargs).replan env s none false = start at planned kept starts ⊢
  obtain rfl : start.toPolicyKwargs = kwargs := planned
  have approaching : start.Reaching (env.getObjectPos s) .approach := ⟨.inl rfl, starts, kept⟩
  obtain ⟨a, approaches⟩ := exists_completes s ideal exact approaching hover kp moderate
  obtain ⟨mid, midSim, drivesMid, midState, midTarget, midKwargs, -⟩ := approaches.ends
  have descending : mid.Reaching (env.getObjectPos s) .descend := ⟨.inr rfl, midState, midTarget⟩
  have kpMid : mid.kp = start.kp := by rw [midKwargs]
  obtain ⟨k, descends⟩ :=
    exists_completes midSim ideal exact descending (by rw [midKwargs]; exact descend)
      (by rwa [kpMid]) (by rwa [kpMid])
  have a_pos := approaches.positive
  have k_pos := descends.positive
  have drives : ∀ n, ∃ outcome : ScriptedPickPlace K × E, n ≤ a + k →
      drive env start s n = .ok outcome := by
    intro n
    by_cases inside : n ≤ a + k
    · rcases Nat.le_total n a with before | after
      · obtain ⟨outcome, ran⟩ := approaches.exists_drive before
        exact ⟨outcome, fun _ => ran⟩
      · obtain ⟨j, rfl⟩ := Nat.exists_eq_add_of_le after
        obtain ⟨outcome, ran⟩ := descends.exists_drive (Nat.le_of_add_le_add_left inside)
        exact ⟨outcome, fun _ => (drive_add drivesMid j).trans ran⟩
    · exact ⟨(start, s), fun bound => absurd bound inside⟩
  choose outcome drives using drives
  have drivesOn : ∀ j ≤ k, drive env mid midSim j = .ok (outcome (a + j)) := by
    intro j bound
    exact (drive_add drivesMid j).symm.trans (drives _ (Nat.add_le_add_left bound a))
  have reaching : ∀ n < a + k, ∃ state, (outcome n).1.Reaching (env.getObjectPos s) state ∧
      state = if n < a then .approach else .descend := by
    intro n bound
    rcases Nat.lt_or_ge n a with before | after
    · exact ⟨_, approaches.reaching (.inl rfl) before (drives n bound.le), (if_pos before).symm⟩
    · obtain ⟨j, rfl⟩ := Nat.exists_eq_add_of_le after
      have inside := Nat.lt_of_add_lt_add_left bound
      exact ⟨_, descends.reaching (.inr rfl) inside (drivesOn j inside.le),
        (if_neg (by omega)).symm⟩
  refine ⟨a, a + k, fun n => (outcome n).1, fun n => (outcome n).2, a_pos, by omega, drives, ?_, ?_,
    ?_, ?_, ?_, ?_⟩
  · intro n bound
    obtain ⟨state, held, phase⟩ := reaching n (by omega)
    exact held.state.trans (phase.trans (if_pos bound))
  · intro n lower upper
    obtain ⟨state, held, phase⟩ := reaching n upper
    exact held.state.trans (phase.trans (if_neg (by omega)))
  · exact (descends.ends.holds (drivesOn k le_rfl)).1
  · intro n bound
    obtain ⟨state, held, -⟩ := reaching n bound
    have acts := held.act env (outcome n).2
    have follows := (drives (n + 1) bound).symm.trans (drive_succ (drives n bound.le) acts)
    dsimp only
    rw [Except.ok.inj follows]
    exact ⟨_, acts, fun i => abs_le.mp (abs_goto_le (ideal.aligned _) _ _ i)⟩
  · intro m n ordered bound i
    exact approaches.towards kp moderate ordered bound (drives m (by omega)) (drives n (by omega)) i
  · intro m n lower ordered upper i
    obtain ⟨u, rfl⟩ := Nat.exists_eq_add_of_le lower
    obtain ⟨v, rfl⟩ := Nat.exists_eq_add_of_le (lower.trans ordered)
    exact descends.towards (by rwa [kpMid]) (by rwa [kpMid]) (by omega) (by omega)
      (drivesOn u (by omega)) (drivesOn v (by omega)) i

end Way

/-- The array routines on real numbers. -/
noncomputable def Numpy.real : Numpy ℝ where
  sqrt := Real.sqrt
  sqrt_nonneg := Real.sqrt_nonneg
  sqrt_eq_zero _ := Real.sqrt_eq_zero
  cos := Real.cos
  sin := Real.sin
  pi := Real.pi

/-- A simulator whose state is the gripper position, with the object at the origin. -/
noncomputable def commandedEnv : Env ℝ (Fin 3 → ℝ) Unit Unit where
  np := .real
  random := .lowest ℝ
  objQpos _ := ![0, 0, 0, 1, 0, 0, 0]
  setObjQpos _ eef := eef
  setObjQvel _ eef := eef
  forward eef := eef
  gripSiteXpos eef := eef
  baseXmat _ := none
  checkGrasp _ := some false
  fingerJoint1 _ := 0
  fingerJoint2 _ := 0
  simRender _ _ _ := []
  obsImage _ _ := []
  step action eef := eef + (actionScale : ℝ) • ![action 0, action 1, action 2]
  setPlacementRng _ eef := eef
  setDeterministicReset _ eef := eef
  reset eef := eef

/-- With the default arguments the gripper gets from a corner of the workspace to the grasp. -/
theorem reaches_grasp_without_overshoot_commanded : ∃ d policy eef,
    drive commandedEnv ((ScriptedPickPlace.init {}).replan commandedEnv ![1, -1, 1] none false)
        ![1, -1, 1] d = .ok (policy, eef) ∧
      policy.state = .grasp := by
  have scaled : ({} : PolicyKwargs ℝ).kp * actionScale = 1 / 2 := by
    norm_num [actionScale]
  have ideal : IdealPlant commandedEnv := ⟨fun _ => rfl, fun _ _ => rfl, fun _ _ => rfl⟩
  obtain ⟨-, d, policies, sims, -, -, drives, -, -, grasps, -⟩ :=
    reaches_grasp_without_overshoot ideal (fun _ nonneg => Real.mul_self_sqrt nonneg) {}
      (by rw [scaled]; norm_num) (by rw [scaled]; norm_num) (by norm_num) (by norm_num) ![1, -1, 1]
  exact ⟨d, policies d, sims d, drives d le_rfl, grasps⟩

/-! ## The loop of `run_episode` -/

section Loop

variable {env : Env K E R Row} {σ : Type} {setting : ReplanSetting K E σ} {args : EpisodeArgs K}
  {s : E} {t : ℕ}

/-- An unperturbed run without replans drives the policy that the reset has planned. -/
theorem drive_of_runLoop (idle : setting.condition = .noReplan) (calm : args.perturb = false)
    {run : RunState K E R Row σ} (running : runLoop env setting args s t = .ok (run, false)) :
    run.episode.sched.enabled = false ∧
      drive env ((ScriptedPickPlace.init args.policyKwargs).replan env (seededReset env args.seed s)
        none false) (seededReset env args.seed s) t =
          .ok (run.episode.policy, run.episode.sim) := by
  refine @ForRange.loop_invariant _ _ _ _ (fun t (run : RunState K E R Row σ) =>
    run.episode.sched.enabled = false ∧ drive env _ _ t = .ok (run.episode.policy, run.episode.sim))
    ?_ ?_ t run running
  · exact ⟨calm, rfl⟩
  · rintro t before after left running ⟨disabled, drives⟩ ran
    obtain ⟨doReplan, decided, advances⟩ := runStep_eq_ok ran
    have stays : doReplan = false := by
      have decision : decisionStage env setting t before = .ok (false, before.trigger) :=
        decideReplan_of_noReplan idle ..
      exact (Prod.mk.inj (Except.ok.inj (decided.symm.trans decision))).1
    have quiet : before.episode.sched.maybeFire env before.episode.sim t
        before.episode.policy.state = (false, before.episode.sim, before.episode.sched) := by
      rw [PerturbationScheduler.maybeFire, disabled]
      rfl
    have advanced := advanced_of_advanceStage advances
    obtain ⟨action, acts, moves, -⟩ := advanced.acted
    have kept : (perturbStage env t before.episode).2.2 = before.episode := by
      rw [perturbStage, quiet]
    rw [kept] at acts moves
    rw [stays] at acts
    refine ⟨?_, ?_⟩
    · rw [advanced.sched, kept]
      exact disabled
    · rw [moves]
      exact drive_succ drives acts

end Loop

end G1Jepa
