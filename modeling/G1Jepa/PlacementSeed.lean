import G1Jepa.CollectData
import G1Jepa.EpisodeHistory
import G1Jepa.PolicyTrace

/-!
# The generator of the placement sampler

`reset` draws the placement of the object from a generator that the simulator keeps from one
episode to the next. `run_episode` replaces it by a seeded one before each reset. `collect_episode`
does not, so its record depends on the number of episodes collected before it.
-/

namespace G1Jepa

variable {K E P A R Row : Type} [Field K] [LinearOrder K]

/-! ## A simulator with a placement sampler -/

section Sampler

variable (physics : Env K P R Row) (place : A → P) (draw : R → A × R)

/-- A simulator that keeps the generator of its placement sampler beside the physical state, which
is all that the other methods read and change; `place` is the rest of `reset`. -/
def Env.withSampler : Env K (P × R) R Row where
  np := physics.np
  random := physics.random
  objQpos s := physics.objQpos s.1
  setObjQpos q s := (physics.setObjQpos q s.1, s.2)
  setObjQvel v s := (physics.setObjQvel v s.1, s.2)
  forward s := (physics.forward s.1, s.2)
  gripSiteXpos s := physics.gripSiteXpos s.1
  baseXmat s := physics.baseXmat s.1
  checkGrasp s := physics.checkGrasp s.1
  fingerJoint1 s := physics.fingerJoint1 s.1
  fingerJoint2 s := physics.fingerJoint2 s.1
  simRender s := physics.simRender s.1
  obsImage s := physics.obsImage s.1
  step action s := (physics.step action s.1, s.2)
  setPlacementRng rng s := (s.1, rng)
  setDeterministicReset flag s := (physics.setDeterministicReset flag s.1, s.2)
  reset s := (place (draw s.2).1, (draw s.2).2)

/-- The state of the loop with another generator. -/
def CollectState.setRng (rng : R) (s : CollectState K (P × R) R Row) :
    CollectState K (P × R) R Row :=
  { s with sim := (s.sim.1, rng) }

theorem maybeFire_setRng (sched : PerturbationScheduler K R) (s : P × R) (rng : R) (t : ℕ)
    (policyState : PolicyState) :
    sched.maybeFire (physics.withSampler place draw) (s.1, rng) t policyState =
      let called := sched.maybeFire (physics.withSampler place draw) s t policyState
      (called.1, (called.2.1.1, rng), called.2.2) := by
  simp only [PerturbationScheduler.maybeFire]
  split
  case isTrue => rfl
  case isFalse =>
    split
    case isTrue => rfl
    case isFalse =>
      split
      case isTrue => rfl
      case isFalse => rfl

theorem act_setRng (policy : ScriptedPickPlace K) (s : P × R) (rng : R) :
    policy.act (physics.withSampler place draw) (s.1, rng) =
      policy.act (physics.withSampler place draw) s := by
  rfl

theorem collectStep_setRng (args : CollectArgs K) (objInitZ : K) (rng : R) (t : ℕ)
    (s : CollectState K (P × R) R Row) :
    collectStep (physics.withSampler place draw) args objInitZ t (s.setRng rng) =
      (collectStep (physics.withSampler place draw) args objInitZ t s).map
        (Prod.map (CollectState.setRng rng) id) := by
  have called := maybeFire_setRng physics place draw s.sched s.sim rng t s.policy.state
  rw [collectStep, collectStep, CollectState.setRng]
  dsimp only
  rw [called]
  dsimp only
  rw [act_setRng]
  cases s.policy.act (physics.withSampler place draw)
      (s.sched.maybeFire (physics.withSampler place draw) s.sim t s.policy.state).2.1 with
  | error failure => rfl
  | ok acted => rfl

theorem collectStart_eq (args : CollectArgs K) {s s' : P × R}
    (same : (draw s.2).1 = (draw s'.2).1) :
    collectStart (physics.withSampler place draw) args s' =
      (collectStart (physics.withSampler place draw) args s).setRng (draw s'.2).2 := by
  have reset : (physics.withSampler place draw).reset s' =
      (((physics.withSampler place draw).reset s).1, (draw s'.2).2) :=
    congrArg (fun placement => (place placement, (draw s'.2).2)) same.symm
  rw [collectStart, reset]
  rfl

theorem collectLoop_eq (args : CollectArgs K) {s s' : P × R} (same : (draw s.2).1 = (draw s'.2).1)
    (n : ℕ) :
    collectLoop (physics.withSampler place draw) args s' n =
      (collectLoop (physics.withSampler place draw) args s n).map
        (Prod.map (CollectState.setRng (draw s'.2).2) id) := by
  rw [collectLoop, collectLoop, collectStart_eq physics place draw args same]
  exact ForRange.loop_map _ (collectStep_setRng physics place draw args _ _) _ n

/-- Two episodes for which the sampler draws the same placement return the same. -/
theorem collectEpisode_eq (args : CollectArgs K) {s s' : P × R}
    (same : (draw s.2).1 = (draw s'.2).1) :
    collectEpisode (physics.withSampler place draw) args s' =
      (collectEpisode (physics.withSampler place draw) args s).map
        fun result => (result.1, result.2.1, (result.2.2.1, (draw s'.2).2)) := by
  rw [collectEpisode, collectEpisode, collectLoop_eq physics place draw args same]
  cases collectLoop (physics.withSampler place draw) args s args.maxSteps with
  | error failure => rfl
  | ok final => rfl

theorem rng_of_collectEpisode {args : CollectArgs K} {s after : P × R}
    {record : EpisodeRecord K} {frames : Camera → List (List Row)}
    (collected : collectEpisode (physics.withSampler place draw) args s =
      .ok (record, frames, after)) : after.2 = (draw s.2).2 := by
  have again := collectEpisode_eq physics place draw args (rfl : (draw s.2).1 = (draw s.2).1)
  rw [collected] at again
  obtain ⟨-, sims⟩ := Prod.mk.inj (Except.ok.inj again)
  exact congrArg Prod.snd (Prod.mk.inj sims).2

end Sampler

/-! ## Earlier episodes -/

section History

variable (env : Env K E R Row)

theorem exists_collectStep (args : CollectArgs K) (objInitZ : K) (t : ℕ)
    (before : CollectState K E R Row)
    (dwelling : ∃ calls, Dwelling args.policyKwargs before.policy calls) :
    ∃ after left, collectStep env args objInitZ t before = .ok (after, left) ∧
      ∃ calls, Dwelling args.policyKwargs after.policy calls := by
  obtain ⟨calls, dwelling⟩ := dwelling
  obtain ⟨new, policy, performed⟩ := dwelling.exists_perform env
    (.act (before.sched.maybeFire env before.sim t before.policy.state).2.1)
  have kept := dwelling.perform performed
  obtain ⟨⟨call, next⟩, called, returned⟩ := Fallible.bind_eq_ok.mp performed
  obtain ⟨-, rfl⟩ := Prod.mk.inj (Except.ok.inj returned)
  obtain ⟨⟨action, acted⟩, acts, recorded⟩ := Fallible.bind_eq_ok.mp called
  obtain ⟨-, rfl⟩ := Prod.mk.inj (Except.ok.inj recorded)
  refine ⟨_, _, Fallible.bind_eq_ok.mpr ⟨_, acts, rfl⟩, ?_⟩
  exact ⟨_, kept⟩

theorem exists_collectEpisode (args : CollectArgs K) (s : E) :
    ∃ result, collectEpisode env args s = .ok result := by
  obtain ⟨state, left, reached, -⟩ := @ForRange.exists_loop _ _
    (collectStep env args (env.getObjectPos (collectStart env args s).sim 2))
    (collectStart env args s) (fun state => ∃ calls, Dwelling args.policyKwargs state.policy calls)
    ⟨[], dwelling_init (env.reset s) none false⟩ (exists_collectStep env args _) args.maxSteps
  exact ⟨_, Fallible.bind_eq_ok.mpr ⟨_, reached, rfl⟩⟩

/-- The state of the environment after some episodes. -/
def collectHistory : List (CollectArgs K) → E → Except PyError E
  | [], s => .ok s
  | args :: history, s => do
      let (_, _, s) ← collectEpisode env args s
      collectHistory history s

/-- The record and the frames of an episode collected after some others. -/
def collectAfter (history : List (CollectArgs K)) (args : CollectArgs K) (s : E) :
    Except PyError (EpisodeRecord K × (Camera → List (List Row))) := do
  let s ← collectHistory env history s
  let (record, frames, _) ← collectEpisode env args s
  .ok (record, frames)

variable {env} in
theorem maybeFire_zero (args : CollectArgs K) (s : E) :
    ((collectStart env args s).sched.maybeFire env (collectStart env args s).sim 0
      (collectStart env args s).policy.state).1 = false := by
  have called := PerturbationScheduler.called_maybeFire env (collectStart env args s).sched
    (collectStart env args s).sim 0 (collectStart env args s).policy.state
  generalize (collectStart env args s).sched.maybeFire env (collectStart env args s).sim 0
    (collectStart env args s).policy.state = outcome at called ⊢
  obtain ⟨fired, sim, sched⟩ := outcome
  cases called with
  | idle | away | waiting => rfl
  | fires _ _ _ _ late =>
      have late : (10 : ℤ) ≤ (0 : ℕ) := late
      contradiction

variable {env} in
theorem obj_head_of_collectEpisode {args : CollectArgs K} {s after : E} {record : EpisodeRecord K}
    {frames : Camera → List (List Row)} (positive : 1 ≤ args.maxSteps)
    (collected : collectEpisode env args s = .ok (record, frames, after)) :
    record.obj[0]? = some (env.getObjectPos (env.reset s)) := by
  obtain ⟨⟨state, left⟩, looped, returned⟩ := Fallible.bind_eq_ok.mp collected
  obtain ⟨rfl, -⟩ := Prod.mk.inj (Except.ok.inj returned)
  have appends : ∀ objInitZ t (before after : CollectState K E R Row) left,
      collectStep env args objInitZ t before = .ok (after, left) →
      after.obj = before.obj ++
        [if (before.sched.maybeFire env before.sim t before.policy.state).1 then
          env.getObjectPos (before.sched.maybeFire env before.sim t before.policy.state).2.1
        else env.getObjectPos before.sim] := by
    intro objInitZ t before after left ran
    obtain ⟨⟨action, policy⟩, -, returned⟩ := Fallible.bind_eq_ok.mp ran
    obtain ⟨rfl, -⟩ := Prod.mk.inj (Except.ok.inj returned)
    rfl
  have first := ForRange.getElem?_log rfl (appends _) looped positive rfl
  rwa [maybeFire_zero args s] at first

end History

section Seed

variable (physics : Env K P R Row) (place : A → P) (draw : R → A × R)

/-- The placement that the sampler draws after `n` others. -/
def placementAfter (n : ℕ) (rng : R) : A :=
  (draw ((fun rng => (draw rng).2)^[n] rng)).1

/-- The generator before an episode depends on the number of earlier episodes only. -/
theorem exists_collectHistory (history : List (CollectArgs K)) (s : P × R) :
    ∃ after, collectHistory (physics.withSampler place draw) history s = .ok after ∧
      after.2 = (fun rng => (draw rng).2)^[history.length] s.2 := by
  induction history generalizing s with
  | nil => exact ⟨s, rfl, rfl⟩
  | cons args history induction =>
      obtain ⟨⟨record, frames, between⟩, collected⟩ :=
        exists_collectEpisode (physics.withSampler place draw) args s
      obtain ⟨after, followed, drawn⟩ := induction between
      refine ⟨after, Fallible.bind_eq_ok.mpr ⟨_, collected, followed⟩, ?_⟩
      rw [drawn, rng_of_collectEpisode physics place draw collected]
      rfl

theorem exists_collectAfter (history : List (CollectArgs K)) (args : CollectArgs K) (s : P × R) :
    ∃ record frames before after,
      collectAfter (physics.withSampler place draw) history args s = .ok (record, frames) ∧
      collectEpisode (physics.withSampler place draw) args before = .ok (record, frames, after) ∧
      (draw before.2).1 = placementAfter draw history.length s.2 := by
  obtain ⟨before, reached, drawn⟩ := exists_collectHistory physics place draw history s
  obtain ⟨⟨record, frames, after⟩, collected⟩ :=
    exists_collectEpisode (physics.withSampler place draw) args before
  refine ⟨record, frames, before, after, ?_, collected, by rw [drawn, placementAfter]⟩
  rw [collectAfter, reached, Fallible.ok_bind, collected, Fallible.ok_bind]

/-- An episode has the same record and frames after any two histories for which the sampler draws
the same placement, and equal records show equal positions of the drawn placements. -/
theorem collectAfter_reproducible (args : CollectArgs K) (history history' : List (CollectArgs K))
    (s s' : P × R) :
    ∃ result result',
      collectAfter (physics.withSampler place draw) history args s = .ok result ∧
      collectAfter (physics.withSampler place draw) history' args s' = .ok result' ∧
      (placementAfter draw history.length s.2 = placementAfter draw history'.length s'.2 →
        result = result') ∧
      (1 ≤ args.maxSteps → result.1 = result'.1 →
        physics.getObjectPos (place (placementAfter draw history.length s.2)) =
          physics.getObjectPos (place (placementAfter draw history'.length s'.2))) := by
  obtain ⟨record, frames, before, after, ran, collected, drawn⟩ :=
    exists_collectAfter physics place draw history args s
  obtain ⟨record', frames', before', after', ran', collected', drawn'⟩ :=
    exists_collectAfter physics place draw history' args s'
  refine ⟨_, _, ran, ran', ?_, ?_⟩
  · intro same
    rw [← drawn, ← drawn'] at same
    rw [collectEpisode_eq physics place draw args same, collected] at collected'
    obtain ⟨records, rest⟩ := Prod.mk.inj (Except.ok.inj collected')
    exact Prod.ext records (Prod.mk.inj rest).1
  · intro positive records
    have shown := obj_head_of_collectEpisode positive collected
    have shown' := obj_head_of_collectEpisode positive collected'
    dsimp only at records
    rw [records, shown'] at shown
    rw [← drawn, ← drawn']
    exact (Option.some.inj shown).symm

end Seed

/-! ## A sampler that counts -/

/-- The generator whose states count its draws. -/
def RandomGenerator.counting : RandomGenerator ℚ ℕ where
  defaultRng seed := seed
  integers rng low _ := (low, rng + 1)
  uniform rng low _ := (low, rng + 1)
  integers_mem _ _ _ nonempty := ⟨le_rfl, nonempty⟩

/-- A simulator in which nothing moves and the object lies the given number of centimetres away. -/
def lyingEnv : Env ℚ ℕ ℕ Unit where
  np := .rational
  random := .counting
  objQpos n := ![n / 100, 0, 0, 1, 0, 0, 0]
  setObjQpos _ n := n
  setObjQvel _ n := n
  forward n := n
  gripSiteXpos _ := 0
  baseXmat _ := none
  checkGrasp _ := some false
  fingerJoint1 _ := 0
  fingerJoint2 _ := 0
  simRender _ _ _ := []
  obsImage _ _ := []
  step _ n := n
  setPlacementRng _ n := n
  setDeterministicReset _ n := n
  reset n := n

/-- The object lies one centimetre further away in each episode. -/
def shiftingEnv : Env ℚ (ℕ × ℕ) ℕ Unit :=
  lyingEnv.withSampler id fun n => (n, n + 1)

theorem obj_head_shifting (history : List (CollectArgs ℚ)) {args : CollectArgs ℚ}
    (positive : 1 ≤ args.maxSteps) :
    ∃ result, collectAfter shiftingEnv history args (0, 0) = .ok result ∧
      result.1.obj[0]? = some (lyingEnv.getObjectPos history.length) := by
  obtain ⟨record, frames, before, after, ran, collected, drawn⟩ :=
    exists_collectAfter lyingEnv id (fun n => (n, n + 1)) history args (0, 0)
  have count : before.2 = history.length := by
    simpa [placementAfter] using drawn
  refine ⟨_, ran, (obj_head_of_collectEpisode positive collected).trans ?_⟩
  rw [← count]
  rfl

/-- The same call returns another record after one earlier episode than in a new environment. -/
theorem collectAfter_depends_on_history :
    ∃ first second,
      collectAfter shiftingEnv [] { seed := 0, perturb := false } (0, 0) = .ok first ∧
      collectAfter shiftingEnv [{ seed := 0, perturb := false }] { seed := 0, perturb := false }
        (0, 0) = .ok second ∧
      first.1.obj[0]? = some (lyingEnv.getObjectPos 0) ∧
      second.1.obj[0]? = some (lyingEnv.getObjectPos 1) ∧ first.1 ≠ second.1 := by
  have positive : 1 ≤ ({ seed := 0, perturb := false } : CollectArgs ℚ).maxSteps := by decide
  obtain ⟨first, ran, shown⟩ := obj_head_shifting [] positive
  obtain ⟨second, ran', shown'⟩ := obj_head_shifting [{ seed := 0, perturb := false }] positive
  refine ⟨first, second, ran, ran', shown, shown', ?_⟩
  intro same
  rw [same, shown'] at shown
  have moved : lyingEnv.getObjectPos 1 ≠ lyingEnv.getObjectPos 0 := by decide +kernel
  exact moved (Option.some.inj shown)

end G1Jepa
