import G1Jepa.JepaTrigger

/-!
# Running an episode under a replanning condition

The loop of `run_episode.py`. The four conditions differ only in the decision to replan, and the
trigger of the `jepa` condition is any object with the interface `Trigger`; `jepaTrigger` is the
one of `jepa_trigger.py`.
-/

namespace G1Jepa

/-- The condition argument; every other string is rejected. -/
inductive Condition
  | noReplan
  | fixed
  | oracle
  | jepa
  | other (name : String)
  deriving DecidableEq, Repr

/-- A trigger object with states `σ`. -/
structure Trigger (K E σ : Type) [Field K] where
  reset : σ → σ
  call : σ → ℕ → E → ScriptedPickPlace K → Except PyError (Bool × σ)
  zLog : σ → List (ℕ × NanOr K)
  dbgLog : σ → List (DbgRow K)

/-- The arguments that decide when to replan. -/
structure ReplanSetting (K E σ : Type) [Field K] where
  condition : Condition
  fixedPeriod : ℤ := 20
  observeOnly : Bool := false
  trigger : Trigger K E σ
  /-- The trigger object at the call, or `none` when no trigger is passed. -/
  triggerState : Option σ

/-- The other arguments. -/
structure EpisodeArgs (K : Type) [Field K] where
  seed : ℕ := 0
  perturb : Bool := true
  maxSteps : ℕ := 300
  collectImages : Bool := false
  policyKwargs : PolicyKwargs K := {}

/-- The lists under the keys of `log`. -/
structure RunLog (K : Type) where
  eef : List (Fin 3 → K) := []
  obj : List (Fin 3 → K) := []
  state : List PolicyState := []
  action : List (Fin 7 → K) := []
  replan : List Bool := []

/-- The variables of the loop other than the trigger. -/
structure EpisodeState (K E R Row : Type) [Field K] where
  sim : E
  policy : ScriptedPickPlace K
  sched : PerturbationScheduler K R
  objInitZ : K
  frames : Option (Camera → List (List Row))
  log : RunLog K
  triggerStep : Option ℕ
  success : Bool
  t : ℕ

/-- The variables of the loop. -/
structure RunState (K E R Row σ : Type) [Field K] where
  episode : EpisodeState K E R Row
  trigger : Option σ

/-- The returned record. -/
structure RunResult (K : Type) (Row : Type) where
  condition : Condition
  seed : ℕ
  success : Bool
  steps : ℕ
  perturbed : Bool
  perturbStep : Option ℕ
  perturbDelta : Option (Fin 2 → K)
  triggerStep : Option ℕ
  triggerLatency : Option ℤ
  nReplans : ℕ
  replanSteps : List ℕ
  finalState : PolicyState
  zLog : Option (List (ℕ × NanOr K))
  dbgLog : Option (List (DbgRow K))
  log : RunLog K
  frames : Option (Camera → List (List Row))
  perturbDelay : ℤ

variable {K E R Row σ : Type} [Field K] [LinearOrder K] (env : Env K E R Row)

/-- Reset the simulator with a placement sampler seeded for this episode. -/
def seededReset (seed : ℕ) (s : E) : E :=
  env.reset (env.setDeterministicReset false
    (env.setPlacementRng (env.random.defaultRng seed) s))

/-- The statements before the loop, the trigger aside. -/
def episodeStart (args : EpisodeArgs K) (s : E) : EpisodeState K E R Row :=
  let sim := seededReset env args.seed s
  let policy := (ScriptedPickPlace.init args.policyKwargs).replan env sim none false
  { sim, policy, sched := .init env {} args.perturb (env.random.defaultRng args.seed)
    objInitZ := env.getObjectPos sim 2
    frames := if args.collectImages then some fun _ => [] else none
    log := {}, triggerStep := none, success := false, t := 0 }

def runStart (setting : ReplanSetting K E σ) (args : EpisodeArgs K) (s : E) :
    RunState K E R Row σ where
  episode := episodeStart env args s
  trigger := setting.triggerState.map setting.trigger.reset

/-- The first part of the body: whether the perturbation fires, the logged object position and
the episode after the call of the scheduler. -/
def perturbStage (t : ℕ) (s : EpisodeState K E R Row) :
    Bool × (Fin 3 → K) × EpisodeState K E R Row :=
  let obj := env.getObjectPos s.sim
  let (fired, sim, sched) := s.sched.maybeFire env s.sim t s.policy.state
  let obj := if fired then env.getObjectPos sim else obj
  (fired, obj, { s with sim, sched })

/-- The second part of the body: `do_replan` and the trigger after its call. -/
def decideReplan (setting : ReplanSetting K E σ) (trigger : Option σ) (t : ℕ) (fired : Bool)
    (sim : E) (policy : ScriptedPickPlace K) : Except PyError (Bool × Option σ) :=
  match setting.condition with
  | .noReplan => .ok (false, trigger)
  | .fixed =>
      if t = 0 then .ok (false, trigger)
      else if setting.fixedPeriod = 0 then .error .zeroDivisionError
      else .ok (decide ((t : ℤ) % setting.fixedPeriod = 0), trigger)
  | .oracle => .ok (fired, trigger)
  | .jepa =>
      match trigger with
      | none => .ok (false, trigger)
      | some st => do
          let (requested, st) ← setting.trigger.call st t sim policy
          .ok (if setting.observeOnly then false else requested, some st)
  | .other name => .error (.valueError name)

/-- The rest of the body: replan when told to, act, and log; the flag is the final `break`. -/
def actStage (t : ℕ) (eef obj : Fin 3 → K) (doReplan : Bool) (s : EpisodeState K E R Row) :
    Except PyError (EpisodeState K E R Row × Bool) := do
  let planned := if doReplan then s.policy.replan env s.sim (some t) true else s.policy
  let triggerStep :=
    if doReplan && s.triggerStep.isNone && s.sched.fired then some t else s.triggerStep
  let stateBefore := planned.state
  let (action, policy) ← planned.act env s.sim
  let sim := env.step action s.sim
  let lifted := decide (s.objInitZ + 4 / 100 < env.getObjectPos sim 2)
  .ok
    ({ sim, policy, sched := s.sched, objInitZ := s.objInitZ
       frames := s.frames.map fun frames camera =>
         frames camera ++ [(env.obsImage sim (camera.simName ++ "_image")).reverse]
       log :=
         { eef := s.log.eef ++ [eef]
           obj := s.log.obj ++ [obj]
           state := s.log.state ++ [stateBefore]
           action := s.log.action ++ [action]
           replan := s.log.replan ++ [doReplan] }
       triggerStep
       success := lifted || s.success
       t }, lifted)

/-- The decision in the iteration for step `t` from its first state. -/
def decisionStage (setting : ReplanSetting K E σ) (t : ℕ) (s : RunState K E R Row σ) :
    Except PyError (Bool × Option σ) :=
  let (fired, _, perturbed) := perturbStage env t s.episode
  decideReplan setting s.trigger t fired perturbed.sim perturbed.policy

/-- The part of the iteration for step `t` that the decision determines. -/
def advanceStage (t : ℕ) (s : EpisodeState K E R Row) (doReplan : Bool) :
    Except PyError (EpisodeState K E R Row × Bool) :=
  let eef := env.getEefPos s.sim
  let (_, obj, perturbed) := perturbStage env t s
  actStage env t eef obj doReplan perturbed

/-- The body of the loop. -/
def runStep (setting : ReplanSetting K E σ) (t : ℕ) (s : RunState K E R Row σ) :
    Except PyError (RunState K E R Row σ × Bool) := do
  let (doReplan, trigger) ← decisionStage env setting t s
  let (episode, left) ← advanceStage env t s.episode doReplan
  .ok ({ episode, trigger }, left)

/-- The state of the loop at the start of step `t`, or after the break that ended it earlier. -/
def runLoop (setting : ReplanSetting K E σ) (args : EpisodeArgs K) (s : E) (t : ℕ) :
    Except PyError (RunState K E R Row σ × Bool) :=
  ForRange.loop (runStep env setting) (runStart env setting args s) t

/-- The decision of step `t` of an episode, when the episode gets that far. -/
def decisionAt (setting : ReplanSetting K E σ) (args : EpisodeArgs K) (s : E) (t : ℕ) :
    Option Bool :=
  match runLoop env setting args s t with
  | .ok (state, false) =>
      match decisionStage env setting t state with
      | .ok (doReplan, _) => some doReplan
      | .error _ => none
  | _ => none

/-- The record assembled after the loop. -/
def runResult (setting : ReplanSetting K E σ) (args : EpisodeArgs K) (s : RunState K E R Row σ) :
    RunResult K Row :=
  let episode := s.episode
  { condition := setting.condition
    seed := args.seed
    success := episode.success
    steps := episode.t + 1
    perturbed := episode.sched.fired
    perturbStep := episode.sched.fireStep
    perturbDelta := episode.sched.delta
    triggerStep := episode.triggerStep
    triggerLatency := do
      let triggerStep ← episode.triggerStep
      let fireStep ← episode.sched.fireStep
      some ((triggerStep : ℤ) - fireStep)
    nReplans := episode.policy.nReplans
    replanSteps := episode.policy.replanSteps
    finalState := episode.policy.state
    zLog := s.trigger.map setting.trigger.zLog
    dbgLog := s.trigger.map setting.trigger.dbgLog
    log := episode.log
    frames := episode.frames
    perturbDelay := episode.sched.delaySteps }

/-- The record and the states of the simulator and of the trigger after the episode. -/
def runEpisode (setting : ReplanSetting K E σ) (args : EpisodeArgs K) (s : E) :
    Except PyError (RunResult K Row × E × Option σ) := do
  let (s, _) ← runLoop env setting args s args.maxSteps
  .ok (runResult setting args s, s.episode.sim, s.trigger)

/-- An episode that returns has assembled its record from the last state of its loop. -/
theorem exists_runLoop {env : Env K E R Row} {setting : ReplanSetting K E σ}
    {args : EpisodeArgs K} {s sim : E} {result : RunResult K Row} {trigger : Option σ}
    (ran : runEpisode env setting args s = .ok (result, sim, trigger)) :
    ∃ state left, runLoop env setting args s args.maxSteps = .ok (state, left) ∧
      result = runResult setting args state ∧ sim = state.episode.sim ∧
      trigger = state.trigger := by
  obtain ⟨⟨state, left⟩, looped, returned⟩ := Fallible.bind_eq_ok.mp ran
  obtain ⟨rfl, rest⟩ := Prod.mk.inj (Except.ok.inj returned)
  obtain ⟨rfl, rfl⟩ := Prod.mk.inj rest
  exact ⟨state, left, looped, rfl, rfl, rfl⟩

/-- What an iteration with a given decision does, `perturbed` being its state after the call of the
scheduler. -/
structure Advanced (t : ℕ) (perturbed : EpisodeState K E R Row) (doReplan : Bool)
    (after : EpisodeState K E R Row) (left : Bool) : Prop where
  sched : after.sched = perturbed.sched
  objInitZ : after.objInitZ = perturbed.objInitZ
  acted : ∃ action,
    (if doReplan then perturbed.policy.replan env perturbed.sim (some t) true
      else perturbed.policy).act env perturbed.sim = .ok (action, after.policy) ∧
    after.sim = env.step action perturbed.sim ∧
    after.log.action = perturbed.log.action ++ [action]
  state : after.log.state = perturbed.log.state ++
    [(if doReplan then perturbed.policy.replan env perturbed.sim (some t) true
      else perturbed.policy).state]
  replan : after.log.replan = perturbed.log.replan ++ [doReplan]
  exit : left = decide (perturbed.objInitZ + 4 / 100 < env.getObjectPos after.sim 2)

theorem advanced_of_advanceStage {env : Env K E R Row} {t : ℕ} {s after : EpisodeState K E R Row}
    {doReplan left : Bool} (ran : advanceStage env t s doReplan = .ok (after, left)) :
    Advanced env t (perturbStage env t s).2.2 doReplan after left := by
  obtain ⟨⟨action, policy⟩, acted, returned⟩ := Fallible.bind_eq_ok.mp ran
  obtain ⟨rfl, rfl⟩ := Prod.mk.inj (Except.ok.inj returned)
  exact ⟨rfl, rfl, ⟨action, acted, rfl, rfl⟩, rfl, rfl, rfl⟩

/-- The trigger object of `jepa_trigger.py`. -/
def jepaTrigger {Z : Type} {D : ℕ} (encoder : VideoEncoder (List Row) Z K D)
    (cfg : TriggerConfig K) : Trigger K E (TriggerState Row K D cfg) where
  reset _ := OnlineJepaTrigger.reset cfg
  call := OnlineJepaTrigger.step env encoder
  zLog := TriggerState.zLog
  dbgLog := TriggerState.dbgLog

end G1Jepa
