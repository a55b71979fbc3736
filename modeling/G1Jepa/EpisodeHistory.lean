import G1Jepa.ReplanSchedule

/-!
# Episodes that share an environment and a trigger

An evaluation runs its episodes one after the other with one environment and one trigger object.
Each call of `run_episode` resets both, so what it returns does not depend on the calls before it,
whether they returned or raised, and the order of the calls only permutes their results.
-/

namespace G1Jepa

variable {K E R Row σ : Type} [Field K] [LinearOrder K] {env : Env K E R Row}

/-- The arguments of one call other than the shared environment and trigger. -/
structure EpisodeCall (K : Type) [Field K] where
  condition : Condition
  fixedPeriod : ℤ := 20
  observeOnly : Bool := false
  /-- The call passes the shared trigger, not `None`. -/
  passesTrigger : Bool := true
  args : EpisodeArgs K := {}

/-- The setting of a call that finds the shared trigger in a given state. -/
def EpisodeCall.setting (call : EpisodeCall K) (trigger : Trigger K E σ) (state : σ) :
    ReplanSetting K E σ where
  condition := call.condition
  fixedPeriod := call.fixedPeriod
  observeOnly := call.observeOnly
  trigger
  triggerState := if call.passesTrigger then some state else none

/-- The states of the shared objects between two calls. -/
structure Shared (E σ : Type) where
  sim : E
  trigger : σ

/-- What a call returns and the states it leaves; `leaves` says what a call that raises leaves
behind. -/
def runCall (env : Env K E R Row) (trigger : Trigger K E σ)
    (leaves : EpisodeCall K → Shared E σ → Shared E σ) (call : EpisodeCall K)
    (shared : Shared E σ) : Except PyError (RunResult K Row) × Shared E σ :=
  match runEpisode env (call.setting trigger shared.trigger) call.args shared.sim with
  | .ok (result, sim, after) => (.ok result, ⟨sim, after.getD shared.trigger⟩)
  | .error failure => (.error failure, leaves call shared)

/-- A sequence of calls that share their objects: what each returns and the final states. -/
def runCalls (env : Env K E R Row) (trigger : Trigger K E σ)
    (leaves : EpisodeCall K → Shared E σ → Shared E σ) :
    List (EpisodeCall K) → Shared E σ →
      List (Except PyError (RunResult K Row)) × Shared E σ
  | [], shared => ([], shared)
  | call :: calls, shared =>
      let (result, between) := runCall env trigger leaves call shared
      let (results, after) := runCalls env trigger leaves calls between
      (result :: results, after)

/-- `reset` sets every attribute that a call changes. -/
def Trigger.Forgets (trigger : Trigger K E σ) : Prop :=
  ∀ st st', trigger.reset st = trigger.reset st'

theorem jepaTrigger_forgets {Z : Type} {D : ℕ} (encoder : VideoEncoder (List Row) Z K D)
    (cfg : TriggerConfig K) : (jepaTrigger env encoder cfg).Forgets :=
  fun _ _ => rfl

section Independence

variable {trigger : Trigger K E σ} {leaves : EpisodeCall K → Shared E σ → Shared E σ}

/-- The statements before the loop forget the states of the shared objects. -/
theorem runStart_eq (determined : env.ResetDetermined) (forgets : trigger.Forgets)
    (call : EpisodeCall K) (shared fresh : Shared E σ) :
    runStart env (call.setting trigger shared.trigger) call.args shared.sim =
      runStart env (call.setting trigger fresh.trigger) call.args fresh.sim := by
  have sameTrigger : (call.setting trigger shared.trigger).triggerState.map trigger.reset =
      (call.setting trigger fresh.trigger).triggerState.map trigger.reset := by
    rw [EpisodeCall.setting, EpisodeCall.setting]
    cases call.passesTrigger with
    | false => rfl
    | true => exact congrArg some (forgets _ _)
  rw [runStart, runStart, episodeStart_eq determined shared.sim fresh.sim]
  exact congrArg (RunState.mk _) sameTrigger

/-- The loop body reads the trigger from its own variable, not from the call. -/
theorem runStep_setting (call : EpisodeCall K) (state state' : σ) :
    runStep env (call.setting trigger state) = runStep env (call.setting trigger state') :=
  rfl

theorem runEpisode_eq (determined : env.ResetDetermined) (forgets : trigger.Forgets)
    (call : EpisodeCall K) (shared fresh : Shared E σ) :
    runEpisode env (call.setting trigger shared.trigger) call.args shared.sim =
      runEpisode env (call.setting trigger fresh.trigger) call.args fresh.sim := by
  rw [runEpisode, runEpisode, runLoop, runLoop, runStart_eq determined forgets call shared fresh,
    runStep_setting call shared.trigger fresh.trigger]
  rfl

theorem runCall_fst (call : EpisodeCall K) (shared : Shared E σ) :
    (runCall env trigger leaves call shared).1 =
      (runEpisode env (call.setting trigger shared.trigger) call.args shared.sim).map Prod.fst := by
  rw [runCall]
  cases runEpisode env (call.setting trigger shared.trigger) call.args shared.sim <;> rfl

/-- In a sequence every call returns what it returns from fresh objects. -/
theorem runCalls_eq_map (determined : env.ResetDetermined) (forgets : trigger.Forgets)
    (calls : List (EpisodeCall K)) (shared fresh : Shared E σ) :
    (runCalls env trigger leaves calls shared).1 =
      calls.map fun call =>
        (runEpisode env (call.setting trigger fresh.trigger) call.args fresh.sim).map Prod.fst := by
  induction calls generalizing shared with
  | nil => rfl
  | cons call calls induction =>
      rw [runCalls, List.map_cons, ← induction (runCall env trigger leaves call shared).2,
        ← runEpisode_eq determined forgets call shared fresh, ← runCall_fst]

end Independence

variable {Z : Type} {D : ℕ}

/-- Whatever earlier calls have left in the environment and in the trigger, a call returns what it
returns with a newly constructed trigger, and reordering a sequence of calls reorders their
results. -/
theorem runEpisode_forgets_history (determined : env.ResetDetermined)
    (encoder : VideoEncoder (List Row) Z K D) (cfg : TriggerConfig K) :
    (∀ (call : EpisodeCall K) (left : Shared E (TriggerState Row K D cfg)) (sim : E),
      runEpisode env (call.setting (jepaTrigger env encoder cfg) left.trigger) call.args
          left.sim =
        runEpisode env
          (call.setting (jepaTrigger env encoder cfg) (OnlineJepaTrigger.reset cfg)) call.args
          sim) ∧
      ∀ (leaves : EpisodeCall K → Shared E (TriggerState Row K D cfg) →
          Shared E (TriggerState Row K D cfg)),
        (∀ (earlier : List (EpisodeCall K)) (call : EpisodeCall K)
          (start : Shared E (TriggerState Row K D cfg)) (sim : E),
          (runCall env (jepaTrigger env encoder cfg) leaves call
              (runCalls env (jepaTrigger env encoder cfg) leaves earlier start).2).1 =
            (runCall env (jepaTrigger env encoder cfg) leaves call
              ⟨sim, OnlineJepaTrigger.reset cfg⟩).1) ∧
        ∀ (calls calls' : List (EpisodeCall K))
          (start start' : Shared E (TriggerState Row K D cfg)), calls.Perm calls' →
          (calls.zip (runCalls env (jepaTrigger env encoder cfg) leaves calls start).1).Perm
            (calls'.zip
              (runCalls env (jepaTrigger env encoder cfg) leaves calls' start').1) := by
  have forgets : (jepaTrigger env encoder cfg).Forgets := jepaTrigger_forgets encoder cfg
  refine ⟨?_, fun leaves => ⟨?_, ?_⟩⟩
  · intro call left sim
    exact runEpisode_eq determined forgets call left ⟨sim, OnlineJepaTrigger.reset cfg⟩
  · intro earlier call start sim
    rw [runCall_fst, runCall_fst,
      runEpisode_eq determined forgets call _ ⟨sim, OnlineJepaTrigger.reset cfg⟩]
  · intro calls calls' start start' reordered
    rw [runCalls_eq_map determined forgets calls start start,
      runCalls_eq_map determined forgets calls' start' start, ← List.map_prod_left_eq_zip,
      ← List.map_prod_left_eq_zip]
    exact reordered.map _

theorem runEpisode_forgets_history_disarmed :
    runEpisode hoveringEnv
        (({ condition := .jepa } : EpisodeCall ℚ).setting
          (jepaTrigger hoveringEnv (spikeEncoder [8]) hoveringConfig)
          { OnlineJepaTrigger.reset hoveringConfig with run := 1, armed := false })
        {} 7 =
      runEpisode hoveringEnv
        (({ condition := .jepa } : EpisodeCall ℚ).setting
          (jepaTrigger hoveringEnv (spikeEncoder [8]) hoveringConfig)
          (OnlineJepaTrigger.reset hoveringConfig))
        {} 0 :=
  (runEpisode_forgets_history (fun _ _ _ => rfl) (spikeEncoder [8]) hoveringConfig).1
    { condition := .jepa }
    ⟨7, { OnlineJepaTrigger.reset hoveringConfig with run := 1, armed := false }⟩ 0

end G1Jepa
