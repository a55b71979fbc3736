import G1Jepa.EpisodeHistory
import G1Jepa.Summary

/-!
# The evaluation script

`main` of `run_episode.py` runs every condition over the same seeds with one environment and one
trigger object, prints a row for each condition and saves the records. Since a run forgets what came
before it, the saved records are those of fresh runs: they depend neither on the other conditions
nor on their order, and a longer evaluation extends a shorter one.
-/

namespace G1Jepa

variable {K E R Row σ : Type} [Field K] [LinearOrder K]

/-! ## The script -/

/-- The condition that a name selects. -/
def Condition.ofName (name : String) : Condition :=
  if name = "no_replan" then .noReplan
  else if name = "fixed" then .fixed
  else if name = "oracle" then .oracle
  else if name = "jepa" then .jepa
  else .other name

/-- The arguments of the command line that reach the runs. -/
structure EvaluationArgs (K : Type) [Field K] where
  n : ℕ := 20
  kp : K := 10
  jepa : Bool := false
  seed0 : ℕ := 0
  observeOnly : Bool := false
  conds : Option String := none

namespace EvaluationArgs

variable (args : EvaluationArgs K)

/-- `conds`: the default conditions, or the names in `--conds` without the blanks around them. -/
def condNames : List String :=
  match args.conds with
  | some text =>
      if text = "" then ["no_replan", "fixed", "oracle"] ++ if args.jepa then ["jepa"] else []
      else (text.toList.splitOn ',').map fun piece => String.ofList (strip piece)
  | none => ["no_replan", "fixed", "oracle"] ++ if args.jepa then ["jepa"] else []

/-- A call of `run_episode` for one condition and one seed. -/
def call (cond : String) (perturb : Bool) (seed : ℕ) : EpisodeCall K where
  condition := .ofName cond
  observeOnly := args.observeOnly
  passesTrigger := args.jepa
  args := { seed, perturb, policyKwargs := { kp := args.kp } }

/-- The calls for `rp`. -/
def perturbedCalls (cond : String) : List (EpisodeCall K) :=
  (List.range args.n).map fun s => args.call cond true (args.seed0 + s)

/-- The calls for `rc`. -/
def cleanCalls (cond : String) : List (EpisodeCall K) :=
  (List.range args.n).map fun s => args.call cond false (args.seed0 + 10000 + s)

end EvaluationArgs

/-- A list of calls one after the other; the first that raises ends the script. -/
def runEpisodes (env : Env K E R Row) (trigger : Trigger K E σ) :
    List (EpisodeCall K) → Shared E σ → Except PyError (List (RunResult K Row) × Shared E σ)
  | [], shared => .ok ([], shared)
  | call :: calls, shared => do
      let (result, sim, after) ←
        runEpisode env (call.setting trigger shared.trigger) call.args shared.sim
      let (results, final) ← runEpisodes env trigger calls ⟨sim, after.getD shared.trigger⟩
      .ok (result :: results, final)

/-- The record without the keys `log` and `frames`. -/
def RunResult.saved (r : RunResult K Row) : RunResult K Row :=
  { r with log := {}, frames := none }

/-- The entry of a condition in the file. -/
structure SavedCondition (K Row : Type) where
  perturbed : List (RunResult K Row)
  clean : List (RunResult K Row)

/-- The numbers of a printed row. -/
structure TableRow (K : Type) where
  cond : String
  srPert : NanOr K
  srClean : NanOr K
  latency : NanOr K
  replans : NanOr K
  replansClean : NanOr K
  steps : NanOr K

def tableRow (cond : String) (rp rc : List (RunResult K Row)) : TableRow K where
  cond
  srPert := Numpy.share (firedRuns rp) fun r => r.success
  srClean := Numpy.share rc fun r => r.success
  latency := Numpy.mean ((firedLatencies rp).map fun l : ℤ => (l : K))
  replans := Numpy.mean (rp.map fun r => (r.nReplans : K))
  replansClean := Numpy.mean (rc.map fun r => (r.nReplans : K))
  steps := Numpy.mean (((firedRuns rp).filter fun r => r.success).map fun r => (r.steps : K))

/-- The loop over the conditions, with what `all_res` holds so far. -/
def runConditions (env : Env K E R Row) (trigger : Trigger K E σ) (args : EvaluationArgs K) :
    List String → Dict String (SavedCondition K Row) → Shared E σ →
      Except PyError (List (TableRow K) × Dict String (SavedCondition K Row) × Shared E σ)
  | [], allRes, shared => .ok ([], allRes, shared)
  | cond :: conds, allRes, shared => do
      let (rp, shared) ← runEpisodes env trigger (args.perturbedCalls cond) shared
      let (rc, shared) ← runEpisodes env trigger (args.cleanCalls cond) shared
      let allRes := allRes.insert cond ⟨rp.map RunResult.saved, rc.map RunResult.saved⟩
      let (rows, rest) ← runConditions env trigger args conds allRes shared
      .ok (tableRow cond rp rc :: rows, rest)

/-- The table and the content of the file, which is written at the end. -/
def closedLoop (env : Env K E R Row) (trigger : Trigger K E σ) (args : EvaluationArgs K)
    (shared : Shared E σ) :
    Except PyError (List (TableRow K) × Dict String (SavedCondition K Row)) := do
  let (rows, allRes, _) ← runConditions env trigger args args.condNames ∅ shared
  .ok (rows, allRes)

omit [LinearOrder K] in
/-- The table can be computed from the saved records. -/
theorem tableRow_saved (cond : String) (rp rc : List (RunResult K Row)) :
    tableRow cond (rp.map RunResult.saved) (rc.map RunResult.saved) = tableRow cond rp rc := by
  simp only [tableRow, firedLatencies, firedRuns, Numpy.share, List.filter_map,
    List.filterMap_map, List.map_map, Function.comp_def, RunResult.saved]
  rfl

/-- `aggregate.py` reads neither the logs nor the frames. -/
theorem stats_saved (rp rc : List (RunResult K Row)) :
    stats (rp.map RunResult.saved) (rc.map RunResult.saved) = stats rp rc := by
  simp only [stats, firedLatencies, firedRuns, Numpy.share, List.filter_map, List.filterMap_map,
    List.map_map, Function.comp_def, RunResult.saved, List.length_map]
  rfl

/-- The numbers that the table and the summary share. -/
theorem rows_of_stats (cond : String) {rp rc : List (RunResult K Row)} {summary : Stats K}
    (computed : stats rp rc = .ok summary) :
    summary.successRate = (tableRow cond rp rc).srPert ∧
      summary.successRateClean = (tableRow cond rp rc).srClean ∧
      summary.mean = (tableRow cond rp rc).latency ∧
      summary.steps = (tableRow cond rp rc).steps := by
  obtain ⟨mx, -, rest⟩ := Fallible.bind_eq_ok.mp computed
  split at rest
  · contradiction
  · obtain rfl := Except.ok.inj rest
    exact ⟨rfl, rfl, rfl, rfl⟩

/-! ## Runs on their own -/

/-- The record of a call with objects that no earlier call has used. -/
def freshRun (env : Env K E R Row) (trigger : Trigger K E σ) (fresh : Shared E σ)
    (call : EpisodeCall K) : Except PyError (RunResult K Row) :=
  (runEpisode env (call.setting trigger fresh.trigger) call.args fresh.sim).map Prod.fst

/-- The runs of a condition, each on its own. -/
def freshRuns (env : Env K E R Row) (trigger : Trigger K E σ) (fresh : Shared E σ)
    (args : EvaluationArgs K) (cond : String) :
    Except PyError (List (RunResult K Row) × List (RunResult K Row)) := do
  let rp ← (args.perturbedCalls cond).mapM (freshRun env trigger fresh)
  let rc ← (args.cleanCalls cond).mapM (freshRun env trigger fresh)
  .ok (rp, rc)

/-- What the file says about a condition with these runs. -/
def savedCondition (runs : List (RunResult K Row) × List (RunResult K Row)) :
    SavedCondition K Row :=
  ⟨runs.1.map RunResult.saved, runs.2.map RunResult.saved⟩

section Fresh

variable {env : Env K E R Row} {trigger : Trigger K E σ} {args : EvaluationArgs K}

theorem runEpisodes_returns_iff (determined : env.ResetDetermined) (forgets : trigger.Forgets)
    {calls : List (EpisodeCall K)} (shared fresh : Shared E σ)
    {results : List (RunResult K Row)} :
    (∃ after, runEpisodes env trigger calls shared = .ok (results, after)) ↔
      calls.mapM (freshRun env trigger fresh) = .ok results := by
  rw [Fallible.mapM_eq_ok_iff]
  induction calls generalizing shared results with
  | nil =>
      rw [List.forall₂_nil_left_iff]
      constructor
      · rintro ⟨after, returned⟩
        exact (congrArg Prod.fst (Except.ok.inj returned)).symm
      · rintro rfl
        exact ⟨shared, rfl⟩
  | cons call calls induction =>
      have first := runEpisode_eq determined forgets call shared fresh
      constructor
      · rintro ⟨after, returned⟩
        obtain ⟨⟨result, sim, trig⟩, ran, rest⟩ := Fallible.bind_eq_ok.mp returned
        obtain ⟨⟨others, final⟩, continued, collected⟩ := Fallible.bind_eq_ok.mp rest
        obtain ⟨rfl, rfl⟩ := Prod.mk.inj (Except.ok.inj collected)
        refine .cons ?_ ((induction _).mp ⟨final, continued⟩)
        rw [freshRun, ← first, ran]
        rfl
      · intro related
        cases related with
        | @cons _ result _ others ran rest =>
            obtain ⟨⟨_, sim, trig⟩, returned, rfl⟩ : ∃ outcome,
                runEpisode env (call.setting trigger shared.trigger) call.args shared.sim =
                  .ok outcome ∧ outcome.1 = result := by
              rw [freshRun, ← first] at ran
              exact Fallible.map_eq_ok.mp ran
            obtain ⟨final, continued⟩ := (induction ⟨sim, trig.getD shared.trigger⟩).mpr rest
            exact ⟨final, Fallible.bind_eq_ok.mpr ⟨_, returned,
              Fallible.bind_eq_ok.mpr ⟨_, continued, rfl⟩⟩⟩

/-- The loop over the conditions assigns to each of them what its runs return on their own. -/
theorem runConditions_returns_iff (determined : env.ResetDetermined) (forgets : trigger.Forgets)
    {conds : List String} {allRes saved : Dict String (SavedCondition K Row)}
    (shared fresh : Shared E σ) {rows : List (TableRow K)} :
    (∃ after, runConditions env trigger args conds allRes shared = .ok (rows, saved, after)) ↔
      ∃ runs, conds.mapM (freshRuns env trigger fresh args) = .ok runs ∧
        rows = List.zipWith (fun cond runs => tableRow cond runs.1 runs.2) conds runs ∧
        saved = (conds.zip runs).foldl
          (fun allRes item => allRes.insert item.1 (savedCondition item.2)) allRes := by
  simp only [Fallible.mapM_eq_ok_iff]
  induction conds generalizing allRes shared rows with
  | nil =>
      constructor
      · rintro ⟨after, returned⟩
        obtain ⟨rfl, rest⟩ := Prod.mk.inj (Except.ok.inj returned)
        exact ⟨[], .nil, rfl, (congrArg Prod.fst rest).symm⟩
      · rintro ⟨runs, related, rfl, rfl⟩
        cases related
        exact ⟨shared, rfl⟩
  | cons cond conds induction =>
      constructor
      · rintro ⟨after, returned⟩
        obtain ⟨⟨rp, between⟩, perturbed, rest⟩ := Fallible.bind_eq_ok.mp returned
        obtain ⟨⟨rc, next⟩, clean, rest⟩ := Fallible.bind_eq_ok.mp rest
        obtain ⟨⟨others, outcome⟩, continued, collected⟩ := Fallible.bind_eq_ok.mp rest
        obtain ⟨rfl, rfl⟩ := Prod.mk.inj (Except.ok.inj collected)
        obtain ⟨runs, related, rfl, rfl⟩ := (induction next).mp ⟨after, continued⟩
        refine ⟨(rp, rc) :: runs, .cons ?_ related, rfl, rfl⟩
        exact Fallible.bind_eq_ok.mpr
          ⟨_, (runEpisodes_returns_iff determined forgets shared fresh).mp ⟨_, perturbed⟩,
            Fallible.bind_eq_ok.mpr
              ⟨_, (runEpisodes_returns_iff determined forgets between fresh).mp ⟨_, clean⟩, rfl⟩⟩
      · rintro ⟨runs, related, rfl, rfl⟩
        cases related with
        | @cons _ first _ others ran rest =>
            obtain ⟨rp, perturbed, rest'⟩ := Fallible.bind_eq_ok.mp ran
            obtain ⟨rc, clean, collected⟩ := Fallible.bind_eq_ok.mp rest'
            obtain rfl := Except.ok.inj collected
            obtain ⟨between, ranPerturbed⟩ :=
              (runEpisodes_returns_iff determined forgets shared fresh).mpr perturbed
            obtain ⟨next, ranClean⟩ :=
              (runEpisodes_returns_iff determined forgets between fresh).mpr clean
            obtain ⟨after, continued⟩ := (induction next).mpr ⟨others, rest, rfl, rfl⟩
            exact ⟨after, Fallible.bind_eq_ok.mpr ⟨_, ranPerturbed,
              Fallible.bind_eq_ok.mpr ⟨_, ranClean,
                Fallible.bind_eq_ok.mpr ⟨_, continued, rfl⟩⟩⟩⟩

theorem closedLoop_eq_ok_iff (determined : env.ResetDetermined) (forgets : trigger.Forgets)
    (shared fresh : Shared E σ) {rows : List (TableRow K)}
    {saved : Dict String (SavedCondition K Row)} :
    closedLoop env trigger args shared = .ok (rows, saved) ↔
      ∃ runs, args.condNames.mapM (freshRuns env trigger fresh args) = .ok runs ∧
        rows = List.zipWith (fun cond runs => tableRow cond runs.1 runs.2) args.condNames runs ∧
        saved = Dict.ofItems ((args.condNames.zip runs).map fun item =>
          (item.1, savedCondition item.2)) := by
  simp only [Dict.ofItems, List.foldl_map]
  rw [← runConditions_returns_iff determined forgets shared fresh, closedLoop]
  constructor
  · intro returned
    obtain ⟨⟨_, _, after⟩, ran, collected⟩ := Fallible.bind_eq_ok.mp returned
    obtain ⟨rfl, rfl⟩ := Prod.mk.inj (Except.ok.inj collected)
    exact ⟨after, ran⟩
  · rintro ⟨after, ran⟩
    exact Fallible.bind_eq_ok.mpr ⟨_, ran, rfl⟩

theorem freshRuns_eq_ok_iff {fresh : Shared E σ} {cond : String}
    {rp rc : List (RunResult K Row)} :
    freshRuns env trigger fresh args cond = .ok (rp, rc) ↔
      (rp.length = args.n ∧ ∀ i < args.n, ∃ r, rp[i]? = some r ∧
        freshRun env trigger fresh (args.call cond true (args.seed0 + i)) = .ok r) ∧
        rc.length = args.n ∧ ∀ i < args.n, ∃ r, rc[i]? = some r ∧
          freshRun env trigger fresh (args.call cond false (args.seed0 + 10000 + i)) = .ok r := by
  rw [← Fallible.mapM_range_eq_ok_iff, ← Fallible.mapM_range_eq_ok_iff]
  constructor
  · intro ran
    obtain ⟨_, perturbed, rest⟩ := Fallible.bind_eq_ok.mp ran
    obtain ⟨_, clean, collected⟩ := Fallible.bind_eq_ok.mp rest
    obtain ⟨rfl, rfl⟩ := Prod.mk.inj (Except.ok.inj collected)
    exact ⟨perturbed, clean⟩
  · rintro ⟨perturbed, clean⟩
    exact Fallible.bind_eq_ok.mpr ⟨_, perturbed, Fallible.bind_eq_ok.mpr ⟨_, clean, rfl⟩⟩

/-- What the file says about a condition is what its runs return on their own. -/
theorem lookup_saved_iff {fresh : Shared E σ} {conds : List String}
    {runs : List (List (RunResult K Row) × List (RunResult K Row))}
    (traversed : conds.mapM (freshRuns env trigger fresh args) = .ok runs) {cond : String}
    {entry : SavedCondition K Row} :
    (Dict.ofItems ((conds.zip runs).map fun item => (item.1, savedCondition item.2))).lookup cond =
        some entry ↔
      cond ∈ conds ∧ ∃ found, freshRuns env trigger fresh args cond = .ok found ∧
        entry = savedCondition found := by
  obtain ⟨length, related⟩ := List.forall₂_iff_zip.mp (Fallible.mapM_eq_ok_iff.mp traversed)
  have stored : ∀ {cond entry}, (cond, entry) ∈ (conds.zip runs).map (fun item =>
      (item.1, savedCondition item.2)) → ∃ found,
        freshRuns env trigger fresh args cond = .ok found ∧ entry = savedCondition found := by
    intro cond entry member
    obtain ⟨⟨name, found⟩, paired, equality⟩ := List.mem_map.mp member
    obtain ⟨rfl, rfl⟩ := Prod.mk.inj equality
    exact ⟨found, related paired, rfl⟩
  rw [Dict.lookup_ofItems_of_consistent]
  · constructor
    · intro member
      obtain ⟨⟨name, found⟩, paired, equality⟩ := List.mem_map.mp member
      obtain ⟨rfl, -⟩ := Prod.mk.inj equality
      exact ⟨(List.of_mem_zip paired).1, stored member⟩
    · rintro ⟨member, found, ran, rfl⟩
      obtain ⟨i, bound, rfl⟩ := List.mem_iff_getElem.mp member
      have paired : (conds[i], runs[i]) ∈ conds.zip runs :=
        List.mem_iff_getElem.mpr ⟨i, by rw [List.length_zip]; omega, List.getElem_zip⟩
      obtain rfl := Except.ok.inj (ran.symm.trans (related paired))
      exact List.mem_map.mpr ⟨_, paired, rfl⟩
  · intro cond entry entry' left right
    obtain ⟨found, ran, rfl⟩ := stored left
    obtain ⟨found', ran', rfl⟩ := stored right
    rw [Except.ok.inj (ran.symm.trans ran')]

/-- Every listed condition is in the file. -/
theorem exists_lookup_saved (determined : env.ResetDetermined) (forgets : trigger.Forgets)
    {shared : Shared E σ} {rows : List (TableRow K)} {saved : Dict String (SavedCondition K Row)}
    (ran : closedLoop env trigger args shared = .ok (rows, saved)) {cond : String}
    (member : cond ∈ args.condNames) : ∃ entry, saved.lookup cond = some entry := by
  obtain ⟨runs, traversed, -, rfl⟩ :=
    (closedLoop_eq_ok_iff determined forgets shared shared).mp ran
  obtain ⟨found, own⟩ := Fallible.exists_of_mapM_eq_ok traversed member
  exact ⟨_, (lookup_saved_iff traversed).mpr ⟨member, found, own, rfl⟩⟩

/-- An unknown condition raises in the first step. -/
theorem freshRun_of_other {fresh : Shared E σ} {cond name : String} {perturb : Bool} {seed : ℕ}
    (unknown : Condition.ofName cond = .other name) :
    freshRun env trigger fresh (args.call cond perturb seed) = .error (.valueError name) := by
  have decides (state : Option σ) (t : ℕ) (fired : Bool) (sim : E) (policy : ScriptedPickPlace K) :
      decideReplan ((args.call cond perturb seed).setting trigger fresh.trigger) state t fired sim
        policy = .error (.valueError name) := by
    simp only [decideReplan, EpisodeCall.setting, EvaluationArgs.call, unknown]
  have raises : runLoop env ((args.call cond perturb seed).setting trigger fresh.trigger)
      (args.call cond perturb seed).args fresh.sim (args.call cond perturb seed).args.maxSteps =
        .error (.valueError name) := by
    refine ForRange.loop_of_error ?_ (show 0 < 300 by decide)
    have stage (state : RunState K E R Row σ) : decisionStage env
        ((args.call cond perturb seed).setting trigger fresh.trigger) 0 state =
          .error (.valueError name) := decides ..
    rw [runStep, stage]
    rfl
  rw [freshRun, runEpisode, raises]
  rfl

/-- The script returns when every run of every condition returns on its own. -/
theorem closedLoop_isOk_iff (determined : env.ResetDetermined) (forgets : trigger.Forgets)
    (shared fresh : Shared E σ) :
    (closedLoop env trigger args shared).isOk = true ↔
      ∀ cond ∈ args.condNames, ∀ i < args.n,
        (freshRun env trigger fresh (args.call cond true (args.seed0 + i))).isOk = true ∧
          (freshRun env trigger fresh (args.call cond false (args.seed0 + 10000 + i))).isOk =
            true := by
  constructor
  · intro returned cond member i bound
    obtain ⟨⟨rows, saved⟩, ran⟩ := Fallible.exists_eq_ok returned
    obtain ⟨runs, traversed, -, -⟩ := (closedLoop_eq_ok_iff determined forgets shared fresh).mp ran
    obtain ⟨⟨rp, rc⟩, found⟩ := Fallible.exists_of_mapM_eq_ok traversed member
    obtain ⟨⟨-, perturbed⟩, -, clean⟩ := freshRuns_eq_ok_iff.mp found
    obtain ⟨r, -, ranPerturbed⟩ := perturbed i bound
    obtain ⟨r', -, ranClean⟩ := clean i bound
    rw [ranPerturbed, ranClean]
    exact ⟨rfl, rfl⟩
  · intro runs
    have each : ∀ cond ∈ args.condNames, ∃ found,
        freshRuns env trigger fresh args cond = .ok found := by
      intro cond member
      obtain ⟨rp, perturbed⟩ : ∃ rp,
          (args.perturbedCalls cond).mapM (freshRun env trigger fresh) = .ok rp := by
        refine Fallible.exists_mapM_eq_ok fun call listed => ?_
        obtain ⟨i, inside, rfl⟩ := List.mem_map.mp listed
        exact Fallible.exists_eq_ok (runs cond member i (List.mem_range.mp inside)).1
      obtain ⟨rc, clean⟩ : ∃ rc,
          (args.cleanCalls cond).mapM (freshRun env trigger fresh) = .ok rc := by
        refine Fallible.exists_mapM_eq_ok fun call listed => ?_
        obtain ⟨i, inside, rfl⟩ := List.mem_map.mp listed
        exact Fallible.exists_eq_ok (runs cond member i (List.mem_range.mp inside)).2
      exact ⟨_, Fallible.bind_eq_ok.mpr ⟨_, perturbed,
        Fallible.bind_eq_ok.mpr ⟨_, clean, rfl⟩⟩⟩
    obtain ⟨runs, traversed⟩ := Fallible.exists_mapM_eq_ok each
    rw [(closedLoop_eq_ok_iff determined forgets shared fresh).mpr ⟨runs, traversed, rfl, rfl⟩]
    rfl

/-- The script returns when every run of every condition returns on its own. The file has the listed
conditions, and the record of a seed is what its run returns on its own; the printed rows, and the
numbers that `stats` shares with them, can be computed from the file. -/
theorem closedLoop_saves_fresh_runs (determined : env.ResetDetermined)
    (forgets : trigger.Forgets) (args : EvaluationArgs K) (shared fresh : Shared E σ) :
    ((closedLoop env trigger args shared).isOk = true ↔
      ∀ cond ∈ args.condNames, ∀ i < args.n,
        (freshRun env trigger fresh (args.call cond true (args.seed0 + i))).isOk = true ∧
          (freshRun env trigger fresh (args.call cond false (args.seed0 + 10000 + i))).isOk =
            true) ∧
      (∀ cond ∈ args.condNames, ∀ name, Condition.ofName cond = .other name → 0 < args.n →
        (closedLoop env trigger args shared).isOk = false) ∧
      ∀ rows saved, closedLoop env trigger args shared = .ok (rows, saved) →
        rows.map TableRow.cond = args.condNames ∧
        (∀ cond, (saved.lookup cond).isSome = true ↔ cond ∈ args.condNames) ∧
        (∀ cond entry, saved.lookup cond = some entry →
          (entry.perturbed.length = args.n ∧ entry.clean.length = args.n) ∧ ∀ i < args.n,
            (∃ r, entry.perturbed[i]? = some r.saved ∧
              freshRun env trigger fresh (args.call cond true (args.seed0 + i)) = .ok r) ∧
              ∃ r, entry.clean[i]? = some r.saved ∧
                freshRun env trigger fresh (args.call cond false (args.seed0 + 10000 + i)) =
                  .ok r) ∧
        ∀ row ∈ rows, ∃ entry, saved.lookup row.cond = some entry ∧
          row = tableRow row.cond entry.perturbed entry.clean ∧
          ∀ summary, stats entry.perturbed entry.clean = .ok summary →
            summary.successRate = row.srPert ∧ summary.successRateClean = row.srClean ∧
              summary.mean = row.latency ∧ summary.steps = row.steps := by
  refine ⟨closedLoop_isOk_iff determined forgets shared fresh, ?_, ?_⟩
  · intro cond member name unknown positive
    by_contra returned
    rw [Bool.not_eq_false] at returned
    have first := ((closedLoop_isOk_iff determined forgets shared fresh).mp returned cond member 0
      positive).1
    rw [freshRun_of_other unknown] at first
    contradiction
  · intro rows saved ran
    obtain ⟨runs, traversed, rfl, rfl⟩ :=
      (closedLoop_eq_ok_iff determined forgets shared fresh).mp ran
    have length := (Fallible.mapM_eq_ok_iff.mp traversed).length_eq
    refine ⟨?_, fun cond => ?_, fun cond entry found => ?_, fun row listed => ?_⟩
    · rw [List.map_zipWith]
      exact (List.map_zip_eq_zipWith ..).symm.trans (List.map_fst_zip length.le)
    · rw [Option.isSome_iff_exists]
      constructor
      · rintro ⟨entry, found⟩
        exact ((lookup_saved_iff traversed).mp found).1
      · intro member
        exact exists_lookup_saved determined forgets ran member
    · obtain ⟨-, ⟨rp, rc⟩, own, rfl⟩ := (lookup_saved_iff traversed).mp found
      obtain ⟨⟨lengthP, perturbed⟩, lengthC, clean⟩ := freshRuns_eq_ok_iff.mp own
      refine ⟨⟨(List.length_map ..).trans lengthP, (List.length_map ..).trans lengthC⟩,
        fun i bound => ⟨?_, ?_⟩⟩
      · obtain ⟨r, at_i, single⟩ := perturbed i bound
        exact ⟨r, by rw [savedCondition, List.getElem?_map, at_i]; rfl, single⟩
      · obtain ⟨r, at_i, single⟩ := clean i bound
        exact ⟨r, by rw [savedCondition, List.getElem?_map, at_i]; rfl, single⟩
    · obtain ⟨cond, ⟨rp, rc⟩, paired, rfl⟩ : ∃ cond found,
          (cond, found) ∈ args.condNames.zip runs ∧ row = tableRow cond found.1 found.2 := by
        rw [← List.map_uncurry_zip_eq_zipWith] at listed
        obtain ⟨⟨cond, found⟩, paired, equality⟩ := List.mem_map.mp listed
        exact ⟨cond, found, paired, equality.symm⟩
      have own := List.forall₂_zip (Fallible.mapM_eq_ok_iff.mp traversed) paired
      refine ⟨_, (lookup_saved_iff traversed).mpr
        ⟨(List.of_mem_zip paired).1, _, own, rfl⟩, (tableRow_saved cond rp rc).symm, ?_⟩
      intro summary computed
      rw [savedCondition, stats_saved] at computed
      exact rows_of_stats cond computed

/-- Two evaluations with any conditions in any order, one with at least as many seeds as the other:
where both have a condition, the records of the shorter one begin those of the longer. -/
theorem closedLoop_extends (determined : env.ResetDetermined) (forgets : trigger.Forgets)
    (args : EvaluationArgs K) {n : ℕ} (longer : args.n ≤ n) (conds : Option String)
    {shared shared' : Shared E σ} {rows rows' : List (TableRow K)}
    {saved saved' : Dict String (SavedCondition K Row)}
    (ran : closedLoop env trigger args shared = .ok (rows, saved))
    (ran' : closedLoop env trigger { args with n, conds } shared' = .ok (rows', saved'))
    {cond : String} {entry entry' : SavedCondition K Row}
    (found : saved.lookup cond = some entry) (found' : saved'.lookup cond = some entry') :
    entry.perturbed = entry'.perturbed.take args.n ∧ entry.clean = entry'.clean.take args.n := by
  obtain ⟨runs, traversed, -, rfl⟩ :=
    (closedLoop_eq_ok_iff determined forgets shared shared).mp ran
  obtain ⟨runs', traversed', -, rfl⟩ :=
    (closedLoop_eq_ok_iff determined forgets shared' shared).mp ran'
  obtain ⟨-, ⟨rp, rc⟩, own, rfl⟩ := (lookup_saved_iff traversed).mp found
  obtain ⟨-, ⟨rp', rc'⟩, own', rfl⟩ := (lookup_saved_iff traversed').mp found'
  obtain ⟨⟨lengthP, perturbed⟩, lengthC, clean⟩ := freshRuns_eq_ok_iff.mp own
  obtain ⟨⟨lengthP', perturbed'⟩, lengthC', clean'⟩ := freshRuns_eq_ok_iff.mp own'
  have begins {call : ℕ → EpisodeCall K} {short long : List (RunResult K Row)}
      (length : short.length = args.n) (length' : long.length = n)
      (each : ∀ i < args.n, ∃ r, short[i]? = some r ∧
        freshRun env trigger shared (call i) = .ok r)
      (each' : ∀ i < n, ∃ r, long[i]? = some r ∧ freshRun env trigger shared (call i) = .ok r) :
      short.map RunResult.saved = (long.map RunResult.saved).take args.n := by
    rw [← List.map_take]
    refine congrArg _ (List.ext_getElem? fun i => ?_)
    rcases Nat.lt_or_ge i args.n with inside | outside
    · obtain ⟨r, at_i, single⟩ := each i inside
      obtain ⟨r', at_i', single'⟩ := each' i (inside.trans_le longer)
      rw [List.getElem?_take_of_lt inside, at_i, at_i',
        Except.ok.inj (single.symm.trans single')]
    · rw [List.getElem?_eq_none (length.trans_le outside),
        List.getElem?_eq_none ((List.length_take_le ..).trans outside)]
  exact ⟨begins lengthP lengthP' perturbed perturbed', begins lengthC lengthC' clean clean'⟩

end Fresh

/-! ## Evaluations of a short grasp -/

/-- A simulator that lifts the object in step five. -/
def liftingEnv : Env ℚ ℕ Unit Unit :=
  { timedEnv with objQpos := fun n => ![0, 0, if n < 6 then 0 else 1, 1, 0, 0, 0] }

/-- A trigger that fires in step four. -/
def liftingTrigger : Trigger ℚ ℕ (TriggerState Unit ℚ 1 flatConfig) :=
  jepaTrigger liftingEnv (spikeEncoder [4]) flatConfig

theorem resetDetermined_lifting : liftingEnv.ResetDetermined := fun _ _ _ => rfl

theorem liftingTrigger_forgets : liftingTrigger.Forgets := jepaTrigger_forgets _ _

def liftingShared (sim : ℕ) : Shared ℕ (TriggerState Unit ℚ 1 flatConfig) :=
  ⟨sim, OnlineJepaTrigger.reset flatConfig⟩

/-- Two seeds, the second condition with the trigger. -/
def liftingArgs : EvaluationArgs ℚ := { n := 2, jepa := true, conds := some "oracle, jepa" }

/-- The second clean run of the trigger. -/
theorem liftingRun_fires : Fallible.Returns (freshRun liftingEnv liftingTrigger (liftingShared 0)
    (liftingArgs.call "jepa" false 10001)) fun r => r.seed = 10001 ∧ r.replanSteps = [4] := by
  decide +kernel

theorem closedLoop_saves_fresh_runs_lifting : ∃ rows saved entry r,
    closedLoop liftingEnv liftingTrigger liftingArgs (liftingShared 7) = .ok (rows, saved) ∧
      saved.lookup "jepa" = some entry ∧ entry.clean[1]? = some r ∧ r.seed = 10001 ∧
      r.replanSteps = [4] := by
  have returns : (closedLoop liftingEnv liftingTrigger liftingArgs (liftingShared 7)).isOk =
      true := by decide +kernel
  obtain ⟨⟨rows, saved⟩, ran⟩ := Fallible.exists_eq_ok returns
  obtain ⟨result, computed, seed, replans⟩ := liftingRun_fires.exists_eq_ok
  obtain ⟨-, -, facts⟩ := closedLoop_saves_fresh_runs resetDetermined_lifting
    liftingTrigger_forgets liftingArgs (liftingShared 7) (liftingShared 0)
  obtain ⟨-, keys, records, -⟩ := facts rows saved ran
  obtain ⟨entry, found⟩ := Option.isSome_iff_exists.mp
    ((keys "jepa").mpr (by decide +kernel))
  obtain ⟨-, r, stored, single⟩ := (records "jepa" entry found).2 1 (by decide)
  obtain rfl := Except.ok.inj (computed.symm.trans single)
  exact ⟨rows, saved, entry, _, ran, found, stored, seed, replans⟩

theorem closedLoop_extends_lifting : ∃ rows saved rows' saved',
    closedLoop liftingEnv liftingTrigger { n := 1, conds := some "oracle, fixed" }
        (liftingShared 7) = .ok (rows, saved) ∧
      closedLoop liftingEnv liftingTrigger { n := 2, conds := some "fixed" } (liftingShared 0) =
        .ok (rows', saved') ∧
      ∃ entry entry', saved.lookup "fixed" = some entry ∧ saved'.lookup "fixed" = some entry' ∧
        entry.perturbed = entry'.perturbed.take 1 := by
  have returns : (closedLoop liftingEnv liftingTrigger { n := 1, conds := some "oracle, fixed" }
      (liftingShared 7)).isOk = true := by decide +kernel
  have returns' : (closedLoop liftingEnv liftingTrigger { n := 2, conds := some "fixed" }
      (liftingShared 0)).isOk = true := by decide +kernel
  obtain ⟨⟨rows, saved⟩, ran⟩ := Fallible.exists_eq_ok returns
  obtain ⟨⟨rows', saved'⟩, ran'⟩ := Fallible.exists_eq_ok returns'
  obtain ⟨entry, found⟩ := exists_lookup_saved resetDetermined_lifting liftingTrigger_forgets ran
    (show "fixed" ∈ _ by decide +kernel)
  obtain ⟨entry', found'⟩ := exists_lookup_saved resetDetermined_lifting liftingTrigger_forgets
    ran' (show "fixed" ∈ _ by decide +kernel)
  have begins := closedLoop_extends resetDetermined_lifting liftingTrigger_forgets
    { n := 1, conds := some "oracle, fixed" } (show 1 ≤ 2 by decide) (some "fixed") ran ran'
    found found'
  exact ⟨rows, saved, rows', saved', ran, ran', entry, entry', found, found', begins.1⟩

end G1Jepa
