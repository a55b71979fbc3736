import G1Jepa.Counterfactual
import Mathlib.Data.List.MinMax
import Mathlib.Data.Option.Defs

/-!
# The loader of the figures

`load` of `make_figures2.py` keeps one logged step of every perturbed run: the one with the largest
raw error shortly after the perturbation. That step has the largest z value as well while the run
stays in one state bucket, but the statistics of another bucket may turn the order round.
-/

namespace G1Jepa

variable {K E R Row Z : Type} {D : ℕ}

/-- The record of a perturbed run. -/
structure FigureRecord (K : Type) where
  run : ℕ
  seed : ℕ
  perturbStep : ℕ
  bucket : ℤ
  fallback : Bool
  err : K
  mu : NanOr K
  sd : NanOr K
  z : NanOr K
  detected : Bool
  latency : Option ℤ
  success : Bool

/-- `win`: the logged steps up to eight steps after step `p`. -/
def windowFrom (p : ℕ) (log : List (DbgRow K)) : List (DbgRow K) :=
  log.filter fun x => decide (p ≤ x.t ∧ x.t ≤ p + 8)

/-- The runs of some files, file by file, each with the number of its file. -/
def numberedRuns (files : List (List (RunResult K Row))) : List (ℕ × RunResult K Row) :=
  files.zipIdx.flatMap fun file => file.1.map (file.2, ·)

section Load

variable [LinearOrder K]

/-- The record of a run for the step `x` of its window. -/
def figureRecord (ri p : ℕ) (r : RunResult K Row) (x : DbgRow K) : FigureRecord K where
  run := ri
  seed := r.seed
  perturbStep := p
  bucket := x.bucket
  fallback := x.fallback
  err := x.e
  mu := x.mu
  sd := x.sd
  z := x.z
  detected := r.triggerLatency.any fun l => decide (l ≤ 10)
  latency := r.triggerLatency
  success := r.success

/-- The body of the inner loop: `none` is the `TypeError` of a comparison with a missing step, and
an inner `none` is `continue`. -/
def loadRun (ri : ℕ) (r : RunResult K Row) : Option (Option (FigureRecord K)) :=
  if !r.perturbed || (r.dbgLog.getD []).isEmpty then some none
  else do
    let p ← r.perturbStep
    some (((windowFrom p (r.dbgLog.getD [])).argmax DbgRow.e).map (figureRecord ri p r))

/-- The records of the perturbed runs of some files. -/
def load (files : List (List (RunResult K Row))) : Option (List (FigureRecord K)) := do
  let recs ← (numberedRuns files).mapM fun source => loadRun source.1 source.2
  some (recs.filterMap id)

end Load

/-- The window of a run, empty without a perturbation or a log. -/
def runWindow (r : RunResult K Row) : List (DbgRow K) :=
  (r.perturbStep.map fun p => windowFrom p (r.dbgLog.getD [])).getD []

/-- The run is perturbed and has a step in the window. -/
def isPlotted (r : RunResult K Row) : Bool :=
  r.perturbed && !(runWindow r).isEmpty

def plottedRuns (files : List (List (RunResult K Row))) : List (ℕ × RunResult K Row) :=
  (numberedRuns files).filter fun source => isPlotted source.2

/-! ## The first largest error -/

section Largest

variable {α : Type} [LinearOrder K] {f : α → K}

/-- The first of the items with the largest value. -/
def FirstLargest (f : α → K) (xs : List α) (x : α) : Prop :=
  ∃ before after, xs = before ++ x :: after ∧ (∀ y ∈ before, f y < f x) ∧ ∀ y ∈ after, f y ≤ f x

theorem firstLargest_cons {x first : α} {rest : List α} :
    FirstLargest f (first :: rest) x ↔
      (x = first ∧ ∀ y ∈ rest, f y ≤ f first) ∨ (f first < f x ∧ FirstLargest f rest x) := by
  constructor
  · rintro ⟨before, after, split, below, notAbove⟩
    cases before with
    | nil =>
        obtain ⟨rfl, rfl⟩ := List.cons.inj split
        exact .inl ⟨rfl, notAbove⟩
    | cons head before =>
        obtain ⟨rfl, rfl⟩ := List.cons.inj split
        rw [List.forall_mem_cons] at below
        exact .inr ⟨below.1, before, after, rfl, below.2, notAbove⟩
  · rintro (⟨rfl, notAbove⟩ | ⟨less, before, after, rfl, below, notAbove⟩)
    · exact ⟨[], rest, rfl, nofun, notAbove⟩
    · exact ⟨first :: before, after, rfl, List.forall_mem_cons.mpr ⟨less, below⟩, notAbove⟩

theorem FirstLargest.le {xs : List α} {x : α} (first : FirstLargest f xs x) :
    x ∈ xs ∧ ∀ y ∈ xs, f y ≤ f x := by
  obtain ⟨before, after, rfl, below, notAbove⟩ := first
  refine ⟨List.mem_append_right _ List.mem_cons_self, fun y member => ?_⟩
  rcases List.mem_append.mp member with earlier | later
  · exact (below y earlier).le
  · rcases List.mem_cons.mp later with rfl | beyond
    · exact le_rfl
    · exact notAbove y beyond

/-- `max` returns the first of the items with the largest key. -/
theorem argmax_eq_some_iff {xs : List α} {x : α} :
    xs.argmax f = some x ↔ FirstLargest f xs x := by
  induction xs generalizing x with
  | nil =>
      refine iff_of_false nofun ?_
      rintro ⟨before, after, split, -⟩
      simp at split
  | cons first rest induction =>
      rw [List.argmax_cons, firstLargest_cons]
      cases found : rest.argmax f with
      | none =>
          obtain rfl := List.argmax_eq_none.mp found
          constructor
          · intro same
            exact .inl ⟨(Option.some.inj same).symm, nofun⟩
          · rintro (⟨rfl, -⟩ | ⟨-, largest⟩)
            · rfl
            · cases induction.mpr largest
      | some best =>
          have largest := induction.mp found
          dsimp only
          split
          case isTrue less =>
            constructor
            · intro same
              obtain rfl := Option.some.inj same
              exact .inr ⟨less, largest⟩
            · rintro (⟨rfl, notAbove⟩ | ⟨-, other⟩)
              · exact absurd less (notAbove best largest.le.1).not_gt
              · exact found.symm.trans (induction.mpr other)
          case isFalse notLess =>
            constructor
            · intro same
              obtain rfl := Option.some.inj same
              exact .inl ⟨rfl, fun y member => (largest.le.2 y member).trans (not_lt.mp notLess)⟩
            · rintro (⟨rfl, -⟩ | ⟨less, other⟩)
              · rfl
              · obtain rfl := Option.some.inj (found.symm.trans (induction.mpr other))
                exact absurd less notLess

theorem FirstLargest.unique {xs : List α} {x y : α} (first : FirstLargest f xs x)
    (second : FirstLargest f xs y) : x = y :=
  Option.some.inj ((argmax_eq_some_iff.mpr first).symm.trans (argmax_eq_some_iff.mpr second))

end Largest

/-! ## The peak -/

section Peak

variable [Field K] [LinearOrder K]

/-- `z` is the largest z value of some logged steps. -/
def IsPeak (z : NanOr K) (win : List (DbgRow K)) : Prop :=
  ∃ peak, z = some peak ∧ IsGreatest {value | ∃ x ∈ win, x.z = some value} peak

/-- Every logged error is standardised with the statistics of its bucket, and their deviations are
positive where they are numbers. -/
def Standardised (log : List (DbgRow K)) : Prop :=
  ∃ par : ℤ → NanOr K × NanOr K, (∀ b sd, (par b).2 = some sd → 0 < sd) ∧
    ∀ x ∈ log, StandardisedBy par x

/-- The first largest error has a z value, and in no other bucket is a z value above it. -/
def OtherBucketsBelow (win : List (DbgRow K)) : Prop :=
  ∀ x, FirstLargest DbgRow.e win x → ∃ value, x.z = some value ∧
    ∀ y ∈ win, y.bucket ≠ x.bucket → y.z.exceeds value = false

omit [Field K] in
/-- A threshold that a peak does not exceed is exceeded nowhere. -/
theorem IsPeak.not_exceeds {z : NanOr K} {win : List (DbgRow K)} (peak : IsPeak z win) {kappa : K}
    (below : z.exceeds kappa = false) {x : DbgRow K} (member : x ∈ win) :
    x.z.exceeds kappa = false := by
  obtain ⟨value, rfl, -, upper⟩ := peak
  cases found : x.z with
  | none => rfl
  | some number =>
      rw [NanOr.exceeds_some, decide_eq_false_iff_not, not_lt] at below ⊢
      exact (upper ⟨x, member, found⟩).trans below

/-- In one bucket the z values are ordered as the errors. -/
theorem standardise_le [IsStrictOrderedRing K] {e e' z z' : K} {pair : NanOr K × NanOr K}
    (positive : ∀ sd, pair.2 = some sd → 0 < sd) (ordered : e ≤ e')
    (score : standardise e pair = some z) (score' : standardise e' pair = some z') : z ≤ z' := by
  obtain ⟨mu, sd⟩ := pair
  cases mu with
  | none => contradiction
  | some mu =>
      cases sd with
      | none => contradiction
      | some sd =>
          obtain rfl := Option.some.inj score
          obtain rfl := Option.some.inj score'
          exact div_le_div_of_nonneg_right (sub_le_sub_right ordered mu) (positive sd rfl).le

/-- The step with the first largest error has the peak exactly when no other bucket beats it. -/
theorem isPeak_iff [IsStrictOrderedRing K] {win : List (DbgRow K)} (standardised : Standardised win)
    {x : DbgRow K} (largest : FirstLargest DbgRow.e win x) :
    IsPeak x.z win ↔ OtherBucketsBelow win := by
  obtain ⟨par, positive, rows⟩ := standardised
  obtain ⟨member, greatest⟩ := largest.le
  constructor
  · rintro ⟨peak, found, -, upper⟩ x' largest'
    obtain rfl := largest.unique largest'
    refine ⟨peak, found, fun y inside _ => ?_⟩
    cases score : y.z with
    | none => rfl
    | some value =>
        rw [NanOr.exceeds_some, decide_eq_false_iff_not, not_lt]
        exact upper ⟨y, inside, score⟩
  · intro below
    obtain ⟨peak, found, others⟩ := below x largest
    refine ⟨peak, found, ⟨x, member, found⟩, ?_⟩
    rintro value ⟨y, inside, score⟩
    by_cases same : y.bucket = x.bucket
    · have scoreY := (rows y inside).z
      rw [same] at scoreY
      exact standardise_le (positive x.bucket) (greatest y inside) (scoreY.symm.trans score)
        ((rows x member).z.symm.trans found)
    · have notAbove := others y inside same
      rwa [score, NanOr.exceeds_some, decide_eq_false_iff_not, not_lt] at notAbove

/-- `z` is the largest z value, so that a threshold it does not exceed is exceeded nowhere. -/
def BestChance (z : NanOr K) (win : List (DbgRow K)) : Prop :=
  IsPeak z win ∧ ∀ kappa, z.exceeds kappa = false → ∀ x ∈ win, x.z.exceeds kappa = false

omit [Field K] in
theorem bestChance_iff {z : NanOr K} {win : List (DbgRow K)} : BestChance z win ↔ IsPeak z win :=
  and_iff_left_of_imp fun peak _ below _ member => peak.not_exceeds below member

end Peak

/-! ## The runs in the files -/

section Files

variable [Field K] [LinearOrder K]

/-- What `run_episode` guarantees of the fields that `load` reads. -/
structure WrittenRun (r : RunResult K Row) : Prop where
  perturbed : r.perturbed = r.perturbStep.isSome
  standardised : Standardised (r.dbgLog.getD [])

omit [LinearOrder K] in
/-- A decision leaves the trigger alone or calls it. -/
theorem decideReplan_trigger {σ : Type} {setting : ReplanSetting K E σ}
    {trigger after : Option σ} {t : ℕ} {fired doReplan : Bool} {sim : E}
    {policy : ScriptedPickPlace K}
    (decided : decideReplan setting trigger t fired sim policy = .ok (doReplan, after)) :
    after = trigger ∨ ∃ st st' requested, trigger = some st ∧ after = some st' ∧
      setting.trigger.call st t sim policy = .ok (requested, st') := by
  rw [decideReplan.eq_def] at decided
  split at decided
  case h_1 => exact .inl (Prod.mk.inj (Except.ok.inj decided)).2.symm
  case h_2 =>
    split at decided
    case isTrue => exact .inl (Prod.mk.inj (Except.ok.inj decided)).2.symm
    case isFalse =>
      split at decided
      case isTrue => contradiction
      case isFalse => exact .inl (Prod.mk.inj (Except.ok.inj decided)).2.symm
  case h_3 => exact .inl (Prod.mk.inj (Except.ok.inj decided)).2.symm
  case h_4 =>
    cases trigger with
    | none => exact .inl (Prod.mk.inj (Except.ok.inj decided)).2.symm
    | some st =>
        obtain ⟨⟨requested, st'⟩, called, returned⟩ := Fallible.bind_eq_ok.mp decided
        exact .inr ⟨st, st', requested, rfl, (Prod.mk.inj (Except.ok.inj returned)).2.symm, called⟩
  case h_5 => contradiction

/-- A decision keeps the rows of the log, and the trigger may append one. -/
theorem rows_of_decideReplan {env : Env K E R Row} {encoder : VideoEncoder (List Row) Z K D}
    {cfg : TriggerConfig K} {setting : ReplanSetting K E (TriggerState Row K D cfg)}
    {trigger after : Option (TriggerState Row K D cfg)} {t : ℕ} {fired doReplan : Bool} {sim : E}
    {policy : ScriptedPickPlace K} (calls : setting.trigger = jepaTrigger env encoder cfg)
    (rows : ∀ x ∈ triggerLog trigger, StandardisedBy cfg.lookup x)
    (decided : decideReplan setting trigger t fired sim policy = .ok (doReplan, after)) :
    ∀ x ∈ triggerLog after, StandardisedBy cfg.lookup x := by
  rcases decideReplan_trigger decided with rfl | ⟨st, st', requested, rfl, rfl, called⟩
  · exact rows
  · rw [calls] at called
    rcases step_dbgLog called with ⟨same, -⟩ | ⟨row, logged, standardised, -⟩
    · change ∀ x ∈ st'.dbgLog, _
      rw [same]
      exact rows
    · change ∀ x ∈ st'.dbgLog, _
      rw [logged, List.forall_mem_append]
      exact ⟨rows, List.forall_mem_singleton.mpr standardised⟩

/-- The record of every run with the trigger of `jepa_trigger.py` is such a run. -/
theorem writtenRun_of_runEpisode {env : Env K E R Row} {encoder : VideoEncoder (List Row) Z K D}
    {cfg : TriggerConfig K} {setting : ReplanSetting K E (TriggerState Row K D cfg)}
    {args : EpisodeArgs K} {s sim : E} {r : RunResult K Row}
    {trigger : Option (TriggerState Row K D cfg)}
    (positive : ∀ b sd, (cfg.lookup b).2 = some sd → 0 < sd)
    (calls : setting.trigger = jepaTrigger env encoder cfg)
    (ran : runEpisode env setting args s = .ok (r, sim, trigger)) : WrittenRun r := by
  obtain ⟨state, left, looped, rfl, -⟩ := exists_runLoop ran
  obtain ⟨t, -, recorded, rows⟩ : ∃ t ≤ args.maxSteps,
      Recorded setting.condition t state.episode ∧
        ∀ x ∈ triggerLog state.trigger, StandardisedBy cfg.lookup x := by
    refine @ForRange.exists_invariant _ _ (runStep env setting) (runStart env setting args s)
      (fun t state => Recorded setting.condition t state.episode ∧
        ∀ x ∈ triggerLog state.trigger, StandardisedBy cfg.lookup x) ?_ ?_ args.maxSteps state
      left looped
    · refine ⟨recorded_start setting.condition args s, ?_⟩
      simp only [runStart, calls]
      cases setting.triggerState <;> exact List.forall_mem_nil _
    · rintro t before after left - ⟨recorded, rows⟩ ran
      obtain ⟨doReplan, decided, -⟩ := runStep_eq_ok ran
      exact ⟨(recorded.next ran).1, rows_of_decideReplan calls rows decided⟩
  refine ⟨recorded.fired, cfg.lookup, positive, ?_⟩
  rw [dbgLog_runResult calls]
  exact rows

/-- A traversal that skips some items and keeps a result for each of the others. -/
theorem exists_mapM_filterMap {α β : Type} {f : α → Option (Option β)} {keep : α → Bool}
    {Related : α → β → Prop} {items : List α}
    (skipped : ∀ x ∈ items, keep x = false → f x = some none)
    (kept : ∀ x ∈ items, keep x = true → ∃ y, f x = some (some y) ∧ Related x y) :
    ∃ results, items.mapM f = some results ∧
      List.Forall₂ Related (items.filter keep) (results.filterMap id) := by
  induction items with
  | nil => exact ⟨[], rfl, .nil⟩
  | cons x items induction =>
      rw [List.forall_mem_cons] at skipped kept
      obtain ⟨results, traversed, related⟩ := induction skipped.2 kept.2
      cases keeps : keep x with
      | false =>
          refine ⟨none :: results, ?_, ?_⟩
          · rw [List.mapM_cons, skipped.1 keeps, traversed]
            rfl
          · rw [List.filter_cons_of_neg (by simp [keeps])]
            exact related
      | true =>
          obtain ⟨y, ran, holds⟩ := kept.1 keeps
          refine ⟨some y :: results, ?_, ?_⟩
          · rw [List.mapM_cons, ran, traversed]
            rfl
          · rw [List.filter_cons_of_pos keeps]
            exact .cons holds related

omit [Field K] in
/-- The body of the loop skips a run without a step in the window. -/
theorem loadRun_skipped (ri : ℕ) {r : RunResult K Row}
    (perturbed : r.perturbed = r.perturbStep.isSome)
    (unplotted : isPlotted r = false) : loadRun ri r = some none := by
  rw [isPlotted] at unplotted
  rw [loadRun]
  split
  case isTrue => rfl
  case isFalse logged =>
    simp only [Bool.or_eq_true, Bool.not_eq_true', not_or, Bool.not_eq_false] at logged
    rw [logged.1] at perturbed unplotted
    obtain ⟨p, fires⟩ := Option.isSome_iff_exists.mp perturbed.symm
    have empty : windowFrom p (r.dbgLog.getD []) = [] := by
      simpa [runWindow, fires] using unplotted
    rw [fires, Option.bind_eq_bind, Option.bind_some, empty]
    rfl

omit [Field K] in
/-- Of any other run it keeps the step with the first largest error. -/
theorem loadRun_plotted (ri : ℕ) {r : RunResult K Row} (plotted : isPlotted r = true) :
    ∃ x record, FirstLargest DbgRow.e (runWindow r) x ∧ loadRun ri r = some (some record) ∧
      record.run = ri ∧ record.seed = r.seed ∧ record.z = x.z := by
  rw [isPlotted, Bool.and_eq_true, Bool.not_eq_true', List.isEmpty_eq_false_iff] at plotted
  obtain ⟨perturbed, nonempty⟩ := plotted
  cases fires : r.perturbStep with
  | none => simp [runWindow, fires] at nonempty
  | some p =>
      have window : runWindow r = windowFrom p (r.dbgLog.getD []) := by
        rw [runWindow, fires]
        rfl
      have logged : (r.dbgLog.getD []).isEmpty = false := by
        rw [List.isEmpty_eq_false_iff]
        intro empty
        rw [window, empty] at nonempty
        exact nonempty rfl
      rw [window] at nonempty ⊢
      cases found : (windowFrom p (r.dbgLog.getD [])).argmax DbgRow.e with
      | none => exact absurd (List.argmax_eq_none.mp found) nonempty
      | some x =>
          refine ⟨x, figureRecord ri p r x, argmax_eq_some_iff.mp found, ?_, rfl, rfl, rfl⟩
          rw [loadRun, perturbed, logged, fires, Option.bind_eq_bind, Option.bind_some, found]
          rfl

theorem standardised_runWindow {r : RunResult K Row}
    (standardised : Standardised (r.dbgLog.getD [])) : Standardised (runWindow r) := by
  obtain ⟨par, positive, rows⟩ := standardised
  refine ⟨par, positive, fun x member => ?_⟩
  cases fires : r.perturbStep with
  | none => simp [runWindow, fires] at member
  | some p =>
      rw [runWindow, fires, Option.map_some, Option.getD_some] at member
      exact rows x (List.mem_of_mem_filter member)

/-- The record of every plotted run has the largest z value of its window exactly when no other
bucket has a z value above the one of the first largest error. -/
theorem load_bestChance_iff [IsStrictOrderedRing K] {files : List (List (RunResult K Row))}
    (written : ∀ file ∈ files, ∀ r ∈ file, WrittenRun r) :
    ∃ records, load files = some records ∧
      List.Forall₂ (fun source record => record.run = source.1 ∧ record.seed = source.2.seed ∧
        (BestChance record.z (runWindow source.2) ↔ OtherBucketsBelow (runWindow source.2)))
        (plottedRuns files) records := by
  have writtenRun : ∀ source ∈ numberedRuns files, WrittenRun source.2 := by
    intro source member
    obtain ⟨⟨file, ri⟩, numbered, inside⟩ := List.mem_flatMap.mp member
    obtain ⟨r, run, rfl⟩ := List.mem_map.mp inside
    exact written file (List.fst_mem_of_mem_zipIdx numbered) r run
  have skipped : ∀ source ∈ numberedRuns files, isPlotted source.2 = false →
      loadRun source.1 source.2 = some none := by
    intro source member unplotted
    exact loadRun_skipped source.1 (writtenRun source member).perturbed unplotted
  have kept : ∀ source ∈ numberedRuns files, isPlotted source.2 = true →
      ∃ record, loadRun source.1 source.2 = some (some record) ∧ record.run = source.1 ∧
        record.seed = source.2.seed ∧
        (BestChance record.z (runWindow source.2) ↔ OtherBucketsBelow (runWindow source.2)) := by
    intro source member plotted
    obtain ⟨x, record, largest, ran, run, seed, z⟩ := loadRun_plotted source.1 plotted
    refine ⟨record, ran, run, seed, ?_⟩
    rw [bestChance_iff, z]
    exact isPeak_iff (standardised_runWindow (writtenRun source member).standardised) largest
  obtain ⟨results, traversed, related⟩ := exists_mapM_filterMap skipped kept
  refine ⟨results.filterMap id, ?_, related⟩
  rw [load, traversed]
  rfl

end Files

/-! ## Runs under two buckets -/

/-- A calibration in which the errors before the descent deviate ten times as much as in it. -/
def bucketsConfig : TriggerConfig ℚ :=
  { flatConfig with buckets := Dict.ofItems [(3, (some 0, some 10)), (4, (some 0, some 1))] }

def bucketsSetting (times : List ℕ) :
    ReplanSetting ℚ ℕ (TriggerState Unit ℚ 1 bucketsConfig) where
  condition := .jepa
  trigger := jepaTrigger timedEnv (spikeEncoder times) bucketsConfig
  triggerState := some (OnlineJepaTrigger.reset bucketsConfig)

/-- The record of a run that is perturbed in step `24`. -/
def bucketsRun (times : List ℕ) : Except PyError (RunResult ℚ Unit) := do
  let run ← runEpisode timedEnv (bucketsSetting times) { maxSteps := 32 } 0
  .ok run.1

theorem writtenRun_of_bucketsRun {times : List ℕ} {r : RunResult ℚ Unit}
    (ran : bucketsRun times = .ok r) : WrittenRun r := by
  obtain ⟨⟨record, sim, trigger⟩, episode, returned⟩ := Fallible.bind_eq_ok.mp ran
  obtain rfl := Except.ok.inj returned
  refine writtenRun_of_runEpisode ?_ rfl episode
  intro b sd found
  change ((bucketsConfig.buckets.lookup b).getD (some 0, some 1)).2 = some sd at found
  cases stored : bucketsConfig.buckets.lookup b with
  | none =>
      rw [stored] at found
      obtain rfl := Option.some.inj found
      exact one_pos
  | some pair =>
      rw [stored] at found
      have assigned := Dict.mem_of_mem_items_ofItems (Dict.mem_items.mpr stored)
      rcases List.mem_pair.mp assigned with same | same
      all_goals
        obtain ⟨-, rfl⟩ := Prod.mk.inj same
        obtain rfl := Option.some.inj found
        decide

/-- After one jump, in the step of the perturbation, the largest error has the largest z value. -/
theorem load_bestChance_iff_one_jump :
    ∃ r record, bucketsRun [24] = .ok r ∧ load [[r]] = some [record] ∧
      BestChance record.z (runWindow r) := by
  have run : Fallible.Returns (bucketsRun [24]) fun r =>
      isPlotted r = true ∧
        ((runWindow r).argmax DbgRow.e).bind DbgRow.z = some 2 ∧
        ∀ y ∈ runWindow r, NanOr.exceeds y.z 2 = false := by
    decide +kernel
  obtain ⟨r, ran, plotted, peak, below⟩ := run.exists_eq_ok
  have written : ∀ file ∈ [[r]], ∀ r ∈ file, WrittenRun r := by
    rw [List.forall_mem_singleton, List.forall_mem_singleton]
    exact writtenRun_of_bucketsRun ran
  have others : OtherBucketsBelow (runWindow r) := by
    intro x largest
    rw [argmax_eq_some_iff.mpr largest, Option.bind_some] at peak
    exact ⟨2, peak, fun y member _ => below y member⟩
  obtain ⟨records, loaded, related⟩ := load_bestChance_iff written
  have only : plottedRuns [[r]] = [(0, r)] := List.filter_cons_of_pos plotted
  rw [only] at related
  cases related with
  | cons first rest =>
      obtain ⟨-, -, best⟩ := first
      obtain rfl := List.forall₂_nil_left_iff.mp rest
      exact ⟨r, _, ran, loaded, best.mpr others⟩

/-- With a second jump, in the descent, the largest error is standardised to `2` and a later one to
`10`, although the threshold is `7 / 2`. -/
theorem load_misses_peak :
    ∃ r record, bucketsRun [24, 30] = .ok r ∧ WrittenRun r ∧ load [[r]] = some [record] ∧
      record.z = some 2 ∧ record.z.exceeds replayKappa = false ∧
      (∃ x ∈ runWindow r, x.z = some 10 ∧ x.z.exceeds replayKappa = true) ∧
      ¬BestChance record.z (runWindow r) := by
  have run : Fallible.Returns (bucketsRun [24, 30]) fun r =>
      ((load [[r]]).getD []).map FigureRecord.z = [some 2] ∧
        ∃ x ∈ runWindow r, x.z = some 10 ∧ x.z.exceeds replayKappa = true := by
    decide +kernel
  obtain ⟨r, ran, plotted, x, member, score, crossed⟩ := run.exists_eq_ok
  have under : NanOr.exceeds (some 2) (replayKappa : ℚ) = false := by decide +kernel
  obtain ⟨record, only, z⟩ := List.map_eq_singleton_iff.mp plotted
  have loaded : load [[r]] = some [record] := by
    cases found : load [[r]] with
    | none => simp [found] at only
    | some records => exact congrArg some ((congrArg (·.getD []) found).symm.trans only)
  refine ⟨r, record, ran, writtenRun_of_bucketsRun ran, loaded, z, ?_, ⟨x, member, score, crossed⟩,
    ?_⟩
  · rw [z]
    exact under
  · rintro ⟨-, notCrossed⟩
    rw [z] at notCrossed
    exact Bool.noConfusion (crossed.symm.trans (notCrossed replayKappa under x member))

end G1Jepa
