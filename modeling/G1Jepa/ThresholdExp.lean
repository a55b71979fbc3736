import G1Jepa.Counterfactual
import G1Jepa.Evaluate

/-!
# The threshold experiment

`threshold_exp.py` varies the thresholds of a detector that it computes from its own loops. Its
unmodified thresholds treat a bucket by its own statistics however few samples it has and never
alarm in a bucket without samples; `evaluate` falls back to the statistics of all samples in both
cases.
-/

namespace G1Jepa

variable {K : Type} [Field K] [LinearOrder K] {D : ℕ}

/-- The constants at the head of the script. -/
structure ThresholdConsts where
  name : FeatureName := .grid
  k : ℕ := 1
  metric : Metric := .abs
  warmup : ℕ := 16

/-- The arguments that thin out the steps of an episode. -/
structure StepChoice where
  every : ℕ+ := 1
  ph0 : ℕ := 0
  tmin : ℕ := 0

/-- A triple that `steps` returns. -/
structure ThresholdStep (K : Type) where
  t : ℕ
  bucket : ℤ
  e : K

/-- A printed row. -/
structure ThresholdRow (K : Type) where
  fp : NanOr K
  le5 : NanOr K
  le10 : NanOr K

namespace ThresholdConsts

variable (consts : ThresholdConsts) (np : Numpy K)

/-- The valid steps of an episode. -/
def steps (choice : StepChoice) (ep : Latents K D) : List (ThresholdStep K) :=
  let out := (errorRows np ep consts.name consts.k consts.metric).filterMap fun row =>
    if row.masked consts.warmup || decide (row.t < choice.tmin) then none
    else row.e.map fun e => ⟨row.t, bucket row.phase row.phaseStep, e⟩
  if choice.every = 1 then out
  else out.filter fun x => x.t % (choice.every : ℕ) == choice.ph0

/-- `by_b`: the calibration errors of each bucket. -/
def byB (calib : List (Latents K D)) : Dict ℤ (List K) :=
  Dict.group ((calib.flatMap (consts.steps np {})).map fun x => (x.bucket, x.e))

/-- `{b: mu[b] + kappa * sd[b] for b in mu}`, where `kappa` may depend on the bucket. -/
def thresholds (calib : List (Latents K D)) (kappa : ℤ → K) : Dict ℤ (NanOr K) :=
  Dict.ofItems ((Dict.items (consts.byB np calib)).map fun item =>
    (item.1, do
      let mu ← Numpy.mean item.2
      let sd ← np.std item.2
      some (mu + kappa item.1 * sd)))

def base (calib : List (Latents K D)) : Dict ℤ (NanOr K) :=
  consts.thresholds np calib fun _ => 35 / 10

/-- `ei > thr.get(b, np.inf)`. -/
def alarms (thr : Dict ℤ (NanOr K)) (x : ThresholdStep K) : Bool :=
  match thr.lookup x.bucket with
  | none => false
  | some line => line.below x.e

def fpEp (val : List (Latents K D)) (thr : Dict ℤ (NanOr K)) (choice : StepChoice) : NanOr K :=
  Numpy.share val fun ep => (consts.steps np choice ep).any (alarms thr)

def detect (pert : List (Latents K D)) (thr : Dict ℤ (NanOr K)) (win : ℤ) (choice : StepChoice) :
    NanOr K :=
  Numpy.share pert fun ep =>
    let hit := ((consts.steps np choice ep).filter fun x =>
      decide (ep.perturbStep ≤ x.t) && alarms thr x).map ThresholdStep.t
    hit.min?.any fun first : ℕ => decide ((first : ℤ) - ep.perturbStep ≤ win)

def row (val pert : List (Latents K D)) (thr : Dict ℤ (NanOr K)) (choice : StepChoice) :
    ThresholdRow K where
  fp := consts.fpEp np val thr choice
  le5 := consts.detect np pert thr 5 choice
  le10 := consts.detect np pert thr 10 choice

/-- The two tables of the script: later first steps, and lower thresholds in bucket 3. -/
def tables (clean pert : List (Latents K D)) : List (ThresholdRow K) × List (ThresholdRow K) :=
  let calib := clean.take 100
  let val := (clean.drop 100).take 100
  ([0, 16, 18, 20, 22].map fun tmin => consts.row np val pert (consts.base np calib) { tmin },
    [35 / 10, 25 / 10, 2].map fun k3 =>
      consts.row np val pert
        (consts.thresholds np calib fun b => if b = 3 then k3 else 35 / 10) {})

/-- The detector that the script claims to vary. -/
def detector : DetectorArgs where
  name := consts.name
  k := consts.k
  metric := consts.metric
  consec := 1
  warmup := consts.warmup

end ThresholdConsts

/-! ## The two verdicts on a step -/

/-- The statistics of a bucket, however few samples it has. -/
def ownPair (np : Numpy K) (samples : List (ℤ × K)) (b : ℤ) : NanOr K × NanOr K :=
  (Numpy.mean (Dict.samplesOf samples b), np.std (Dict.samplesOf samples b))

/-- The statistics of all samples, to which `calibrate` falls back. -/
def globalPair (np : Numpy K) (samples : List (ℤ × K)) : NanOr K × NanOr K :=
  (Numpy.mean (samples.map Prod.snd), regularisedStd np (samples.map Prod.snd))

/-- An error is judged alike: in a bucket with 15 samples the regulariser makes no difference, in
one with fewer its own statistics and those of all samples agree, and in one without samples the
error is not above the line of all samples. -/
structure SameVerdict (np : Numpy K) (samples : List (ℤ × K)) (b : ℤ) (e : K) : Prop where
  populated : 15 ≤ (Dict.samplesOf samples b).length → aboveLine e (ownPair np samples b) = true →
    aboveLine e (bucketPair np samples b) = true
  sparse : Dict.samplesOf samples b ≠ [] → (Dict.samplesOf samples b).length < 15 →
    aboveLine e (ownPair np samples b) = aboveLine e (globalPair np samples)
  unseen : Dict.samplesOf samples b = [] → aboveLine e (globalPair np samples) = false

theorem aboveLine_eq_true {e : K} {pair : NanOr K × NanOr K} :
    aboveLine e pair = true ↔
      ∃ mu sd, pair.1 = some mu ∧ pair.2 = some sd ∧ mu + replayKappa * sd < e := by
  obtain ⟨mu, sd⟩ := pair
  cases mu <;> cases sd <;> simp [aboveLine]

section Verdict

variable {np : Numpy K} {samples : List (ℤ × K)} {b : ℤ} {e : K}

theorem bucketPair_of_sparse (few : (Dict.samplesOf samples b).length < 15) :
    bucketPair np samples b = globalPair np samples :=
  if_neg (by omega)

theorem aboveLine_ownPair [IsStrictOrderedRing K] (many : 15 ≤ (Dict.samplesOf samples b).length)
    (above : aboveLine e (bucketPair np samples b) = true) :
    aboveLine e (ownPair np samples b) = true := by
  rw [bucketPair, if_pos many] at above
  obtain ⟨mu, regularised, mean, found, line⟩ := aboveLine_eq_true.mp above
  obtain ⟨sd, deviation, rfl⟩ := Option.map_eq_some_iff.mp found
  apply aboveLine_eq_true.mpr
  refine ⟨mu, sd, mean, deviation, lt_of_le_of_lt ?_ line⟩
  have kappa : (0 : K) ≤ replayKappa := by
    rw [replayKappa]
    positivity
  have regulariser : (0 : K) ≤ 1 / 10 ^ 9 := by positivity
  have wider : replayKappa * sd ≤ replayKappa * (sd + 1 / 10 ^ 9) :=
    mul_le_mul_of_nonneg_left (le_add_of_nonneg_right regulariser) kappa
  exact add_le_add_right wider mu

theorem SameVerdict.eq [IsStrictOrderedRing K] (same : SameVerdict np samples b e) :
    aboveLine e (ownPair np samples b) = aboveLine e (bucketPair np samples b) := by
  rcases Nat.lt_or_ge (Dict.samplesOf samples b).length 15 with few | many
  · rw [bucketPair_of_sparse few]
    by_cases empty : Dict.samplesOf samples b = []
    · rw [same.unseen empty, ownPair, empty]
      rfl
    · exact same.sparse empty few
  · rw [Bool.eq_iff_iff]
    exact ⟨same.populated many, aboveLine_ownPair many⟩

end Verdict

namespace ThresholdConsts

variable {consts : ThresholdConsts} {np : Numpy K}

theorem mem_steps {ep : Latents K D} {x : ThresholdStep K} :
    x ∈ consts.steps np {} ep ↔
      ∃ row ∈ errorRows np ep consts.name consts.k consts.metric,
        row.masked consts.warmup = false ∧ row.e = some x.e ∧ row.t = x.t ∧
          row.bucketOf true = x.bucket := by
  rw [steps, if_pos rfl, List.mem_filterMap]
  refine exists_congr fun row => and_congr_right fun _ => ?_
  have started : decide (row.t < 0) = false := decide_eq_false row.t.not_lt_zero
  rw [started, Bool.or_false]
  cases row.masked consts.warmup with
  | true => simp
  | false =>
      rw [if_neg Bool.false_ne_true, Option.map_eq_some_iff]
      constructor
      · rintro ⟨e, found, rfl⟩
        exact ⟨rfl, found, rfl, rfl⟩
      · rintro ⟨-, found, time, place⟩
        refine ⟨x.e, found, ?_⟩
        cases x
        cases time
        cases place
        rfl

/-- The samples of the calibration episodes. -/
def samples (consts : ThresholdConsts) (np : Numpy K) (calib : List (Latents K D)) :
    List (ℤ × K) :=
  calibrationSamples np calib consts.name consts.k consts.metric consts.warmup

theorem samples_steps (calib : List (Latents K D)) :
    (calib.flatMap (consts.steps np {})).map (fun x => (x.bucket, x.e)) =
      consts.samples np calib := by
  rw [List.map_flatMap, samples, calibrationSamples]
  apply List.flatMap_congr
  intro ep _
  rw [steps, if_pos rfl, List.map_filterMap, rowSamples, calibrateRows, List.filterMap_filter]
  apply List.filterMap_congr
  intro row _
  have started : decide (row.t < 0) = false := decide_eq_false row.t.not_lt_zero
  rw [started, Bool.or_false]
  cases row.masked consts.warmup with
  | true => rfl
  | false =>
      cases row.e <;> rfl

/-- A base threshold is the line of the statistics of its bucket. -/
theorem alarms_base (calib : List (Latents K D)) (x : ThresholdStep K) :
    alarms (consts.base np calib) x =
      aboveLine x.e (ownPair np (consts.samples np calib) x.bucket) := by
  have found := Dict.lookup_ofItems_map (fun values : List K => (do
      let mu ← Numpy.mean values
      let sd ← np.std values
      some (mu + 35 / 10 * sd) : NanOr K)) (consts.byB np calib) x.bucket
  rw [alarms, base, thresholds, found, byB, samples_steps, Dict.lookup_group]
  by_cases empty : Dict.samplesOf (consts.samples np calib) x.bucket = []
  · rw [if_pos empty, ownPair, empty]
    rfl
  · rw [if_neg empty]
    rfl

/-- A z value crosses the threshold at the index of a step whose error is above the line. -/
theorem crosses_zscores_iff [IsStrictOrderedRing K] {calib : List (Latents K D)} {ep : Latents K D}
    {i : ℕ} :
    crosses (consts.detector.zscores np (consts.detector.calibrate np calib) ep) replayKappa i =
        true ↔
      ∃ row e, (errorRows np ep consts.name consts.k consts.metric)[i]? = some row ∧
        row.masked consts.warmup = false ∧ row.e = some e ∧
        aboveLine e (bucketPair np (consts.samples np calib) (row.bucketOf true)) = true := by
  have verdict : ∀ e b, (standardise e ((consts.detector.calibrate np calib).lookup b)).exceeds
      replayKappa = aboveLine e (bucketPair np (consts.samples np calib) b) := by
    intro e b
    have pair : (consts.detector.calibrate np calib).lookup b =
        bucketPair np (consts.samples np calib) b := calibrateSamples_lookup np _ b
    rw [pair]
    exact exceeds_standardise fun sd => bucketPair_snd_pos
  have value : ∀ {row e}, (errorRows np ep consts.name consts.k consts.metric)[i]? = some row →
      row.masked consts.warmup = false → row.e = some e →
      (consts.detector.zscores np (consts.detector.calibrate np calib) ep)[i]? =
        some (standardise e ((consts.detector.calibrate np calib).lookup (row.bucketOf true))) :=
    fun listed used error => zscores_getElem? listed error used
  constructor
  · intro high
    obtain ⟨z, found, above⟩ := (Option.any_eq_true _ _).mp high
    cases z with
    | none => contradiction
    | some number =>
        obtain ⟨row, member, rfl⟩ := used_of_zscore found
        obtain ⟨listed, unmasked⟩ := List.mem_filter.mp member
        have used : row.masked consts.warmup = false := (Bool.not_eq_true' _).mp unmasked
        have row_at : (errorRows np ep consts.name consts.k consts.metric)[row.index]? = some row :=
          (errorRows_getElem?_eq_some np).mpr ⟨rfl, mem_errorRows.mp listed⟩
        obtain ⟨e, error⟩ := Option.isSome_iff_exists.mp (masked_eq_false_iff.mp used).1
        rw [value row_at used error, Option.some.injEq] at found
        rw [← found, verdict] at above
        exact ⟨row, e, row_at, used, error, above⟩
  · rintro ⟨row, e, listed, used, error, above⟩
    rw [crosses_of_getElem? (value listed used error), verdict]
    exact above

/-! ## The two detectors -/

/-- The least hit is soon enough exactly when some hit is. -/
theorem any_min?_iff {hits : List ℕ} {p win : ℤ} :
    (hits.min?.any fun first : ℕ => decide ((first : ℤ) - p ≤ win)) = true ↔
      ∃ t ∈ hits, (t : ℤ) - p ≤ win := by
  cases least : hits.min? with
  | none =>
      rw [List.min?_eq_none_iff] at least
      simp [least]
  | some first =>
      obtain ⟨member, lower⟩ := List.min?_eq_some_iff.mp least
      rw [Option.any_some, decide_eq_true_eq]
      constructor
      · intro bound
        exact ⟨first, member, bound⟩
      · rintro ⟨t, found, bound⟩
        have := lower t found
        omega

section Episode

variable [IsStrictOrderedRing K] {calib : List (Latents K D)} {ep : Latents K D}
  (same : ∀ x ∈ consts.steps np {} ep, SameVerdict np (consts.samples np calib) x.bucket x.e)

include same

theorem exists_crosses_of_alarms {x : ThresholdStep K} (member : x ∈ consts.steps np {} ep)
    (alarm : alarms (consts.base np calib) x = true) :
    ∃ i, ep.t[i]? = some x.t ∧
      crosses (consts.detector.zscores np (consts.detector.calibrate np calib) ep) replayKappa i =
        true := by
  rw [alarms_base, (same x member).eq] at alarm
  obtain ⟨row, listed, used, error, time, place⟩ := mem_steps.mp member
  obtain ⟨i, row_at⟩ := List.mem_iff_getElem?.mp listed
  rw [← place] at alarm
  refine ⟨i, ?_, crosses_zscores_iff.mpr ⟨row, x.e, row_at, used, error, alarm⟩⟩
  rw [((errorRows_getElem?_eq_some np).mp row_at).2.2.1, time]

theorem exists_alarms_of_crosses {i : ℕ} (high : crosses
      (consts.detector.zscores np (consts.detector.calibrate np calib) ep) replayKappa i = true) :
    ∃ x ∈ consts.steps np {} ep, ep.t[i]? = some x.t ∧
      alarms (consts.base np calib) x = true := by
  obtain ⟨row, e, row_at, used, error, above⟩ := crosses_zscores_iff.mp high
  have member : (⟨row.t, row.bucketOf true, e⟩ : ThresholdStep K) ∈ consts.steps np {} ep :=
    mem_steps.mpr ⟨row, List.mem_of_getElem? row_at, used, error, rfl, rfl⟩
  refine ⟨_, member, ((errorRows_getElem?_eq_some np).mp row_at).2.2.1, ?_⟩
  rw [alarms_base, (same _ member).eq]
  exact above

/-- The base thresholds alarm in an episode exactly when `first_run` finds a crossing. -/
theorem any_alarms_base :
    (consts.steps np {} ep).any (alarms (consts.base np calib)) =
      (firstRun (consts.detector.zscores np (consts.detector.calibrate np calib) ep) replayKappa 1
        0).isSome := by
  have first := firstRun_one
    (consts.detector.zscores np (consts.detector.calibrate np calib) ep) replayKappa 0
  rw [Bool.eq_iff_iff, List.any_eq_true]
  cases found : firstRun (consts.detector.zscores np (consts.detector.calibrate np calib) ep)
      replayKappa 1 0 with
  | none =>
      rw [found] at first
      refine iff_of_false ?_ Bool.false_ne_true
      rintro ⟨x, member, alarm⟩
      obtain ⟨i, -, high⟩ := exists_crosses_of_alarms same member alarm
      exact first i ⟨Nat.zero_le i, high⟩
  | some hit =>
      rw [found] at first
      obtain ⟨x, member, -, alarm⟩ := exists_alarms_of_crosses same first.1.2
      exact iff_of_true ⟨x, member, alarm⟩ rfl

/-- The first crossing behind the perturbation is in time exactly when some alarm there is. -/
theorem detectsInTime_iff (ascending : ep.t.Pairwise (· ≤ ·)) :
    DetectsInTime np (consts.detector.calibrate np calib) consts.detector replayKappa ep ↔
      ∃ x ∈ consts.steps np {} ep, ep.perturbStep ≤ x.t ∧
        alarms (consts.base np calib) x = true ∧ (x.t : ℤ) - ep.perturbStep ≤ 10 := by
  have first := firstRun_one (consts.detector.zscores np (consts.detector.calibrate np calib) ep)
    replayKappa (Numpy.searchsorted ep.t ep.perturbStep)
  constructor
  · rintro ⟨i, t, hit, stamp, soon⟩
    have crossing : Debounce.IsFirst _ (some i) := hit ▸ first
    obtain ⟨x, member, time, alarm⟩ := exists_alarms_of_crosses same crossing.1.2
    obtain rfl := Option.some.inj (time.symm.trans stamp)
    exact ⟨x, member, (Numpy.searchsorted_le_iff ascending time).mp crossing.1.1, alarm, soon⟩
  · rintro ⟨x, member, since, alarm, soon⟩
    obtain ⟨j, time, high⟩ := exists_crosses_of_alarms same member alarm
    have later := (Numpy.searchsorted_le_iff ascending time).mpr since
    obtain ⟨i, before, hit⟩ := Debounce.IsFirst.exists_le_of_holds first ⟨later, high⟩
    have crossing : Debounce.IsFirst _ (some i) := hit ▸ first
    obtain ⟨x₀, -, time₀, -⟩ := exists_alarms_of_crosses same crossing.1.2
    have ordered : x₀.t ≤ x.t := Numpy.le_of_getElem? ascending time₀ time before
    exact ⟨i, x₀.t, hit, time₀, by omega⟩

/-- `detect` and `evaluate` count the same episodes. -/
theorem hit_eq_timely (ascending : ep.t.Pairwise (· ≤ ·)) :
    ((((consts.steps np {} ep).filter fun x =>
        decide (ep.perturbStep ≤ x.t) && alarms (consts.base np calib) x).map
          ThresholdStep.t).min?.any fun first : ℕ => decide ((first : ℤ) - ep.perturbStep ≤ 10)) =
      timely (latency np (consts.detector.calibrate np calib) consts.detector replayKappa ep) := by
  rw [Bool.eq_iff_iff, timely_latency_iff, detectsInTime_iff same ascending, any_min?_iff]
  simp only [List.mem_map, List.mem_filter, Bool.and_eq_true, decide_eq_true_eq]
  constructor
  · rintro ⟨-, ⟨x, ⟨member, since, alarm⟩, rfl⟩, bound⟩
    exact ⟨x, member, since, alarm, bound⟩
  · rintro ⟨x, member, since, alarm, bound⟩
    exact ⟨x.t, ⟨x, ⟨member, since, alarm⟩, rfl⟩, bound⟩

end Episode

end ThresholdConsts

/-- One threshold: the count of the episodes with a crossing. -/
theorem falseAlarms_singleton (np : Numpy K) (cal : Calibrated K) (args : DetectorArgs) (kappa : K)
    (pool : List (Latents K D)) : falseAlarms np cal args [kappa] kappa pool =
      pool.countP fun ep => (firstRun (args.zscores np cal ep) kappa args.consec 0).isSome := by
  induction pool with
  | nil => rfl
  | cons ep pool induction =>
      rw [falseAlarms] at induction
      rw [falseAlarms, List.map_cons, List.sum_cons, induction, List.countP_cons, Nat.add_comm]
      simp

theorem latencies_singleton (np : Numpy K) (cal : Calibrated K) (args : DetectorArgs) (kappa : K)
    (pert : List (Latents K D)) :
    latencies np cal args [kappa] kappa pert = pert.map (latency np cal args kappa) := by
  induction pert with
  | nil => rfl
  | cons ep pert induction =>
      rw [latencies] at induction
      rw [latencies, List.flatMap_cons, induction, List.map_cons]
      simp

/-- The figures that the script prints for its unmodified thresholds are those of `evaluate`
without debounce, when there is a validation episode, the time stamps ascend and the two rules
judge every valid step of the validation and of the perturbed episodes alike. -/
theorem threshold_base_eq_evaluate [IsStrictOrderedRing K] (np : Numpy K) (consts : ThresholdConsts)
    {calib val pert : List (Latents K D)} (nonempty : val ≠ [])
    (ascending : ∀ ep ∈ pert, ep.t.Pairwise (· ≤ ·))
    (same : ∀ ep ∈ val ++ pert, ∀ x ∈ consts.steps np {} ep,
      SameVerdict np (consts.samples np calib) x.bucket x.e) :
    (evaluate np consts.detector pert calib [35 / 10] (some val)).map
        (fun row => (some row.fp, row.detect)) =
      [(consts.fpEp np val (consts.base np calib) {},
        consts.detect np pert (consts.base np calib) 10 {})] := by
  have onVal : ∀ ep ∈ val, ∀ x ∈ consts.steps np {} ep,
      SameVerdict np (consts.samples np calib) x.bucket x.e :=
    fun ep member => same ep (List.mem_append_left _ member)
  have onPert : ∀ ep ∈ pert, ∀ x ∈ consts.steps np {} ep,
      SameVerdict np (consts.samples np calib) x.bucket x.e :=
    fun ep member => same ep (List.mem_append_right _ member)
  have fp : some ((falseAlarms np (consts.detector.calibrate np calib) consts.detector
      [replayKappa] replayKappa val : K) / (max 1 val.length : ℕ)) =
      consts.fpEp np val (consts.base np calib) {} := by
    have positive : max 1 val.length = val.length :=
      max_eq_right (List.length_pos_iff.mpr nonempty)
    have count : (val.countP fun ep => (firstRun (consts.detector.zscores np
        (consts.detector.calibrate np calib) ep) replayKappa consts.detector.consec 0).isSome) =
        val.countP fun ep => (consts.steps np {} ep).any
          (ThresholdConsts.alarms (consts.base np calib)) := by
      apply List.countP_congr
      intro ep member
      rw [ThresholdConsts.any_alarms_base (onVal ep member)]
      rfl
    rw [falseAlarms_singleton, positive, count]
    exact ((Numpy.share_eq val _).trans (if_neg nonempty)).symm
  have detect : Numpy.mean ((latencies np (consts.detector.calibrate np calib) consts.detector
      [replayKappa] replayKappa pert).map fun latency => if timely latency then (1 : K) else 0) =
      consts.detect np pert (consts.base np calib) 10 {} := by
    rw [latencies_singleton, List.map_map]
    refine Eq.symm (Numpy.share_congr fun ep member => ?_)
    exact ThresholdConsts.hit_eq_timely (onPert ep member) (ascending ep member)
  exact congrArg (fun row => [row]) (Prod.ext fp detect)

/-- The constants as the script has them. -/
def scriptConsts : ThresholdConsts := {}

/-- A motion of 32 steps whose errors are two and four in turn, but for a jump in step 20. -/
def steadyLatents (phase : ℤ) (jump : ℚ) (perturbStep : ℤ) : Latents ℚ 1 where
  t := List.range 32
  mean := []
  temporal := []
  grid := (List.range 32).map fun t _ _ =>
    (3 * (t / 2) + t % 2 : ℕ) / 2 + if t < 20 then 0 else jump
  phase := List.replicate 32 phase
  phaseStep := (List.range 32).map Int.ofNat
  action := []
  obj := []
  eef := []
  perturbStep
  success := false

/-- A bucket with sixteen samples, of mean three and of standard deviation one. -/
theorem threshold_base_eq_evaluate_steady :
    (evaluate .rational scriptConsts.detector [steadyLatents 0 2 20]
        [steadyLatents 0 0 (-1)] [35 / 10] (some [steadyLatents 0 0 (-1)])).map
          (fun row => (some row.fp, row.detect)) =
      [(scriptConsts.fpEp .rational [steadyLatents 0 0 (-1)]
          (scriptConsts.base .rational [steadyLatents 0 0 (-1)]) {},
        scriptConsts.detect .rational [steadyLatents 0 2 20]
          (scriptConsts.base .rational [steadyLatents 0 0 (-1)]) 10 {})] := by
  have judged : ∀ ep ∈ [steadyLatents 0 0 (-1)] ++ [steadyLatents 0 2 20],
      ∀ x ∈ scriptConsts.steps .rational {} ep,
        (Dict.samplesOf (scriptConsts.samples .rational [steadyLatents 0 0 (-1)])
            x.bucket).length = 16 ∧
          aboveLine x.e (ownPair .rational
              (scriptConsts.samples .rational [steadyLatents 0 0 (-1)]) x.bucket) =
            aboveLine x.e (bucketPair .rational
              (scriptConsts.samples .rational [steadyLatents 0 0 (-1)]) x.bucket) := by
    decide +kernel
  apply threshold_base_eq_evaluate .rational scriptConsts
  · exact List.cons_ne_nil _ _
  · decide +kernel
  · intro ep member x step
    obtain ⟨count, agree⟩ := judged ep member x step
    refine ⟨fun _ above => agree ▸ above, fun _ few => ?_, fun empty => ?_⟩
    · rw [count] at few
      contradiction
    · rw [empty] at count
      contradiction

/-- A validation episode in a bucket without calibration samples is a false alarm of `evaluate`
and not of the script. -/
theorem threshold_base_ne_evaluate :
    (evaluate .rational scriptConsts.detector [steadyLatents 0 2 20]
        [steadyLatents 0 0 (-1)] [35 / 10] (some [steadyLatents 1 2 (-1)])).map
          (fun row => (some row.fp, row.detect)) = [(some 1, some 1)] ∧
      (scriptConsts.fpEp .rational [steadyLatents 1 2 (-1)]
          (scriptConsts.base .rational [steadyLatents 0 0 (-1)]) {},
        scriptConsts.detect .rational [steadyLatents 0 2 20]
          (scriptConsts.base .rational [steadyLatents 0 0 (-1)]) 10 {}) =
        (some 0, some 1) := by
  decide +kernel

end G1Jepa
