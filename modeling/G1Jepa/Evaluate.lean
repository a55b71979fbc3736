import G1Jepa.AnalyzeError

/-!
# Detection rates

`evaluate` of `analyze_error2.py` averages over all episodes of the perturbed split. An episode
whose perturbation never fired carries the step `-1`; it counts in the denominator, and a crossing
in its first steps counts as a detection.
-/

namespace G1Jepa

/-- The arguments of the detector that its callers pass on. -/
structure DetectorArgs where
  name : FeatureName
  k : ℕ
  metric : Metric
  consec : ℕ
  warmup : ℕ
  fine : Bool := true

/-- A row of the result. -/
structure EvaluateRow (K : Type) where
  kappa : K
  detect : NanOr K
  fp : K
  lat : NanOr K

variable {K : Type} [Field K] [LinearOrder K] {D : ℕ}

/-- The z-scores of an episode under a calibration. -/
def DetectorArgs.zscores (args : DetectorArgs) (np : Numpy K) (cal : Calibrated K)
    (ep : Latents K D) : List (NanOr K) :=
  G1Jepa.zscores np ep args.name args.k args.metric cal args.warmup args.fine

/-- `calibrate` with these arguments. -/
def DetectorArgs.calibrate (args : DetectorArgs) (np : Numpy K) (clean : List (Latents K D)) :
    Calibrated K :=
  G1Jepa.calibrate np clean args.name args.k args.metric args.warmup args.fine

variable (np : Numpy K) (cal : Calibrated K) (args : DetectorArgs)

/-- The time from the perturbation to the first run behind it; NaN when there is none. -/
def latency (kappa : K) (ep : Latents K D) : NanOr K := do
  let after := Numpy.searchsorted ep.t ep.perturbStep
  let hit ← firstRun (args.zscores np cal ep) kappa args.consec after
  let t ← ep.t[hit]?
  some (((t : ℤ) - ep.perturbStep : ℤ) : K)

/-- The list `det[kappa]`: one latency for every episode and every occurrence of the threshold. -/
def latencies (kappas : List K) (kappa : K) (pert : List (Latents K D)) : List (NanOr K) :=
  pert.flatMap fun ep => (kappas.filter (· = kappa)).map fun kp => latency np cal args kp ep

/-- The number `fp[kappa]` of false alarms. -/
def falseAlarms (kappas : List K) (kappa : K) (pool : List (Latents K D)) : ℕ :=
  (pool.map fun ep => (kappas.filter (· = kappa)).countP fun kp =>
    (firstRun (args.zscores np cal ep) kp args.consec 0).isSome).sum

/-- `ok`: the trigger comes within ten steps. -/
def timely (latency : NanOr K) : Bool :=
  latency.any fun number => decide (number ≤ 10)

/-- `lat[ok]`. -/
def timelyLatencies (lat : List (NanOr K)) : List K :=
  lat.filterMap fun latency => latency.filter fun number => decide (number ≤ 10)

def evaluate (pert clean : List (Latents K D)) (kappas : List K)
    (cleanTest : Option (List (Latents K D))) : List (EvaluateRow K) :=
  let cal := args.calibrate np clean
  let pool := cleanTest.getD clean
  kappas.map fun kappa =>
    let lat := latencies np cal args kappas kappa pert
    { kappa
      detect := Numpy.mean (lat.map fun latency => if timely latency then 1 else 0)
      fp := falseAlarms np cal args kappas kappa pool / (max 1 pool.length : ℕ)
      lat := Numpy.median (timelyLatencies lat) }

/-! ## Episodes without a perturbation -/

/-- The perturbation of the episode fired. -/
def Latents.fired (ep : Latents K D) : Bool :=
  decide (0 ≤ ep.perturbStep)

/-- The detector hits behind the perturbation, at most ten steps later. -/
def DetectsInTime (kappa : K) (ep : Latents K D) : Prop :=
  ∃ i t, firstRun (args.zscores np cal ep) kappa args.consec
      (Numpy.searchsorted ep.t ep.perturbStep) = some i ∧
    ep.t[i]? = some t ∧ (t : ℤ) - ep.perturbStep ≤ 10

section Rates

variable {np cal args} {kappas : List K} {kappa : K}

theorem latency_eq_some {ep : Latents K D} {late : K} :
    latency np cal args kappa ep = some late ↔
      ∃ i t, firstRun (args.zscores np cal ep) kappa args.consec
          (Numpy.searchsorted ep.t ep.perturbStep) = some i ∧
        ep.t[i]? = some t ∧ (((t : ℤ) - ep.perturbStep : ℤ) : K) = late := by
  simp [latency, Option.bind_eq_some_iff]

theorem timely_latency_iff [IsStrictOrderedRing K] {ep : Latents K D} :
    timely (latency np cal args kappa ep) = true ↔ DetectsInTime np cal args kappa ep := by
  rw [timely, Option.any_eq_true]
  simp only [latency_eq_some, decide_eq_true_eq]
  constructor
  · rintro ⟨_, ⟨i, t, hit, stamp, rfl⟩, soon⟩
    exact ⟨i, t, hit, stamp, by exact_mod_cast soon⟩
  · rintro ⟨i, t, hit, stamp, soon⟩
    exact ⟨_, ⟨i, t, hit, stamp, rfl⟩, by exact_mod_cast soon⟩

/-- Every occurrence of a threshold adds the same latencies. -/
theorem latencies_eq (eps : List (Latents K D)) : latencies np cal args kappas kappa eps =
    eps.flatMap fun ep =>
      List.replicate (kappas.count kappa) (latency np cal args kappa ep) := by
  simp only [latencies, List.filter_eq, List.map_replicate]

theorem length_latencies (eps : List (Latents K D)) :
    (latencies np cal args kappas kappa eps).length = eps.length * kappas.count kappa := by
  rw [latencies_eq]
  induction eps with
  | nil => rw [List.flatMap_nil, List.length_nil, List.length_nil, Nat.zero_mul]
  | cons ep eps induction =>
      rw [List.flatMap_cons, List.length_append, induction, List.length_replicate,
        List.length_cons]
      ring

theorem countP_latencies (eps : List (Latents K D)) :
    (latencies np cal args kappas kappa eps).countP timely =
      eps.countP (fun ep => timely (latency np cal args kappa ep)) * kappas.count kappa := by
  rw [latencies_eq, List.countP_flatMap]
  induction eps with
  | nil => rw [List.map_nil, List.sum_nil, List.countP_nil, Nat.zero_mul]
  | cons ep eps induction =>
      rw [List.map_cons, List.sum_cons, induction, Function.comp_apply, List.countP_replicate,
        List.countP_cons]
      split <;> ring

/-- The detection rate is the share of the episodes that are detected in time. -/
theorem detect_eq_share [IsStrictOrderedRing K] (occurs : kappa ∈ kappas)
    (pert : List (Latents K D)) :
    Numpy.mean ((latencies np cal args kappas kappa pert).map fun latency =>
        if timely latency then (1 : K) else 0) =
      Numpy.share pert fun ep => timely (latency np cal args kappa ep) := by
  have positive : 0 < kappas.count kappa := List.count_pos_iff.mpr occurs
  have empty : latencies np cal args kappas kappa pert = [] ↔ pert = [] := by
    rw [← List.length_eq_zero_iff, length_latencies, Nat.mul_eq_zero, List.length_eq_zero_iff]
    exact or_iff_left positive.ne'
  have occurrences : (kappas.count kappa : K) ≠ 0 := Nat.cast_ne_zero.mpr positive.ne'
  change Numpy.share _ timely = _
  rw [Numpy.share_eq, Numpy.share_eq, countP_latencies, length_latencies]
  refine if_congr empty rfl ?_
  rw [Nat.cast_mul, Nat.cast_mul, mul_div_mul_right _ _ occurrences]

variable [IsStrictOrderedRing K] {pert : List (Latents K D)}

theorem timelyLatencies_of_quiet {eps : List (Latents K D)}
    (quiet : ∀ ep ∈ eps, ¬DetectsInTime np cal args kappa ep) :
    timelyLatencies (latencies np cal args kappas kappa eps) = [] := by
  rw [timelyLatencies, List.filterMap_eq_nil_iff, latencies_eq]
  intro late member
  obtain ⟨ep, inside, occurrence⟩ := List.mem_flatMap.mp member
  obtain rfl := List.eq_of_mem_replicate occurrence
  rw [Option.filter_eq_none_iff]
  intro number found soon
  apply quiet ep inside
  rw [← timely_latency_iff, timely, found]
  exact soon

theorem share_of_quiet {eps : List (Latents K D)} (nonempty : eps ≠ [])
    (quiet : ∀ ep ∈ eps, ¬DetectsInTime np cal args kappa ep) :
    (Numpy.share eps fun ep => timely (latency np cal args kappa ep) : NanOr K) = some 0 := by
  have none : eps.countP (fun ep => timely (latency np cal args kappa ep)) = 0 :=
    List.countP_eq_zero.mpr fun ep inside soon => quiet ep inside (timely_latency_iff.mp soon)
  rw [Numpy.share_eq, if_neg nonempty, none, Nat.cast_zero, zero_div]

/-- Both figures of a threshold are those of the fired episodes when there are no others, or when
nothing is detected. -/
theorem figures_of_harmless (member : kappa ∈ kappas)
    (nonempty : pert.filter Latents.fired ≠ [])
    (harmless : (∀ ep ∈ pert, 0 ≤ ep.perturbStep) ∨
      ∀ ep ∈ pert, ¬DetectsInTime np cal args kappa ep) :
    Numpy.mean ((latencies np cal args kappas kappa pert).map fun latency =>
          if timely latency then (1 : K) else 0) =
        Numpy.mean ((latencies np cal args kappas kappa (pert.filter Latents.fired)).map
          fun latency => if timely latency then (1 : K) else 0) ∧
      Numpy.median (timelyLatencies (latencies np cal args kappas kappa pert)) =
        Numpy.median (timelyLatencies
          (latencies np cal args kappas kappa (pert.filter Latents.fired))) := by
  rcases harmless with fired | quiet
  · have all : pert.filter Latents.fired = pert :=
      List.filter_eq_self.mpr fun ep inside => decide_eq_true (fired ep inside)
    rw [all]
    exact ⟨rfl, rfl⟩
  · have some_episode : pert ≠ [] := by
      rintro rfl
      exact nonempty rfl
    have quiet' : ∀ ep ∈ pert.filter Latents.fired, ¬DetectsInTime np cal args kappa ep :=
      fun ep inside => quiet ep (List.mem_of_mem_filter inside)
    rw [detect_eq_share member, detect_eq_share member, share_of_quiet some_episode quiet,
      share_of_quiet nonempty quiet', timelyLatencies_of_quiet quiet,
      timelyLatencies_of_quiet quiet']
    exact ⟨rfl, rfl⟩

/-- Adding parts to a ratio keeps it exactly when they stand in the same ratio. -/
theorem ratio_eq_iff {found spurious fired unfired : ℕ} (nonempty : 0 < fired) :
    ((found + spurious : ℕ) : K) / (fired + unfired : ℕ) = found / fired ↔
      spurious * fired = found * unfired := by
  have left : ((fired + unfired : ℕ) : K) ≠ 0 := Nat.cast_ne_zero.mpr (by omega)
  have right : (fired : K) ≠ 0 := Nat.cast_ne_zero.mpr nonempty.ne'
  rw [div_eq_div_iff left right, ← Nat.cast_mul, ← Nat.cast_mul, Nat.cast_inj, Nat.add_mul,
    Nat.mul_add]
  omega

/-- If the rate is that of the fired episodes and there are others, then some of either kind are
detected in time, or none. -/
theorem detected_together (nonempty : pert.filter Latents.fired ≠ [])
    (same : (Numpy.share pert fun ep => timely (latency np cal args kappa ep) : NanOr K) =
      Numpy.share (pert.filter Latents.fired) fun ep => timely (latency np cal args kappa ep)) :
    (∀ ep ∈ pert, 0 ≤ ep.perturbStep) ∨
      ((∃ ep ∈ pert, 0 ≤ ep.perturbStep ∧ DetectsInTime np cal args kappa ep) ↔
        ∃ ep ∈ pert, ep.perturbStep < 0 ∧ DetectsInTime np cal args kappa ep) := by
  have some_episode : pert ≠ [] := by
    rintro rfl
    exact nonempty rfl
  have fired : 0 < (pert.filter Latents.fired).length := List.length_pos_iff.mpr nonempty
  have kinds := List.filter_append_perm Latents.fired pert
  rw [Numpy.share_eq, Numpy.share_eq, if_neg some_episode, if_neg nonempty, Option.some.injEq,
    ← kinds.countP_eq, ← kinds.length_eq, List.countP_append, List.length_append,
    ratio_eq_iff fired] at same
  have left : (∃ ep ∈ pert, 0 ≤ ep.perturbStep ∧ DetectsInTime np cal args kappa ep) ↔
      0 < (pert.filter Latents.fired).countP fun ep => timely (latency np cal args kappa ep) := by
    simp only [List.countP_pos_iff, List.mem_filter, timely_latency_iff, and_assoc,
      Latents.fired, decide_eq_true_eq]
  have right : (∃ ep ∈ pert, ep.perturbStep < 0 ∧ DetectsInTime np cal args kappa ep) ↔
      0 < (pert.filter fun ep => !ep.fired).countP fun ep =>
        timely (latency np cal args kappa ep) := by
    simp only [List.countP_pos_iff, List.mem_filter, timely_latency_iff, and_assoc,
      Latents.fired, Bool.not_eq_true', decide_eq_false_iff_not, not_le]
  by_cases none : pert.filter (fun ep => !ep.fired) = []
  · refine .inl fun ep inside => ?_
    have kept := List.filter_eq_nil_iff.mp none ep inside
    simpa [Latents.fired] using kept
  · have unfired := List.length_pos_iff.mpr none
    rw [left, right]
    refine .inr ⟨fun found => ?_, fun spurious => ?_⟩
    · have product := Nat.mul_pos found unfired
      rw [← same] at product
      exact Nat.pos_of_mul_pos_right product
    · have product := Nat.mul_pos spurious fired
      rw [same] at product
      exact Nat.pos_of_mul_pos_right product

end Rates

/-- The two figures of a row that the perturbed split determines. -/
def EvaluateRow.figures (row : EvaluateRow K) : NanOr K × NanOr K :=
  (row.detect, row.lat)

/-- The detection rates and latencies of a split are those of its fired episodes if, for every
threshold, it has no others or none of its episodes is detected in time. They differ if there are
others and just one of the two kinds is detected in time for some threshold. -/
theorem evaluate_fired_of_harmless [IsStrictOrderedRing K] (np : Numpy K) (args : DetectorArgs)
    {pert : List (Latents K D)} (some_fired : ∃ ep ∈ pert, 0 ≤ ep.perturbStep)
    (clean : List (Latents K D)) (kappas : List K) (cleanTest : Option (List (Latents K D))) :
    ((∀ kappa ∈ kappas, (∀ ep ∈ pert, 0 ≤ ep.perturbStep) ∨
        ∀ ep ∈ pert, ¬DetectsInTime np (args.calibrate np clean) args kappa ep) →
      (evaluate np args pert clean kappas cleanTest).map EvaluateRow.figures =
        (evaluate np args (pert.filter Latents.fired) clean kappas cleanTest).map
          EvaluateRow.figures) ∧
      ((evaluate np args pert clean kappas cleanTest).map EvaluateRow.figures =
          (evaluate np args (pert.filter Latents.fired) clean kappas cleanTest).map
            EvaluateRow.figures →
        ∀ kappa ∈ kappas, (∀ ep ∈ pert, 0 ≤ ep.perturbStep) ∨
          ((∃ ep ∈ pert, 0 ≤ ep.perturbStep ∧
              DetectsInTime np (args.calibrate np clean) args kappa ep) ↔
            ∃ ep ∈ pert, ep.perturbStep < 0 ∧
              DetectsInTime np (args.calibrate np clean) args kappa ep)) := by
  obtain ⟨ep, member, step⟩ := some_fired
  have nonempty : pert.filter Latents.fired ≠ [] :=
    List.ne_nil_of_mem (List.mem_filter.mpr ⟨member, decide_eq_true step⟩)
  rw [evaluate, evaluate, List.map_map, List.map_map, List.map_inj_left]
  constructor
  · intro harmless kappa occurs
    exact Prod.mk_inj.mpr (figures_of_harmless occurs nonempty (harmless kappa occurs))
  · intro same kappa occurs
    have rates := (Prod.mk_inj.mp (same kappa occurs)).1
    dsimp only at rates
    rw [detect_eq_share occurs, detect_eq_share occurs] at rates
    exact detected_together nonempty rates

/-- Three steps of which the last may stand out. -/
def spikeLatents (last : ℚ) (perturbStep : ℤ) : Latents ℚ 1 where
  t := [0, 1, 2]
  mean := [0, 0, fun _ => last]
  temporal := []
  grid := []
  phase := [0, 0, 0]
  phaseStep := [0, 1, 2]
  action := []
  obj := []
  eef := []
  perturbStep
  success := false

/-- The detector on single values of the mean feature. -/
def spikeArgs : DetectorArgs where
  name := .mean
  k := 1
  metric := .abs
  consec := 1
  warmup := 0

/-- With one unfired episode beside one that is not detected either, nothing changes. -/
theorem evaluate_fired_of_harmless_undetected :
    (evaluate .rational spikeArgs [spikeLatents 0 1, spikeLatents 0 (-1)] [spikeLatents 0 (-1)]
        [3] none).map EvaluateRow.figures =
      (evaluate .rational spikeArgs ([spikeLatents 0 1, spikeLatents 0 (-1)].filter Latents.fired)
        [spikeLatents 0 (-1)] [3] none).map EvaluateRow.figures := by
  refine (@evaluate_fired_of_harmless ℚ _ _ 1 _ .rational spikeArgs
    [spikeLatents 0 1, spikeLatents 0 (-1)] ⟨_, List.mem_cons_self, by decide⟩
    [spikeLatents 0 (-1)] [3] none).1 fun kappa occurs => .inr fun ep inside detects => ?_
  obtain rfl := List.mem_singleton.mp occurs
  have quiet : ∀ ep ∈ [spikeLatents 0 1, spikeLatents 0 (-1)],
      timely (latency .rational (spikeArgs.calibrate .rational [spikeLatents 0 (-1)]) spikeArgs 3
        ep) = false := by
    decide +kernel
  have soon := timely_latency_iff.mpr detects
  rw [quiet ep inside] at soon
  contradiction

/-- A detected episode beside an unfired one counts as a detection rate of one half. -/
theorem evaluate_ne_of_unfired :
    (evaluate .rational spikeArgs [spikeLatents 1 1, spikeLatents 0 (-1)] [spikeLatents 0 (-1)]
        [3] none).map EvaluateRow.figures = [(some (1 / 2), some 1)] ∧
      (evaluate .rational spikeArgs ([spikeLatents 1 1, spikeLatents 0 (-1)].filter Latents.fired)
        [spikeLatents 0 (-1)] [3] none).map EvaluateRow.figures = [(some 1, some 1)] := by
  decide +kernel

end G1Jepa
