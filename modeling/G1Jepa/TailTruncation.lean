import G1Jepa.OperatingCurve

/-!
# Stopping the encoding after the perturbation

`compute_latents.py` encodes an episode up to `tail` steps after the perturbation. Everything that
`evaluate` computes at a step reads stored values of that step and of earlier ones, and it counts no
hit later than ten steps, so a tail of eleven steps gives the rows of the full episodes.
-/

namespace G1Jepa

variable {K : Type} {D : ℕ}

/-! ## Prefixes of stored latents -/

/-- The first `n` stored steps. -/
def Latents.take (ep : Latents K D) (n : ℕ) : Latents K D where
  t := ep.t.take n
  mean := ep.mean.take n
  temporal := ep.temporal.take n
  grid := ep.grid.take n
  phase := ep.phase.take n
  phaseStep := ep.phaseStep.take n
  action := ep.action.take n
  obj := ep.obj.take n
  eef := ep.eef.take n
  perturbStep := ep.perturbStep
  success := ep.success

theorem take_zip {α β : Type} (xs : List α) (ys : List β) (n : ℕ) :
    (xs.zip ys).take n = (xs.take n).zip (ys.take n) := List.take_zipWith

theorem take_zipIdx {α : Type} (xs : List α) (start n : ℕ) :
    (xs.zipIdx start).take n = (xs.take n).zipIdx start := by
  induction xs generalizing start n with
  | nil => simp
  | cons x xs induction =>
      cases n with
      | zero => rfl
      | succ n => rw [List.zipIdx_cons, List.take_succ_cons, induction, List.take_succ_cons,
          List.zipIdx_cons]

section Prefix

variable [Field K] [LinearOrder K]

omit [Field K] [LinearOrder K] in
theorem feat_take (ep : Latents K D) (name : FeatureName) (n : ℕ) :
    feat (ep.take n) name = (feat ep name).take n := by
  cases name with
  | mean => rfl
  | temporal => exact List.map_take
  | grid => exact List.map_take

/-- The error of a step reads no later vector. -/
theorem errorAt_take {ι : Type} [Fintype ι] (np : Numpy K) (f : List (ι → K)) (k : ℕ)
    (metric : Metric) {i n : ℕ} (inside : i < n) :
    errorAt np (f.take n) k metric i = errorAt np f k metric i := by
  rw [errorAt, errorAt, List.getElem?_take_of_lt inside,
    List.getElem?_take_of_lt (lt_of_le_of_lt (Nat.sub_le i k) inside),
    List.getElem?_take_of_lt (lt_of_le_of_lt (Nat.sub_le i (2 * k)) inside)]

theorem errors_take {ι : Type} [Fintype ι] (np : Numpy K) (f : List (ι → K)) (k : ℕ)
    (metric : Metric) (n : ℕ) :
    errors np (f.take n) k metric = (errors np f k metric).take n := by
  rw [errors, errors, List.length_take, ← List.map_take, List.take_range]
  apply List.map_congr_left
  intro i member
  exact errorAt_take np f k metric ((List.mem_range.mp member).trans_le (min_le_left _ _))

theorem errorRows_take (np : Numpy K) (ep : Latents K D) (name : FeatureName) (k : ℕ)
    (metric : Metric) (n : ℕ) :
    errorRows np (ep.take n) name k metric = (errorRows np ep name k metric).take n := by
  have labels : (ep.t.take n).zip ((ep.phase.take n).zip (ep.phaseStep.take n)) =
      (ep.t.zip (ep.phase.zip ep.phaseStep)).take n := by
    rw [take_zip, take_zip]
  rw [errorRows, errorRows, feat_take, errors_take]
  dsimp only [Latents.take]
  rw [labels, ← take_zip, ← List.map_take, take_zipIdx]

theorem zscores_take (np : Numpy K) (ep : Latents K D) (name : FeatureName) (k : ℕ)
    (metric : Metric) (cal : Calibrated K) (warmup : ℕ) (fine : Bool) (n : ℕ) :
    zscores np (ep.take n) name k metric cal warmup fine =
      (zscores np ep name k metric cal warmup fine).take n := by
  rw [zscores, zscores, feat_take, errors_take, errorRows_take, List.length_take, ← List.map_take,
    List.take_range]
  apply List.map_congr_left
  intro i member
  rw [List.getElem?_take_of_lt ((List.mem_range.mp member).trans_le (min_le_left _ _))]

end Prefix

/-! ## The run counter on a prefix -/

section FirstRun

variable [LinearOrder K] {kappa : K} {consec : ℕ}

theorem le_of_firstRunFrom {zs : List (NanOr K)} {i run j : ℕ}
    (hit : firstRunFrom kappa consec zs i run = some j) : i ≤ j := by
  induction zs generalizing i run with
  | nil => contradiction
  | cons z zs induction =>
      rw [firstRunFrom] at hit
      split at hit
      · split at hit
        · exact (Option.some.inj hit).le
        · exact Nat.le_of_succ_le (induction hit)
      · exact Nat.le_of_succ_le (induction hit)

/-- On a prefix the loop finds the same hit, if the hit lies in the prefix. -/
theorem firstRunFrom_take (zs : List (NanOr K)) (n i run j : ℕ) :
    firstRunFrom kappa consec (zs.take n) i run = some j ↔
      firstRunFrom kappa consec zs i run = some j ∧ j < i + n := by
  induction zs generalizing n i run with
  | nil => simp [firstRunFrom]
  | cons z zs induction =>
      cases n with
      | zero =>
          refine iff_of_false (by simp [firstRunFrom]) ?_
          rintro ⟨hit, before⟩
          exact absurd (le_of_firstRunFrom hit) (by omega)
      | succ n =>
          have next : ∀ run, firstRunFrom kappa consec (zs.take n) (i + 1) run = some j ↔
              firstRunFrom kappa consec zs (i + 1) run = some j ∧ j < i + (n + 1) := by
            intro run
            rw [induction, Nat.add_right_comm, Nat.add_assoc]
          rw [List.take_succ_cons, firstRunFrom, firstRunFrom]
          split
          · split
            · rw [Option.some.injEq]
              omega
            · exact next _
          · exact next _

theorem firstRun_take (zs : List (NanOr K)) {n start : ℕ} (bound : start ≤ n) (j : ℕ) :
    firstRun (zs.take n) kappa consec start = some j ↔
      firstRun zs kappa consec start = some j ∧ j < n := by
  rw [firstRun, firstRun, List.drop_take, firstRunFrom_take, Nat.add_sub_cancel' bound]

end FirstRun

/-! ## The encoded prefix -/

section Encoding

variable {Frame Z : Type} {encoder : VideoEncoder Frame Z K D} {args : LatentArgs}
  {frames : List Frame} {episode : EpisodeRecord K} {full : Latents K D}

/-- The arguments with a tail that no episode of `T` frames reaches. -/
def LatentArgs.untruncated (args : LatentArgs) (T : ℕ) : LatentArgs :=
  { args with tail := T }

/-- Such a tail encodes to the end of the episode. -/
theorem latentStop_untruncated (args : LatentArgs) (perturbStep : ℤ) (T : ℕ) :
    latentStop (args.untruncated T) perturbStep T = T := by
  rw [latentStop, LatentArgs.untruncated]
  dsimp only
  split <;> omega

theorem rangeStep_take {shorter longer : ℕ} (ordered : shorter ≤ longer) (step : ℕ) :
    rangeStep shorter step = (rangeStep longer step).take ((shorter + step - 1) / step) := by
  have fits : (shorter + step - 1) / step ≤ (longer + step - 1) / step :=
    Nat.div_le_div_right (by omega)
  rw [rangeStep, rangeStep, ← List.map_take, List.take_range, min_eq_left fits]

/-- At least one step of an episode is encoded. -/
theorem times_ne_nil {ep : Latents K D}
    (computed : computeLatents encoder args frames episode = .ok ep) : ep.t ≠ [] := by
  intro empty
  obtain ⟨-, ⟨pooled, encoded, stacked, -⟩, -⟩ := computeLatents_eq_ok.mp computed
  rw [empty] at encoded
  obtain rfl := Except.ok.inj encoded
  contradiction

theorem stack_take {α : Type} {arrays result : List α} {n : ℕ} (positive : 0 < n)
    (stacked : stack arrays = .ok result) : stack (arrays.take n) = .ok (result.take n) := by
  obtain rfl := stack_eq_ok stacked
  rw [stack] at stacked
  split at stacked
  · contradiction
  case isFalse nonempty =>
    exact if_neg fun empty => (List.take_eq_nil_iff.mp empty).elim positive.ne' nonempty

theorem takeAt_take {α : Type} {xs result : List α} {ts : List ℕ} (n : ℕ)
    (taken : takeAt xs ts = .ok result) : takeAt xs (ts.take n) = .ok (result.take n) :=
  Fallible.mapM_take n taken

/-- The latents of an episode are a prefix of those of the full episode, which keeps every step less
than `tail` steps after the perturbation. -/
theorem exists_computeLatents_take (tail : 0 < args.tail)
    (computed : computeLatents encoder (args.untruncated frames.length) frames episode =
      .ok full) :
    ∃ n, computeLatents encoder args frames episode = .ok (full.take n) ∧
      ∀ i t : ℕ, full.t[i]? = some t →
        (0 ≤ episode.perturbStep → t < episode.perturbStep + args.tail) → i < n := by
  have stored := stored_of_computeLatents computed
  have step_pos : 0 < args.step := stored.step_pos
  have fullTimes : full.t = rangeStep frames.length args.step := by
    rw [stored.times, latentStop_untruncated]
    rfl
  have times : latentTimes args episode.perturbStep frames.length =
      .ok (full.t.take ((latentStop args episode.perturbStep frames.length + args.step - 1) /
        args.step)) := by
    rw [latentTimes, if_neg step_pos.ne', fullTimes,
      ← rangeStep_take (latentStop_le args episode.perturbStep frames.length)]
  have kept : ∀ i t : ℕ, full.t[i]? = some t →
      (0 ≤ episode.perturbStep → t < episode.perturbStep + args.tail) →
      i < (latentStop args episode.perturbStep frames.length + args.step - 1) / args.step := by
    intro i t found soon
    rw [fullTimes, rangeStep_getElem? step_pos] at found
    obtain ⟨bound, rfl⟩ := found
    rw [Nat.lt_div_iff_mul_lt step_pos, latentStop]
    split
    case isTrue fired =>
      have := soon fired
      omega
    case isFalse => omega
  refine ⟨_, ?_, kept⟩
  generalize (latentStop args episode.perturbStep frames.length + args.step - 1) / args.step = n
    at times kept
  have positive : 0 < n := by
    have inside := List.length_pos_iff.mpr (times_ne_nil computed)
    refine kept 0 _ (stored.getElem?_t inside) fun fired => ?_
    rw [Nat.zero_mul]
    omega
  obtain ⟨-, ⟨pooled, encoded, mean, temporal, grid⟩, phase, phaseStep, action, obj, eef,
    perturbStep, success⟩ := computeLatents_eq_ok.mp computed
  have encoded : pooledClips encoder args frames (full.t.take n) = .ok (pooled.take n) :=
    Fallible.mapM_take n encoded
  refine computeLatents_eq_ok.mpr ⟨times, ⟨_, encoded, ?_⟩, takeAt_take n phase,
    takeAt_take n phaseStep, takeAt_take n action, takeAt_take n obj, takeAt_take n eef,
    perturbStep, success⟩
  rw [List.map_take, List.map_take, List.map_take]
  exact ⟨stack_take positive mean, stack_take positive temporal, stack_take positive grid⟩

end Encoding

/-! ## The rows -/

section Rows

variable [Field K] [LinearOrder K] {np : Numpy K} {cal : Calibrated K} {args : DetectorArgs}

/-- What a row keeps of a latency: late hits and lost ones are alike. -/
def withinTen (latency : NanOr K) : NanOr K :=
  latency.filter fun number => decide (number ≤ 10)

theorem timely_eq_isSome (latency : NanOr K) : timely latency = (withinTen latency).isSome := by
  cases latency with
  | none => rfl
  | some number =>
      rw [withinTen, Option.filter_some, timely, Option.any_some]
      split <;> simp_all

theorem latencies_congr (kappas : List K) (kappa : K) {cuts fulls : List (Latents K D)}
    (related : List.Forall₂ (fun cut full => ∀ kappa,
      withinTen (latency np cal args kappa cut) = withinTen (latency np cal args kappa full))
      cuts fulls) :
    (latencies np cal args kappas kappa cuts).map withinTen =
      (latencies np cal args kappas kappa fulls).map withinTen := by
  induction related with
  | nil => rfl
  | cons same _ induction =>
      rw [latencies, latencies] at induction
      rw [latencies, latencies, List.flatMap_cons, List.flatMap_cons, List.map_append,
        List.map_append, induction, List.map_map, List.map_map]
      congr 1
      exact List.map_congr_left fun kappa _ => same kappa

/-- The rows depend on the latencies of at most ten steps only. -/
theorem evaluate_congr {clean : List (Latents K D)} {cuts fulls : List (Latents K D)}
    (related : List.Forall₂ (fun cut full => ∀ kappa,
      withinTen (latency np (args.calibrate np clean) args kappa cut) =
        withinTen (latency np (args.calibrate np clean) args kappa full)) cuts fulls)
    (kappas : List K) (cleanTest : Option (List (Latents K D))) :
    evaluate np args cuts clean kappas cleanTest =
      evaluate np args fulls clean kappas cleanTest := by
  rw [evaluate, evaluate]
  apply List.map_congr_left
  intro kappa _
  have same := latencies_congr kappas kappa related
  have rates := congrArg (List.map fun latency : NanOr K =>
    if latency.isSome then (1 : K) else 0) same
  have times := congrArg (List.filterMap id) same
  simp only [List.map_map, Function.comp_def, ← timely_eq_isSome] at rates
  simp only [List.filterMap_map, Function.id_comp] at times
  dsimp only
  rw [rates, timelyLatencies, timelyLatencies]
  exact congrArg (fun lat => EvaluateRow.mk kappa _ _ (Numpy.median lat)) times

/-- A search that every match precedes ends inside the prefix. -/
theorem takeWhile_take {α : Type} {p : α → Bool} {xs : List α} {n : ℕ}
    (kept : ∀ i x, xs[i]? = some x → p x = true → i < n) :
    (xs.take n).takeWhile p = xs.takeWhile p := by
  induction xs generalizing n with
  | nil => rw [List.take_nil]
  | cons x xs induction =>
      cases n with
      | zero =>
          have misses : p x = false := by
            rw [← Bool.not_eq_true]
            exact fun meets => Nat.not_lt_zero 0 (kept 0 x rfl meets)
          rw [List.take_zero, List.takeWhile_cons, misses]
          rfl
      | succ n =>
          rw [List.take_succ_cons, List.takeWhile_cons, List.takeWhile_cons,
            induction fun i y found meets => Nat.lt_of_succ_lt_succ (kept (i + 1) y found meets)]

variable [IsStrictOrderedRing K]

/-- A prefix that keeps the first eleven steps from the perturbation on has the same timely
latencies. -/
theorem withinTen_latency_take {full : Latents K D} {n : ℕ} {tail : ℤ} (long : 11 ≤ tail)
    (kept : ∀ i t : ℕ, full.t[i]? = some t →
      (0 ≤ full.perturbStep → t < full.perturbStep + tail) → i < n) (kappa : K) :
    withinTen (latency np cal args kappa (full.take n)) =
      withinTen (latency np cal args kappa full) := by
  have insertion : Numpy.searchsorted (full.take n).t full.perturbStep =
      Numpy.searchsorted full.t full.perturbStep := by
    refine congrArg List.length (takeWhile_take fun i t found before => ?_)
    have before : (t : ℤ) < full.perturbStep := of_decide_eq_true before
    exact kept i t found fun _ => by omega
  have bound : Numpy.searchsorted full.t full.perturbStep ≤ n := by
    rw [← insertion]
    exact (List.takeWhile_sublist _).length_le.trans (List.length_take_le n full.t)
  have zs : args.zscores np cal (full.take n) = (args.zscores np cal full).take n :=
    zscores_take np full args.name args.k args.metric cal args.warmup args.fine n
  refine Option.ext fun late => ?_
  rw [withinTen, withinTen, Option.filter_eq_some_iff, Option.filter_eq_some_iff, latency_eq_some,
    latency_eq_some, zs]
  change (∃ i t, firstRun _ kappa args.consec
    (Numpy.searchsorted (full.take n).t full.perturbStep) = some i ∧
      (full.t.take n)[i]? = some t ∧ _) ∧ _ ↔ _
  rw [insertion]
  constructor
  · rintro ⟨⟨i, t, hit, stamp, rfl⟩, soon⟩
    obtain ⟨hit, inside⟩ := (firstRun_take _ bound i).mp hit
    rw [List.getElem?_take_of_lt inside] at stamp
    exact ⟨⟨i, t, hit, stamp, rfl⟩, soon⟩
  · rintro ⟨⟨i, t, hit, stamp, rfl⟩, soon⟩
    have late : (t : ℤ) - full.perturbStep ≤ 10 := by exact_mod_cast of_decide_eq_true soon
    have inside : i < n := kept i t stamp fun _ => by omega
    rw [← List.getElem?_take_of_lt inside] at stamp
    exact ⟨⟨i, t, (firstRun_take _ bound i).mpr ⟨hit, inside⟩, stamp, rfl⟩, soon⟩

/-- Encoding stops `tail` steps after the perturbation without changing a row: whatever the full
episodes are encoded to, the truncated ones are encoded as well and give the same rows. -/
theorem evaluate_truncated {Frame Z : Type} (np : Numpy K) (encoder : VideoEncoder Frame Z K D)
    (args : LatentArgs) (long : 11 ≤ args.tail) (detector : DetectorArgs)
    (episodes : List (List Frame × EpisodeRecord K)) {full : List (Latents K D)}
    (computed : (episodes.mapM fun episode => computeLatents encoder
      (args.untruncated episode.1.length) episode.1 episode.2) = .ok full)
    (clean : List (Latents K D)) (kappas : List K) (cleanTest : Option (List (Latents K D))) :
    ∃ truncated,
      (episodes.mapM fun episode => computeLatents encoder args episode.1 episode.2) =
        .ok truncated ∧
      evaluate np detector truncated clean kappas cleanTest =
        evaluate np detector full clean kappas cleanTest := by
  have related : ∀ (episode : List Frame × EpisodeRecord K) full,
      computeLatents encoder (args.untruncated episode.1.length) episode.1 episode.2 = .ok full →
      ∃ cut, computeLatents encoder args episode.1 episode.2 = .ok cut ∧ ∀ kappa,
        withinTen (latency np (detector.calibrate np clean) detector kappa cut) =
          withinTen (latency np (detector.calibrate np clean) detector kappa full) := by
    intro episode full encoded
    obtain ⟨n, cut, kept⟩ := exists_computeLatents_take (by omega) encoded
    obtain ⟨-, -, -, -, -, -, -, step, -⟩ := computeLatents_eq_ok.mp encoded
    rw [← step] at kept
    exact ⟨_, cut, withinTen_latency_take long kept⟩
  obtain ⟨truncated, traversed, pairs⟩ := Fallible.exists_mapM_related related computed
  exact ⟨truncated, traversed, evaluate_congr pairs kappas cleanTest⟩

end Rows

/-- An episode of forty frames that is perturbed in step 5. -/
def perturbedBlank : List Unit × EpisodeRecord ℚ :=
  (List.replicate 40 (), { EpisodeRecord.blank 40 with perturbStep := 5 })

/-- Of the twenty steps that can be encoded the first eight are enough. -/
theorem evaluate_truncated_blank : ∃ full truncated : List (Latents ℚ 1),
    truncated.map (·.t) = [rangeStep 16 2] ∧ full.map (·.t) = [rangeStep 40 2] ∧
      evaluate .rational spikeArgs truncated [spikeLatents 0 (-1)] [3] none =
        evaluate .rational spikeArgs full [spikeLatents 0 (-1)] [3] none := by
  have computes : Fallible.Returns ([perturbedBlank].mapM fun episode =>
      computeLatents (.zero Unit ℚ 1) (LatentArgs.untruncated { tail := 11 } episode.1.length)
        episode.1 episode.2) fun full => full.map (·.t) = [rangeStep 40 2] := by decide +kernel
  have cuts : Fallible.Returns ([perturbedBlank].mapM fun episode =>
      computeLatents (.zero Unit ℚ 1) { tail := 11 } episode.1 episode.2)
        fun truncated => truncated.map (·.t) = [rangeStep 16 2] := by decide +kernel
  obtain ⟨full, computed, fullTimes⟩ := computes.exists_eq_ok
  obtain ⟨_, cut, times⟩ := cuts.exists_eq_ok
  obtain ⟨truncated, traversed, rows⟩ := evaluate_truncated .rational (.zero Unit ℚ 1)
    { tail := 11 } (by decide) spikeArgs [perturbedBlank] computed [spikeLatents 0 (-1)] [3] none
  obtain rfl := Except.ok.inj (traversed.symm.trans cut)
  exact ⟨full, truncated, times, fullTimes, rows⟩

end G1Jepa
