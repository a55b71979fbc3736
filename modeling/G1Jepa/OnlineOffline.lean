import G1Jepa.ErrorFormula
import Mathlib.Order.Bounds.Basic

/-!
# The online pipeline against the offline one

The trigger sees an episode through two bounded deques. `Tracks` says what both hold after any
number of calls in terms of the whole history, so the errors it logs are those of the full frame
array, and those that `errors` computes from the stored latents of the same frames.
-/

namespace G1Jepa

variable {K : Type} [Field K] [LinearOrder K] {E R Row Z Frame : Type} {D : ℕ}

/-! ## Clips -/

/-- With truncated subtraction the clamp is invisible. -/
theorem clipIndices_eq (t n stride : ℕ) :
    clipIndices t n stride = (List.range n).map fun i => t - stride * (n - 1 - i) := by
  apply List.map_congr_left
  intro i member
  have inside : i < n := List.mem_range.mp member
  have lag : (stride : ℤ) * (n - 1 - i) = ((stride * (n - 1 - i) : ℕ) : ℤ) := by
    rw [Nat.cast_mul, show ((n - 1 - i : ℕ) : ℤ) = n - 1 - i by omega]
  rw [clipIndex, lag]
  omega

theorem buildClip_map_range {frameAt : ℕ → Frame} {T t n stride : ℕ} (inside : t < T) :
    buildClip ((List.range T).map frameAt) t n stride =
      .ok ((clipIndices t n stride).map frameAt) := by
  apply Fallible.mapM_eq_map
  intro i member
  rw [clipIndices_eq] at member
  obtain ⟨j, -, rfl⟩ := List.mem_map.mp member
  rw [getElem?_map_range frameAt (by omega)]
  rfl

/-- The frame buffer is long enough: the clip built from it is the clip of the full array. -/
theorem buildClip_recalls {n stride t : ℕ} {buf : BoundedDeque Frame (n * stride)}
    {frames : List Frame} (positive : 0 < stride) (recalls : buf.Recalls frames)
    (length : frames.length = t + 1) :
    buildClip buf.items (buf.items.length - 1) n stride = buildClip frames t n stride := by
  have kept := recalls.length
  have same : ∀ i < n, buf.items[buf.items.length - 1 - stride * (n - 1 - i)]? =
      frames[t - stride * (n - 1 - i)]? := by
    intro i inside
    have short : stride * (n - 1 - i) < n * stride := by
      rw [mul_comm n]
      exact Nat.mul_lt_mul_of_pos_left (by omega) positive
    rcases Nat.lt_or_ge (stride * (n - 1 - i)) buf.items.length with within | beyond
    · rw [recalls.lag within, length, Nat.add_sub_cancel]
    · have whole : buf.items = frames := by
        rw [recalls, show frames.length - n * stride = 0 by omega, List.drop_zero]
      rw [whole, length, Nat.add_sub_cancel]
  rw [buildClip, buildClip, clipIndices_eq, clipIndices_eq, List.mapM_map, List.mapM_map]
  apply Fallible.mapM_congr
  intro i member
  change Fallible.orRaise _ _ = Fallible.orRaise _ _
  rw [same i (List.mem_range.mp member)]

/-! ## The trigger -/

namespace OnlineJepaTrigger

section Run

variable (env : Env K E R Row) (encoder : VideoEncoder (List Row) Z K D) (cfg : TriggerConfig K)
  (sims : ℕ → E) (policies : ℕ → ScriptedPickPlace K)

/-- The frame that the trigger renders in step `t`. -/
def frameAt (t : ℕ) : List Row :=
  env.renderFrame (sims t) cfg.camera 384

/-- The complete array of the frames of the first `T` steps. -/
def framesUntil (T : ℕ) : List (List Row) :=
  (List.range T).map (frameAt env cfg sims)

/-- The pooled encoding of the clip of step `t`, taken from the unbounded sequence of frames. -/
def latentAt (t : ℕ) : cfg.feature.Idx D → K :=
  (encoder.pooled ((clipIndices t cfg.framesN cfg.stride).map (frameAt env cfg sims))).feature
    cfg.feature

/-- The latents of the encoded steps, the first of which is `W`. -/
def encodedLatent (W j : ℕ) : cfg.feature.Idx D → K :=
  latentAt env encoder cfg sims (W + j * cfg.step)

/-- The pooled encoding of `build_clip(frames, t, frames_n, stride)`. -/
def clipLatent (frames : List (List Row)) (t : ℕ) : Except PyError (cfg.feature.Idx D → K) := do
  let clip ← buildClip frames t cfg.framesN cfg.stride
  .ok ((encoder.pooled clip).feature cfg.feature)

/-- The error of time stamp `t`, from the latents of the time stamps `t - k * step` and
`t - 2 * k * step`. -/
def stampError (t : ℕ) : K :=
  env.np.norm ((2 : K) • latentAt env encoder cfg sims (t - cfg.k * cfg.step) -
    latentAt env encoder cfg sims (t - 2 * cfg.k * cfg.step) - latentAt env encoder cfg sims t)

/-- A reset followed by one call of `step_` in each of the first `T` steps. -/
def runSteps : ℕ → Except PyError (TriggerState Row K D cfg)
  | 0 => .ok (reset cfg)
  | t + 1 => do
      let st ← runSteps t
      let (_, st) ← step env encoder st t (sims t) (policies t)
      .ok st

/-- The state of a trigger after the first `T` steps, `encoded` of which were encoded, the first
one being `W`. -/
structure Tracks (W encoded T : ℕ) (st : TriggerState Row K D cfg) : Prop where
  buf : st.buf.Recalls (framesUntil env cfg sims T)
  hist : st.hist.Recalls ((List.range encoded).map (encodedLatent env encoder cfg sims W))
  encoded_iff : ∀ j, j < encoded ↔ W + j * cfg.step < T
  zTimes : st.zLog.map Prod.fst =
    (List.range (encoded - 2 * cfg.k)).map fun j => W + (j + 2 * cfg.k) * cfg.step
  dbg : st.dbgLog.map (fun row => (row.t, row.e)) =
    (List.range (encoded - 2 * cfg.k)).map fun j =>
      (W + (j + 2 * cfg.k) * cfg.step,
        onlineError env.np (encodedLatent env encoder cfg sims W) cfg.k (j + 2 * cfg.k) cfg.metric)

end Run

variable {env : Env K E R Row} {encoder : VideoEncoder (List Row) Z K D} {cfg : TriggerConfig K}
  {sims : ℕ → E} {policies : ℕ → ScriptedPickPlace K} {W encoded T : ℕ}

@[simp] theorem length_framesUntil : (framesUntil env cfg sims T).length = T := by
  simp [framesUntil]

theorem framesUntil_succ : framesUntil env cfg sims (T + 1) =
    framesUntil env cfg sims T ++ [frameAt env cfg sims T] := by
  rw [framesUntil, List.range_succ, List.map_append]
  rfl

theorem tracks_reset : Tracks env encoder cfg sims W 0 0 (reset cfg) where
  buf := BoundedDeque.recalls_empty
  hist := BoundedDeque.recalls_empty
  encoded_iff j := by omega
  zTimes := by simp [reset]
  dbg := by simp [reset]

omit [LinearOrder K] in
/-- The steps that the trigger encodes are `W`, `W + step`, `W + 2 * step` and so on. -/
theorem encodesAt_iff (least : IsLeast {w | cfg.step ∣ w ∧ cfg.warmup ≤ w} W) {t : ℕ} :
    EncodesAt cfg t ↔ ∃ j, t = W + j * cfg.step := by
  obtain ⟨⟨aligned, late⟩, lower⟩ := least
  constructor
  · rintro ⟨multiple, after⟩
    have divides : cfg.step ∣ t := Nat.dvd_of_mod_eq_zero multiple
    have ordered : W ≤ t := lower ⟨divides, after⟩
    obtain ⟨j, difference⟩ := Nat.dvd_sub divides aligned
    exact ⟨j, by rw [mul_comm j]; omega⟩
  · rintro ⟨j, rfl⟩
    exact ⟨Nat.mod_eq_zero_of_dvd (Nat.dvd_add aligned (Nat.dvd_mul_left _ _)), by omega⟩

section Step

variable {st after : TriggerState Row K D cfg}
  (tracks : Tracks env encoder cfg sims W encoded T st)

include tracks

/-- Whatever a call does, it observes the current frame. -/
theorem Tracks.observe_buf :
    (observe env st (sims T)).buf.Recalls (framesUntil env cfg sims (T + 1)) := by
  rw [framesUntil_succ]
  exact tracks.buf.append _

/-- The clip that a call builds is the clip of the complete frame array. -/
theorem Tracks.buildClip_observe (positive : 0 < cfg.stride) :
    buildClip (observe env st (sims T)).buf.items ((observe env st (sims T)).buf.items.length - 1)
        cfg.framesN cfg.stride =
      .ok ((clipIndices T cfg.framesN cfg.stride).map (frameAt env cfg sims)) := by
  rw [buildClip_recalls positive tracks.observe_buf length_framesUntil]
  exact buildClip_map_range (Nat.lt_succ_self T)

/-- The next step that is encoded is the one that continues the arithmetic progression. -/
theorem Tracks.next_encoded (least : IsLeast {w | cfg.step ∣ w ∧ cfg.warmup ≤ w} W)
    (encodes : EncodesAt cfg T) : T = W + encoded * cfg.step := by
  obtain ⟨j, position⟩ := (encodesAt_iff least).mp encodes
  have notEarlier : encoded ≤ j := by
    have := (tracks.encoded_iff j).not.mpr (by omega)
    omega
  have notLater : ¬W + encoded * cfg.step < T := (tracks.encoded_iff encoded).not.mp (by omega)
  have := Nat.mul_le_mul_right cfg.step notEarlier
  omega

theorem Tracks.encoded_iff_of_idle (least : IsLeast {w | cfg.step ∣ w ∧ cfg.warmup ≤ w} W)
    (idle : ¬EncodesAt cfg T) (j : ℕ) : j < encoded ↔ W + j * cfg.step < T + 1 := by
  have apart : T ≠ W + j * cfg.step := fun equality =>
    idle ((encodesAt_iff least).mpr ⟨j, equality⟩)
  rw [tracks.encoded_iff j]
  omega

theorem Tracks.encoded_iff_of_encodes (positive : 0 < cfg.step)
    (least : IsLeast {w | cfg.step ∣ w ∧ cfg.warmup ≤ w} W) (encodes : EncodesAt cfg T) (j : ℕ) :
    j < encoded + 1 ↔ W + j * cfg.step < T + 1 := by
  have position := tracks.next_encoded least encodes
  rw [position, Nat.lt_succ_iff, Nat.lt_succ_iff, Nat.add_le_add_iff_left,
    Nat.mul_le_mul_right_iff positive]

/-- The latent pushed by a call is the next one of the sequence of encoded latents. -/
theorem Tracks.pushLatent_hist (least : IsLeast {w | cfg.step ∣ w ∧ cfg.warmup ≤ w} W)
    (encodes : EncodesAt cfg T) :
    (pushLatent (observe env st (sims T)) (latentAt env encoder cfg sims T)).hist.Recalls
      ((List.range (encoded + 1)).map (encodedLatent env encoder cfg sims W)) := by
  have next : latentAt env encoder cfg sims T = encodedLatent env encoder cfg sims W encoded := by
    rw [encodedLatent, ← tracks.next_encoded least encodes]
  rw [next, List.range_succ, List.map_append]
  exact tracks.hist.append _

/-- The error that a call computes is the online formula on the sequence of encoded latents. -/
theorem Tracks.historyError_eq (least : IsLeast {w | cfg.step ∣ w ∧ cfg.warmup ≤ w} W)
    (encodes : EncodesAt cfg T) (full : 2 * cfg.k ≤ encoded) :
    historyError env.np cfg.k cfg.metric
        (pushLatent (observe env st (sims T)) (latentAt env encoder cfg sims T)).hist.items =
      some (onlineError env.np (encodedLatent env encoder cfg sims W) cfg.k encoded
        cfg.metric) := by
  have recalls := tracks.pushLatent_hist least encodes
  have length := recalls.length
  rw [List.length_map, List.length_range] at length
  rw [historyError_recalls env.np cfg.metric recalls (by omega),
    historyError_map_range env.np _ cfg.metric full]

/-- The number of latents in the history tells whether enough steps have been encoded. -/
theorem Tracks.length_hist (least : IsLeast {w | cfg.step ∣ w ∧ cfg.warmup ≤ w} W)
    (encodes : EncodesAt cfg T) :
    (pushLatent (observe env st (sims T)) (latentAt env encoder cfg sims T)).hist.items.length <
      2 * cfg.k + 1 ↔ encoded < 2 * cfg.k := by
  rw [(tracks.pushLatent_hist least encodes).length, List.length_map, List.length_range]
  omega

/-- One call keeps the description of the trigger. -/
theorem Tracks.step {fired : Bool} (stepPositive : 0 < cfg.step) (stridePositive : 0 < cfg.stride)
    (least : IsLeast {w | cfg.step ∣ w ∧ cfg.warmup ≤ w} W)
    (called : step env encoder st T (sims T) (policies T) = .ok (fired, after)) :
    ∃ encoded, Tracks env encoder cfg sims W encoded (T + 1) after := by
  cases stepped_of_step called with
  | idle idle =>
      exact ⟨encoded, tracks.observe_buf, tracks.hist, tracks.encoded_iff_of_idle least idle,
        tracks.zTimes, tracks.dbg⟩
  | @filling clip after encodes built pushed short =>
      rw [tracks.buildClip_observe stridePositive] at built
      obtain rfl := Except.ok.inj built
      subst pushed
      have few : encoded < 2 * cfg.k := (tracks.length_hist least encodes).mp short
      have before : encoded - 2 * cfg.k = 0 := by omega
      have now : encoded + 1 - 2 * cfg.k = 0 := by omega
      refine ⟨encoded + 1, tracks.observe_buf, tracks.pushLatent_hist least encodes,
        tracks.encoded_iff_of_encodes stepPositive least encodes, ?_, ?_⟩
      · rw [now, ← before]
        exact tracks.zTimes
      · rw [now, ← before]
        exact tracks.dbg
  | @judged clip pushed e z encodes built equality full computed judged =>
      rw [tracks.buildClip_observe stridePositive] at built
      obtain rfl := Except.ok.inj built
      subst equality
      have enough : 2 * cfg.k ≤ encoded := by
        have := (tracks.length_hist least encodes).not.mp full
        omega
      have position : encoded - 2 * cfg.k + 2 * cfg.k = encoded := Nat.sub_add_cancel enough
      have next : encoded + 1 - 2 * cfg.k = encoded - 2 * cfg.k + 1 := by omega
      have error : e = onlineError env.np (encodedLatent env encoder cfg sims W) cfg.k encoded
          cfg.metric := by
        have formula := tracks.historyError_eq least encodes enough
        rw [latentAt, computed] at formula
        exact Option.some.inj formula
      refine ⟨encoded + 1, ?_, ?_, tracks.encoded_iff_of_encodes stepPositive least encodes,
        ?_, ?_⟩
      · rw [hysteresis_buf]
        exact tracks.observe_buf
      · rw [hysteresis_hist]
        exact tracks.pushLatent_hist least encodes
      · rw [hysteresis_zLog, next, List.range_succ, List.map_append, ← tracks.zTimes]
        simp [appendLogs, pushLatent, observe, position, ← tracks.next_encoded least encodes]
      · rw [hysteresis_dbgLog, next, List.range_succ, List.map_append, ← tracks.dbg]
        simp [appendLogs, pushLatent, observe, position, error,
          ← tracks.next_encoded least encodes]

/-- A call raises no exception when no bucket has the deviation zero. -/
theorem Tracks.exists_step (framesPositive : 0 < cfg.framesN) (stepPositive : 0 < cfg.step)
    (stridePositive : 0 < cfg.stride) (least : IsLeast {w | cfg.step ∣ w ∧ cfg.warmup ≤ w} W)
    (regular : ∀ b, (cfg.lookup b).2 ≠ some 0) (policy : ScriptedPickPlace K) :
    ∃ fired after, OnlineJepaTrigger.step env encoder st T (sims T) policy =
      .ok (fired, after) := by
  rw [OnlineJepaTrigger.step, if_neg stepPositive.ne']
  by_cases skipped : T % cfg.step ≠ 0 ∨ T < cfg.warmup
  · rw [if_pos skipped]
    exact ⟨_, _, rfl⟩
  · rw [if_neg skipped]
    rw [not_or, not_not, not_lt] at skipped
    have nonempty : (OnlineJepaTrigger.observe env st (sims T)).buf.items ≠ [] := by
      have length := tracks.observe_buf.length
      rw [length_framesUntil] at length
      have capacity : 0 < cfg.framesN * cfg.stride := Nat.mul_pos framesPositive stridePositive
      intro empty
      rw [empty, List.length_nil] at length
      omega
    rw [stack, if_neg nonempty, Fallible.ok_bind, tracks.buildClip_observe stridePositive,
      Fallible.ok_bind]
    dsimp only
    split
    case isTrue => exact ⟨_, _, rfl⟩
    case isFalse full =>
      have enough : 2 * cfg.k ≤ encoded := by
        have := (tracks.length_hist least skipped).not.mp full
        omega
      have formula := tracks.historyError_eq least skipped enough
      rw [latentAt] at formula
      rw [formula, Fallible.orRaise, Fallible.ok_bind, zScore, if_neg (regular _)]
      exact ⟨_, _, rfl⟩

end Step

/-- A run that returns is described by `Tracks`. -/
theorem exists_tracks (stepPositive : 0 < cfg.step) (stridePositive : 0 < cfg.stride)
    (least : IsLeast {w | cfg.step ∣ w ∧ cfg.warmup ≤ w} W) {st : TriggerState Row K D cfg}
    (ran : runSteps env encoder cfg sims policies T = .ok st) :
    ∃ encoded, Tracks env encoder cfg sims W encoded T st := by
  induction T generalizing st with
  | zero =>
      obtain rfl := Except.ok.inj ran
      exact ⟨0, tracks_reset⟩
  | succ T induction =>
      obtain ⟨before, earlier, rest⟩ := Fallible.bind_eq_ok.mp ran
      obtain ⟨⟨fired, after⟩, called, returned⟩ := Fallible.bind_eq_ok.mp rest
      obtain rfl := Except.ok.inj returned
      obtain ⟨encoded, tracks⟩ := induction earlier
      exact tracks.step stepPositive stridePositive least called

/-- No call of a run raises when no bucket has the deviation zero. -/
theorem exists_runSteps (framesPositive : 0 < cfg.framesN) (stepPositive : 0 < cfg.step)
    (stridePositive : 0 < cfg.stride) (least : IsLeast {w | cfg.step ∣ w ∧ cfg.warmup ≤ w} W)
    (regular : ∀ b, (cfg.lookup b).2 ≠ some 0) (T : ℕ) :
    ∃ st, runSteps env encoder cfg sims policies T = .ok st := by
  induction T with
  | zero => exact ⟨_, rfl⟩
  | succ T induction =>
      obtain ⟨before, earlier⟩ := induction
      obtain ⟨encoded, tracks⟩ := exists_tracks stepPositive stridePositive least earlier
      obtain ⟨fired, after, called⟩ :=
        tracks.exists_step framesPositive stepPositive stridePositive least regular (policies T)
      exact ⟨after, by rw [runSteps, earlier, Fallible.ok_bind, called, Fallible.ok_bind]⟩

/-- The logged time stamps, in increasing order. -/
theorem Tracks.zTimes_pairwise {st : TriggerState Row K D cfg}
    (tracks : Tracks env encoder cfg sims W encoded T st) (positive : 0 < cfg.step) :
    (st.zLog.map Prod.fst).Pairwise (· < ·) := by
  rw [tracks.zTimes, List.pairwise_map]
  refine List.pairwise_lt_range.imp fun {i j} ordered => ?_
  exact Nat.add_lt_add_left (Nat.mul_lt_mul_of_pos_right (by omega) positive) W

theorem Tracks.mem_zTimes {st : TriggerState Row K D cfg}
    (tracks : Tracks env encoder cfg sims W encoded T st) (aligned : cfg.step ∣ W) {t : ℕ} :
    t ∈ st.zLog.map Prod.fst ↔ t < T ∧ cfg.step ∣ t ∧ W + 2 * cfg.k * cfg.step ≤ t := by
  have spread : ∀ j, (j + 2 * cfg.k) * cfg.step = j * cfg.step + 2 * cfg.k * cfg.step :=
    fun j => Nat.add_mul ..
  rw [tracks.zTimes, List.mem_map]
  constructor
  · rintro ⟨j, member, rfl⟩
    have inside : j < encoded - 2 * cfg.k := List.mem_range.mp member
    refine ⟨(tracks.encoded_iff _).mp (by omega), Nat.dvd_add aligned (Nat.dvd_mul_left ..), ?_⟩
    have := spread j
    omega
  · rintro ⟨inside, divides, late⟩
    obtain ⟨j, difference⟩ := Nat.dvd_sub divides
      (Nat.dvd_add aligned (Nat.dvd_mul_left cfg.step (2 * cfg.k)))
    have position : t = W + (j + 2 * cfg.k) * cfg.step := by
      rw [mul_comm cfg.step j] at difference
      have := spread j
      omega
    have encodedBefore := (tracks.encoded_iff (j + 2 * cfg.k)).mpr (position ▸ inside)
    exact ⟨j, List.mem_range.mpr (by omega), position.symm⟩

/-- Every logged error is that of its time stamp. -/
theorem Tracks.dbg_error {st : TriggerState Row K D cfg}
    (tracks : Tracks env encoder cfg sims W encoded T st) (metric : cfg.metric = .abs)
    {row : DbgRow K} (logged : row ∈ st.dbgLog) :
    row.e = stampError env encoder cfg sims row.t := by
  have member : (row.t, row.e) ∈ st.dbgLog.map fun row => (row.t, row.e) :=
    List.mem_map_of_mem logged
  rw [tracks.dbg] at member
  obtain ⟨j, -, equality⟩ := List.mem_map.mp member
  obtain ⟨time, error⟩ := Prod.mk.inj equality
  have lag : W + (j + 2 * cfg.k - cfg.k) * cfg.step = row.t - cfg.k * cfg.step := by
    rw [Nat.sub_mul]
    have := Nat.mul_le_mul_right cfg.step (show cfg.k ≤ j + 2 * cfg.k by omega)
    omega
  have lag₂ : W + (j + 2 * cfg.k - 2 * cfg.k) * cfg.step = row.t - 2 * cfg.k * cfg.step := by
    rw [Nat.sub_mul]
    have := Nat.mul_le_mul_right cfg.step (show 2 * cfg.k ≤ j + 2 * cfg.k by omega)
    omega
  rw [← error, metric, onlineError_abs, predictionResidual, encodedLatent, encodedLatent,
    encodedLatent, lag, lag₂, time, stampError]

end OnlineJepaTrigger

/-! ## The stored latents -/

omit [Field K] [LinearOrder K] in
/-- The stored features are the latents of the clips of the stored time stamps. -/
theorem feat_computeLatents {encoder : VideoEncoder Frame Z K D} {args : LatentArgs}
    {frameAt : ℕ → Frame} {T : ℕ} {episode : EpisodeRecord K} {ep : Latents K D}
    (stored : Stored encoder args ((List.range T).map frameAt) episode ep) (name : FeatureName) :
    feat ep name = ep.t.map fun t =>
      (encoder.pooled ((clipIndices t args.frames args.stride).map frameAt)).feature name := by
  have clips : pooledClips encoder args ((List.range T).map frameAt) ep.t = .ok (ep.t.map fun t =>
      encoder.pooled ((clipIndices t args.frames args.stride).map frameAt)) := by
    apply Fallible.mapM_eq_map
    intro t member
    have inside := stored.lt_length member
    rw [List.length_map, List.length_range] at inside
    rw [buildClip_map_range inside, Fallible.ok_bind]
  obtain ⟨pooled, encoded, features⟩ := stored.feat_eq_map
  rw [clips] at encoded
  obtain rfl := Except.ok.inj encoded
  rw [features name, List.map_map]
  rfl

namespace OnlineJepaTrigger

variable {env : Env K E R Row} {encoder : VideoEncoder (List Row) Z K D} {cfg : TriggerConfig K}
  {sims : ℕ → E} {policies : ℕ → ScriptedPickPlace K} {W T : ℕ}

/-- The stored latents give the same errors at their time stamps. -/
theorem errors_getElem?_stamp {args : LatentArgs} {episode : EpisodeRecord K} {ep : Latents K D}
    (frames : args.frames = cfg.framesN) (stride : args.stride = cfg.stride)
    (step : args.step = cfg.step)
    (stored : computeLatents encoder args (framesUntil env cfg sims T) episode = .ok ep) {i t : ℕ}
    (found : ep.t[i]? = some t) (late : 2 * cfg.k * cfg.step ≤ t) :
    (errors env.np (feat ep cfg.feature) cfg.k .abs)[i]? =
      some (some (stampError env encoder cfg sims t)) := by
  have inversion := stored_of_computeLatents stored
  have positive := inversion.step_pos
  have times := inversion.times
  have features := feat_computeLatents inversion cfg.feature
  rw [frames, stride] at features
  rw [step] at positive times
  rw [length_framesUntil] at times
  have latents : feat ep cfg.feature =
      (List.range ((latentStop args episode.perturbStep T + cfg.step - 1) / cfg.step)).map
        fun i => latentAt env encoder cfg sims (i * cfg.step) := by
    rw [features, times, rangeStep, List.map_map]
    rfl
  have inside : i < (latentStop args episode.perturbStep T + cfg.step - 1) / cfg.step := by
    have := (List.getElem?_eq_some_iff.mp found).1
    simpa [times, rangeStep] using this
  rw [times, rangeStep_getElem? positive] at found
  obtain ⟨-, rfl⟩ := found
  have bound : 2 * cfg.k ≤ i := Nat.le_of_mul_le_mul_right late positive
  rw [latents, errors_getElem? env.np _ .abs bound inside, offlineDenominator, div_one,
    predictionResidual, Nat.sub_mul, Nat.sub_mul, stampError]

/-- A run of the trigger logs exactly the multiples of the step from `2 * k` encodes after the
warm-up on, and the error it logs is that of the complete frame array and of the stored latents.
It returns unless some bucket has the deviation zero. -/
theorem runSteps_matches_offline (framesPositive : 0 < cfg.framesN)
    (stepPositive : 0 < cfg.step) (stridePositive : 0 < cfg.stride) (metric : cfg.metric = .abs)
    (least : IsLeast {w | cfg.step ∣ w ∧ cfg.warmup ≤ w} W) :
    (∀ t < T, clipLatent encoder cfg (framesUntil env cfg sims T) t =
        .ok (latentAt env encoder cfg sims t)) ∧
      ((∀ b, (cfg.lookup b).2 ≠ some 0) →
        ∃ st, runSteps env encoder cfg sims policies T = .ok st) ∧
      ∀ st, runSteps env encoder cfg sims policies T = .ok st →
        (st.zLog.map Prod.fst).Pairwise (· < ·) ∧
        (∀ t, t ∈ st.zLog.map Prod.fst ↔
          t < T ∧ cfg.step ∣ t ∧ W + 2 * cfg.k * cfg.step ≤ t) ∧
        st.dbgLog.map DbgRow.t = st.zLog.map Prod.fst ∧
        ∀ row ∈ st.dbgLog, row.e = stampError env encoder cfg sims row.t ∧
          ∀ (args : LatentArgs) (episode : EpisodeRecord K) (ep : Latents K D),
            args.frames = cfg.framesN → args.stride = cfg.stride → args.step = cfg.step →
            computeLatents encoder args (framesUntil env cfg sims T) episode = .ok ep →
            row.t < latentStop args episode.perturbStep T →
            ep.t[row.t / cfg.step]? = some row.t ∧
              (errors env.np (feat ep cfg.feature) cfg.k .abs)[row.t / cfg.step]? =
                some (some row.e) := by
  refine ⟨fun t inside => ?_, fun regular => exists_runSteps framesPositive stepPositive
    stridePositive least regular T, fun st ran => ?_⟩
  · rw [clipLatent, framesUntil, buildClip_map_range inside, Fallible.ok_bind]
    rfl
  · obtain ⟨encoded, tracks⟩ := exists_tracks stepPositive stridePositive least ran
    have stamps : st.dbgLog.map DbgRow.t = st.zLog.map Prod.fst := by
      have := congrArg (List.map Prod.fst) tracks.dbg
      rw [List.map_map, List.map_map] at this
      rw [tracks.zTimes]
      exact this
    refine ⟨tracks.zTimes_pairwise stepPositive, fun t => tracks.mem_zTimes least.1.1, stamps,
      fun row logged => ⟨tracks.dbg_error metric logged, ?_⟩⟩
    intro args episode ep frames stride step stored early
    have stamp : row.t ∈ st.zLog.map Prod.fst := stamps ▸ List.mem_map_of_mem logged
    obtain ⟨-, divides, late⟩ := (tracks.mem_zTimes least.1.1).mp stamp
    have inversion := stored_of_computeLatents stored
    have times := inversion.times
    have positive := inversion.step_pos
    have multiple : row.t / cfg.step * cfg.step = row.t := Nat.div_mul_cancel divides
    have found : ep.t[row.t / cfg.step]? = some row.t := by
      rw [times, rangeStep_getElem? positive, step, multiple, length_framesUntil]
      exact ⟨early, rfl⟩
    refine ⟨found, ?_⟩
    rw [tracks.dbg_error metric logged]
    exact errors_getElem?_stamp frames stride step stored found (by omega)

theorem runSteps_matches_offline_still :
    ∃ st, runSteps (.still 0 0) (.zero (List Unit) ℚ 1) (.ofGlobal 0 1) (fun _ => 0)
        (fun _ => .init {}) 25 = .ok st ∧ 20 ∈ st.zLog.map Prod.fst := by
  have least : IsLeast {w | 2 ∣ w ∧ 16 ≤ w} 16 := ⟨by decide, fun w member => member.2⟩
  have regular : ∀ b, ((TriggerConfig.ofGlobal (0 : ℚ) 1).lookup b).2 ≠ some 0 := by
    intro b
    simp [TriggerConfig.lookup, TriggerConfig.ofGlobal]
  obtain ⟨-, returns, logs⟩ := @runSteps_matches_offline ℚ _ _ ℕ Unit Unit Unit 1 (.still 0 0)
    (.zero (List Unit) ℚ 1) (.ofGlobal 0 1) (fun _ => 0) (fun _ => .init {}) 16 25 (by decide)
    (by decide) (by decide) rfl least
  obtain ⟨st, ran⟩ := returns regular
  exact ⟨st, ran, ((logs st ran).2.1 20).mpr (by decide)⟩

end OnlineJepaTrigger

end G1Jepa
