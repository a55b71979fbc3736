import G1Jepa.CollectData

/-!
# Cached latents

`build_clip` and the encoding loop of `compute_latents.py`, which stores the pooled latents of
an episode together with the labels of the encoded steps. The video encoder is a parameter.
-/

namespace G1Jepa

inductive FeatureName
  | mean
  | temporal
  | grid
  deriving DecidableEq, Repr

/-- The index of an entry of a flattened feature with `D` channels. -/
def FeatureName.Idx (D : ℕ) : FeatureName → Type
  | .mean => Fin D
  | .temporal => Fin 8 × Fin D
  | .grid => Fin 16 × Fin D

instance (D : ℕ) : (name : FeatureName) → Fintype (name.Idx D)
  | .mean => inferInstanceAs (Fintype (Fin D))
  | .temporal => inferInstanceAs (Fintype (Fin 8 × Fin D))
  | .grid => inferInstanceAs (Fintype (Fin 16 × Fin D))

/-- The three poolings of a latent. -/
structure Pooled (K : Type) (D : ℕ) where
  mean : Fin D → K
  temporal : Fin 8 → Fin D → K
  grid : Fin 16 → Fin D → K

/-- One pooling as a vector. -/
def Pooled.feature {K : Type} {D : ℕ} (pooled : Pooled K D) :
    (name : FeatureName) → name.Idx D → K
  | .mean => pooled.mean
  | .temporal => fun i => pooled.temporal i.1 i.2
  | .grid => fun i => pooled.grid i.1 i.2

/-- The video encoder and the pooling of its tokens, both functions of their argument only. -/
structure VideoEncoder (Frame Z K : Type) (D : ℕ) where
  encode : List Frame → Z
  pool : Z → Pooled K D

/-- `encode` followed by `pool`. -/
def VideoEncoder.pooled {Frame Z K : Type} {D : ℕ} (encoder : VideoEncoder Frame Z K D)
    (clip : List Frame) : Pooled K D :=
  encoder.pool (encoder.encode clip)

/-- The encoder that maps every clip to the zero latent. -/
def VideoEncoder.zero (Frame K : Type) [Zero K] (D : ℕ) : VideoEncoder Frame Unit K D where
  encode _ := ()
  pool _ := { mean := 0, temporal := 0, grid := 0 }

/-- The unclamped index of the `i`th frame of the clip that ends with frame `t`. -/
def clipIndex (t nFrames stride i : ℕ) : ℤ :=
  t - stride * (nFrames - 1 - i)

/-- The frame indices of a clip: indices before the first frame are clamped to it. -/
def clipIndices (t nFrames stride : ℕ) : List ℕ :=
  (List.range nFrames).map fun i => (max 0 (clipIndex t nFrames stride i)).toNat

def buildClip {Frame : Type} (frames : List Frame) (t nFrames stride : ℕ) :
    Except PyError (List Frame) :=
  (clipIndices t nFrames stride).mapM fun i => Fallible.orRaise .indexError frames[i]?

/-- `np.stack`, which needs at least one array. -/
def stack {α : Type} (arrays : List α) : Except PyError (List α) :=
  if arrays = [] then .error (.valueError "need at least one array to stack") else .ok arrays

/-- `xs[ts]` for an array of indices. -/
def takeAt {α : Type} (xs : List α) (ts : List ℕ) : Except PyError (List α) :=
  ts.mapM fun t => Fallible.orRaise .indexError xs[t]?

/-- `range(0, stop, step)` for a positive step. -/
def rangeStep (stop step : ℕ) : List ℕ :=
  (List.range ((stop + step - 1) / step)).map (· * step)

/-- The arguments that decide what is stored for an episode. -/
structure LatentArgs where
  frames : ℕ := 16
  stride : ℕ := 1
  step : ℕ := 2
  tail : ℤ := 80

/-- The latents stored for an episode. -/
structure Latents (K : Type) (D : ℕ) where
  t : List ℕ
  mean : List (Fin D → K)
  temporal : List (Fin 8 → Fin D → K)
  grid : List (Fin 16 → Fin D → K)
  phase : List ℤ
  phaseStep : List ℤ
  action : List (Fin 7 → K)
  obj : List (Fin 3 → K)
  eef : List (Fin 3 → K)
  perturbStep : ℤ
  success : Bool

variable {Frame Z K : Type} {D : ℕ}

/-- The number of steps that are candidates for encoding. -/
def latentStop (args : LatentArgs) (perturbStep : ℤ) (T : ℕ) : ℕ :=
  if 0 ≤ perturbStep then (min (T : ℤ) (perturbStep + args.tail)).toNat else T

/-- The encoded time stamps. -/
def latentTimes (args : LatentArgs) (perturbStep : ℤ) (T : ℕ) : Except PyError (List ℕ) :=
  if args.step = 0 then .error (.valueError "range() arg 3 must not be zero")
  else .ok (rangeStep (latentStop args perturbStep T) args.step)

/-- The pooled latents of the clips that end at the given steps. -/
def pooledClips (encoder : VideoEncoder Frame Z K D) (args : LatentArgs) (frames : List Frame)
    (ts : List ℕ) : Except PyError (List (Pooled K D)) :=
  ts.mapM fun t => do
    let clip ← buildClip frames t args.frames args.stride
    .ok (encoder.pooled clip)

/-- One iteration of the main loop: encode an episode and store what the analysis needs. -/
def computeLatents (encoder : VideoEncoder Frame Z K D) (args : LatentArgs)
    (frames : List Frame) (episode : EpisodeRecord K) : Except PyError (Latents K D) := do
  let ts ← latentTimes args episode.perturbStep frames.length
  let pooled ← pooledClips encoder args frames ts
  let mean ← stack (pooled.map Pooled.mean)
  let temporal ← stack (pooled.map Pooled.temporal)
  let grid ← stack (pooled.map Pooled.grid)
  let phase ← takeAt episode.phase ts
  let phaseStep ← takeAt episode.phaseStep ts
  let action ← takeAt episode.action ts
  let obj ← takeAt episode.obj ts
  let eef ← takeAt episode.eef ts
  .ok { t := ts, mean, temporal, grid, phase, phaseStep, action, obj, eef
        perturbStep := episode.perturbStep, success := episode.success }

theorem stack_eq_ok {α : Type} {arrays result : List α} (stacked : stack arrays = .ok result) :
    result = arrays := by
  rw [stack] at stacked
  split at stacked
  · contradiction
  · exact (Except.ok.inj stacked).symm

theorem takeAt_length {α : Type} {xs result : List α} {ts : List ℕ}
    (taken : takeAt xs ts = .ok result) : result.length = ts.length :=
  (Fallible.mapM_eq_ok_iff.mp taken).length_eq.symm

theorem latentStop_le (args : LatentArgs) (perturbStep : ℤ) (T : ℕ) :
    latentStop args perturbStep T ≤ T := by
  rw [latentStop]
  split <;> omega

theorem rangeStep_getElem? {stop step i t : ℕ} (positive : 0 < step) :
    (rangeStep stop step)[i]? = some t ↔ i * step < stop ∧ t = i * step := by
  have inside : i < (stop + step - 1) / step ↔ i * step < stop := by
    rw [Nat.lt_div_iff_mul_lt positive]
    omega
  rw [rangeStep, List.getElem?_map, Option.map_eq_some_iff]
  constructor
  · rintro ⟨j, found, rfl⟩
    obtain ⟨bound, same⟩ := List.getElem?_eq_some_iff.mp found
    rw [List.getElem_range] at same
    rw [List.length_range, inside] at bound
    exact ⟨bound, by rw [same]⟩
  · rintro ⟨bound, rfl⟩
    exact ⟨i, List.getElem?_range (inside.mpr bound), rfl⟩

/-- What the main loop stores for an episode that it encodes without an exception. -/
structure Stored (encoder : VideoEncoder Frame Z K D) (args : LatentArgs) (frames : List Frame)
    (episode : EpisodeRecord K) (ep : Latents K D) : Prop where
  step_pos : 0 < args.step
  times : ep.t = rangeStep (latentStop args episode.perturbStep frames.length) args.step
  features : ∃ pooled, pooledClips encoder args frames ep.t = .ok pooled ∧
    ep.mean = pooled.map Pooled.mean ∧ ep.temporal = pooled.map Pooled.temporal ∧
    ep.grid = pooled.map Pooled.grid
  phase : takeAt episode.phase ep.t = .ok ep.phase
  phaseStep : takeAt episode.phaseStep ep.t = .ok ep.phaseStep

variable {encoder : VideoEncoder Frame Z K D} {args : LatentArgs} {frames : List Frame}
  {episode : EpisodeRecord K} {ep : Latents K D}

/-- What the main loop has read and stored for an episode that it encodes without an exception. -/
theorem computeLatents_eq_ok : computeLatents encoder args frames episode = .ok ep ↔
    latentTimes args episode.perturbStep frames.length = .ok ep.t ∧
      (∃ pooled, pooledClips encoder args frames ep.t = .ok pooled ∧
        stack (pooled.map Pooled.mean) = .ok ep.mean ∧
        stack (pooled.map Pooled.temporal) = .ok ep.temporal ∧
        stack (pooled.map Pooled.grid) = .ok ep.grid) ∧
      takeAt episode.phase ep.t = .ok ep.phase ∧
      takeAt episode.phaseStep ep.t = .ok ep.phaseStep ∧
      takeAt episode.action ep.t = .ok ep.action ∧ takeAt episode.obj ep.t = .ok ep.obj ∧
      takeAt episode.eef ep.t = .ok ep.eef ∧ ep.perturbStep = episode.perturbStep ∧
      ep.success = episode.success := by
  constructor
  · intro computed
    obtain ⟨ts, times, rest⟩ := Fallible.bind_eq_ok.mp computed
    obtain ⟨pooled, encoded, rest⟩ := Fallible.bind_eq_ok.mp rest
    obtain ⟨mean, meanStacked, rest⟩ := Fallible.bind_eq_ok.mp rest
    obtain ⟨temporal, temporalStacked, rest⟩ := Fallible.bind_eq_ok.mp rest
    obtain ⟨grid, gridStacked, rest⟩ := Fallible.bind_eq_ok.mp rest
    obtain ⟨phase, phaseTaken, rest⟩ := Fallible.bind_eq_ok.mp rest
    obtain ⟨phaseStep, phaseStepTaken, rest⟩ := Fallible.bind_eq_ok.mp rest
    obtain ⟨action, actionTaken, rest⟩ := Fallible.bind_eq_ok.mp rest
    obtain ⟨obj, objTaken, rest⟩ := Fallible.bind_eq_ok.mp rest
    obtain ⟨eef, eefTaken, rest⟩ := Fallible.bind_eq_ok.mp rest
    obtain rfl := Except.ok.inj rest
    exact ⟨times, ⟨pooled, encoded, meanStacked, temporalStacked, gridStacked⟩, phaseTaken,
      phaseStepTaken, actionTaken, objTaken, eefTaken, rfl, rfl⟩
  · obtain ⟨ts, mean, temporal, grid, phase, phaseStep, action, obj, eef, perturbStep, success⟩ :=
      ep
    rintro ⟨times, ⟨pooled, encoded, meanStacked, temporalStacked, gridStacked⟩, phaseTaken,
      phaseStepTaken, actionTaken, objTaken, eefTaken, rfl, rfl⟩
    rw [computeLatents, times, Fallible.ok_bind, encoded, Fallible.ok_bind, meanStacked,
      Fallible.ok_bind, temporalStacked, Fallible.ok_bind, gridStacked, Fallible.ok_bind,
      phaseTaken, Fallible.ok_bind, phaseStepTaken, Fallible.ok_bind, actionTaken,
      Fallible.ok_bind, objTaken, Fallible.ok_bind, eefTaken, Fallible.ok_bind]

theorem stored_of_computeLatents
    (computed : computeLatents encoder args frames episode = .ok ep) :
    Stored encoder args frames episode ep := by
  obtain ⟨times, ⟨pooled, encoded, mean, temporal, grid⟩, phase, phaseStep, -⟩ :=
    computeLatents_eq_ok.mp computed
  rw [latentTimes] at times
  split at times
  · contradiction
  case isFalse nonzero =>
    exact
      { step_pos := Nat.pos_of_ne_zero nonzero
        times := (Except.ok.inj times).symm
        features := ⟨pooled, encoded, stack_eq_ok mean, stack_eq_ok temporal, stack_eq_ok grid⟩
        phase
        phaseStep }

theorem Stored.getElem?_eq_some (stored : Stored encoder args frames episode ep) {i t : ℕ} :
    ep.t[i]? = some t ↔
      i * args.step < latentStop args episode.perturbStep frames.length ∧ t = i * args.step := by
  rw [stored.times, rangeStep_getElem? stored.step_pos]

theorem Stored.getElem?_t (stored : Stored encoder args frames episode ep) {i : ℕ}
    (inside : i < ep.t.length) : ep.t[i]? = some (i * args.step) := by
  have found : ep.t[i]? = some ep.t[i] := List.getElem?_eq_getElem inside
  rw [found, (stored.getElem?_eq_some.mp found).2]

theorem Stored.lt_length (stored : Stored encoder args frames episode ep) {t : ℕ}
    (member : t ∈ ep.t) : t < frames.length := by
  obtain ⟨i, found⟩ := List.mem_iff_getElem?.mp member
  obtain ⟨bound, rfl⟩ := stored.getElem?_eq_some.mp found
  exact bound.trans_le (latentStop_le args episode.perturbStep frames.length)

/-- Indices inside an array can be taken. -/
theorem exists_takeAt {α : Type} {xs : List α} {ts : List ℕ} (inside : ∀ t ∈ ts, t < xs.length) :
    ∃ result, takeAt xs ts = .ok result := by
  refine Fallible.exists_mapM_eq_ok fun t member => ⟨xs.get ⟨t, inside t member⟩, ?_⟩
  rw [List.getElem?_eq_getElem (inside t member)]
  rfl

theorem clipIndices_le {t n stride i : ℕ} (member : i ∈ clipIndices t n stride) : i ≤ t := by
  obtain ⟨j, range, rfl⟩ := List.mem_map.mp member
  have inside : j < n := List.mem_range.mp range
  have : (0 : ℤ) ≤ stride * (n - 1 - j) := by
    refine mul_nonneg (by omega) (by omega)
  rw [clipIndex]
  omega

/-- An episode whose labels cover its frames is encoded without an exception. -/
theorem exists_computeLatents (stepPositive : 0 < args.step)
    (nonempty : 0 < latentStop args episode.perturbStep frames.length)
    (phase : episode.phase.length = frames.length)
    (phaseStep : episode.phaseStep.length = frames.length)
    (action : episode.action.length = frames.length)
    (obj : episode.obj.length = frames.length) (eef : episode.eef.length = frames.length) :
    ∃ ep, computeLatents encoder args frames episode = .ok ep := by
  have times : latentTimes args episode.perturbStep frames.length =
      .ok (rangeStep (latentStop args episode.perturbStep frames.length) args.step) :=
    if_neg stepPositive.ne'
  have inside : ∀ t ∈ rangeStep (latentStop args episode.perturbStep frames.length) args.step,
      t < frames.length := by
    intro t member
    obtain ⟨i, found⟩ := List.mem_iff_getElem?.mp member
    obtain ⟨bound, rfl⟩ := (rangeStep_getElem? stepPositive).mp found
    exact bound.trans_le (latentStop_le args episode.perturbStep frames.length)
  have first : (rangeStep (latentStop args episode.perturbStep frames.length) args.step)[0]? =
      some 0 := (rangeStep_getElem? stepPositive).mpr ⟨by omega, by omega⟩
  obtain ⟨pooled, encoded⟩ : ∃ pooled, pooledClips encoder args frames
      (rangeStep (latentStop args episode.perturbStep frames.length) args.step) = .ok pooled := by
    apply Fallible.exists_mapM_eq_ok
    intro t member
    obtain ⟨clip, built⟩ : ∃ clip, buildClip frames t args.frames args.stride = .ok clip :=
      exists_takeAt fun i clamped => (clipIndices_le clamped).trans_lt (inside t member)
    exact ⟨_, by rw [built, Fallible.ok_bind]⟩
  have pooledNonempty : pooled ≠ [] := by
    intro empty
    have length := (Fallible.mapM_eq_ok_iff.mp encoded).length_eq
    rw [empty, List.length_nil, List.length_eq_zero_iff] at length
    rw [length] at first
    contradiction
  have covers : ∀ {α : Type} {xs : List α}, xs.length = frames.length → ∃ result, takeAt xs
      (rangeStep (latentStop args episode.perturbStep frames.length) args.step) = .ok result :=
    fun length => exists_takeAt fun t member => length ▸ inside t member
  obtain ⟨phases, phaseTaken⟩ := covers phase
  obtain ⟨phaseSteps, phaseStepTaken⟩ := covers phaseStep
  obtain ⟨actions, actionTaken⟩ := covers action
  obtain ⟨objs, objTaken⟩ := covers obj
  obtain ⟨eefs, eefTaken⟩ := covers eef
  have stacked : ∀ {α : Type} (f : Pooled K D → α), stack (pooled.map f) = .ok (pooled.map f) :=
    fun f => if_neg (by simpa using pooledNonempty)
  refine ⟨
    { t := rangeStep (latentStop args episode.perturbStep frames.length) args.step
      mean := pooled.map Pooled.mean, temporal := pooled.map Pooled.temporal
      grid := pooled.map Pooled.grid, phase := phases, phaseStep := phaseSteps
      action := actions, obj := objs, eef := eefs
      perturbStep := episode.perturbStep, success := episode.success }, ?_⟩
  exact computeLatents_eq_ok.mpr ⟨times, ⟨pooled, encoded, stacked _, stacked _, stacked _⟩,
    phaseTaken, phaseStepTaken, actionTaken, objTaken, eefTaken, rfl, rfl⟩

/-- The latents of a blank episode, every other step of which is encoded. -/
theorem exists_blank_latents (T : ℕ) (nonempty : 0 < T) :
    ∃ ep, computeLatents (.zero Unit ℚ 1) {} (List.replicate T ()) (.blank T) = .ok ep ∧
      ep.t = rangeStep T 2 := by
  obtain ⟨ep, computed⟩ : ∃ ep, computeLatents (.zero Unit ℚ 1) {} (List.replicate T ())
      (.blank T) = .ok ep :=
    exists_computeLatents (by decide) (by simpa [latentStop, EpisodeRecord.blank] using nonempty)
      (by simp [EpisodeRecord.blank]) (by simp [EpisodeRecord.blank])
      (by simp [EpisodeRecord.blank]) (by simp [EpisodeRecord.blank])
      (by simp [EpisodeRecord.blank])
  refine ⟨ep, computed, ?_⟩
  rw [(stored_of_computeLatents computed).times]
  simp [latentStop, EpisodeRecord.blank]

end G1Jepa
