import G1Jepa.ComputeLatents
import G1Jepa.Library.Debounce
import G1Jepa.Library.Dict

/-!
# Offline error analysis

The prediction error, the state buckets, the calibration and the detector of `analyze_error2.py`,
all computed from stored latents.
-/

namespace G1Jepa

variable {K : Type} [Field K] [LinearOrder K] {ι : Type} [Fintype ι] {D : ℕ}

inductive Metric
  | abs
  | rel
  deriving DecidableEq, Repr

/-- The stored vectors of one feature, flattened. -/
def feat (ep : Latents K D) : (name : FeatureName) → List (name.Idx D → K)
  | .mean => ep.mean
  | .temporal => ep.temporal.map fun v i => v i.1 i.2
  | .grid => ep.grid.map fun v i => v i.1 i.2

omit [Field K] [LinearOrder K] in
theorem Stored.feat_eq_map {Frame Z : Type} {encoder : VideoEncoder Frame Z K D}
    {args : LatentArgs} {frames : List Frame} {episode : EpisodeRecord K} {ep : Latents K D}
    (stored : Stored encoder args frames episode ep) :
    ∃ pooled, pooledClips encoder args frames ep.t = .ok pooled ∧
      ∀ name, feat ep name = pooled.map fun pooled => pooled.feature name := by
  obtain ⟨pooled, encoded, means, temporals, grids⟩ := stored.features
  refine ⟨pooled, encoded, fun name => ?_⟩
  cases name with
  | mean => exact means
  | temporal => rw [feat, temporals, List.map_map]; rfl
  | grid => rw [feat, grids, List.map_map]; rfl

omit [Field K] [LinearOrder K] in
theorem Stored.length_feat {Frame Z : Type} {encoder : VideoEncoder Frame Z K D}
    {args : LatentArgs} {frames : List Frame} {episode : EpisodeRecord K} {ep : Latents K D}
    (stored : Stored encoder args frames episode ep) (name : FeatureName) :
    (feat ep name).length = ep.t.length := by
  obtain ⟨pooled, encoded, features⟩ := stored.feat_eq_map
  rw [features name, List.length_map]
  exact (Fallible.mapM_eq_ok_iff.mp encoded).length_eq.symm

/-- The error of the linear prediction of `f[i]`; NaN for the first `2 * k` indices. -/
def errorAt (np : Numpy K) (f : List (ι → K)) (k : ℕ) (metric : Metric) (i : ℕ) : NanOr K :=
  if i < 2 * k then none
  else do
    let current ← f[i]?
    let lag ← f[i - k]?
    let lag₂ ← f[i - 2 * k]?
    let pred := (2 : K) • lag - lag₂
    let resid := np.norm (pred - current)
    match metric with
    | .rel =>
        let motion := np.norm (current - lag) + 1 / 10 ^ 6
        some (resid / motion)
    | .abs => some resid

def errors (np : Numpy K) (f : List (ι → K)) (k : ℕ) (metric : Metric) : List (NanOr K) :=
  (List.range f.length).map (errorAt np f k metric)

/-- The error of an index is a number exactly when the three vectors exist. -/
theorem errorAt_isSome (np : Numpy K) (f : List (ι → K)) (k : ℕ) (metric : Metric) (i : ℕ) :
    (errorAt np f k metric i).isSome ↔ 2 * k ≤ i ∧ i < f.length := by
  rw [errorAt]
  split
  case isTrue early => simp [early]
  case isFalse late =>
    rcases Nat.lt_or_ge i f.length with inside | beyond
    · have current : f[i]? = some f[i] := List.getElem?_eq_getElem inside
      have lag : f[i - k]? = some f[i - k] := List.getElem?_eq_getElem (by omega)
      have lag₂ : f[i - 2 * k]? = some f[i - 2 * k] := List.getElem?_eq_getElem (by omega)
      rw [current, lag, lag₂]
      cases metric <;> simp [inside, not_lt.mp late]
    · simp [beyond]

theorem errors_getElem?_eq_some (np : Numpy K) {f : List (ι → K)} {k : ℕ} {metric : Metric}
    {i : ℕ} {e : NanOr K} : (errors np f k metric)[i]? = some e ↔
      i < f.length ∧ errorAt np f k metric i = e := by
  rcases Nat.lt_or_ge i f.length with inside | beyond
  · simp [errors, inside]
  · simp [errors, beyond]

/-- The bucket id for `n_sub` sub-phases of `sub_size` steps. -/
def bucketWith (nSub subSize : ℤ) (phase phaseStep : ℤ) : ℤ :=
  let sub := min (phaseStep.fdiv subSize) (nSub - 1)
  phase * nSub + sub

/-- `bucket` with its default arguments. -/
def bucket : ℤ → ℤ → ℤ := bucketWith 3 6

theorem bucket_eq (phase phaseStep : ℤ) :
    bucket phase phaseStep = phase * 3 + min (phaseStep / 6) 2 := by
  simp [bucket, bucketWith, Int.fdiv_eq_ediv_of_nonneg]

/-- One step of an episode as the loops of the calibration see it. -/
structure ErrorRow (K : Type) where
  index : ℕ
  e : NanOr K
  t : ℕ
  phase : ℤ
  phaseStep : ℤ

/-- `zip(e, ep["t"], ep["phase"], ep["phase_step"])` with the position in the arrays. -/
def errorRows (np : Numpy K) (ep : Latents K D) (name : FeatureName) (k : ℕ) (metric : Metric) :
    List (ErrorRow K) :=
  let labels := ep.t.zip (ep.phase.zip ep.phaseStep)
  ((errors np (feat ep name) k metric).zip labels).zipIdx.map fun row =>
    { index := row.2, e := row.1.1, t := row.1.2.1, phase := row.1.2.2.1
      phaseStep := row.1.2.2.2 }

theorem errorRows_getElem?_eq_some (np : Numpy K) {ep : Latents K D} {name : FeatureName} {k : ℕ}
    {metric : Metric} {i : ℕ} {row : ErrorRow K} :
    (errorRows np ep name k metric)[i]? = some row ↔
      row.index = i ∧ (errors np (feat ep name) k metric)[i]? = some row.e ∧
        ep.t[i]? = some row.t ∧ ep.phase[i]? = some row.phase ∧
        ep.phaseStep[i]? = some row.phaseStep := by
  rw [errorRows, List.getElem?_map, Option.map_eq_some_iff]
  simp only [List.getElem?_zipIdx, Option.map_eq_some_iff, List.getElem?_zip_eq_some]
  constructor
  · rintro ⟨-, ⟨⟨e, t, phase, phaseStep⟩, ⟨error, time, label, count⟩, rfl⟩, rfl⟩
    exact ⟨by simp, error, time, label, count⟩
  · rintro ⟨rfl, error, time, label, count⟩
    exact ⟨_, ⟨⟨row.e, row.t, row.phase, row.phaseStep⟩, ⟨error, time, label, count⟩, rfl⟩,
      by simp⟩

/-- `valid_mask`: the step is not masked as warm-up. -/
def validMask (warmup : ℕ) (row : ErrorRow K) : Bool :=
  decide (warmup ≤ row.t)

/-- The loops of `calibrate` and `zscores` pass over a row. -/
def ErrorRow.masked (warmup : ℕ) (row : ErrorRow K) : Bool :=
  row.e.isNone || !validMask warmup row

/-- The bucket of a row, without sub-phases when `fine` is false. -/
def ErrorRow.bucketOf (fine : Bool) (row : ErrorRow K) : ℤ :=
  if fine then bucket row.phase row.phaseStep else row.phase * 3

/-- The rows of one episode that `calibrate` accumulates. -/
def calibrateRows (np : Numpy K) (ep : Latents K D) (name : FeatureName) (k : ℕ)
    (metric : Metric) (warmup : ℕ) : List (ErrorRow K) :=
  (errorRows np ep name k metric).filter fun row => !row.masked warmup

/-- The bucket and the error of each row; a NaN row has no error. -/
def rowSamples (fine : Bool) (rows : List (ErrorRow K)) : List (ℤ × K) :=
  rows.filterMap fun row => row.e.map fun e => (row.bucketOf fine, e)

/-- The result of `calibrate`. -/
structure Calibrated (K : Type) where
  mu : Dict ℤ (NanOr K)
  sd : Dict ℤ (NanOr K)
  gmu : NanOr K
  gsd : NanOr K

/-- `np.std(v) + 1e-9`. -/
def regularisedStd (np : Numpy K) (values : List K) : NanOr K :=
  (np.std values).map (· + 1 / 10 ^ 9)

def calibrateSamples (np : Numpy K) (samples : List (ℤ × K)) : Calibrated K :=
  let buckets := Dict.group samples
  let allv := samples.map Prod.snd
  let gmu := Numpy.mean allv
  let gsd := regularisedStd np allv
  { mu := Dict.ofItems ((Dict.items buckets).map fun bucket =>
      (bucket.1, if 15 ≤ bucket.2.length then Numpy.mean bucket.2 else gmu))
    sd := Dict.ofItems ((Dict.items buckets).map fun bucket =>
      (bucket.1, if 15 ≤ bucket.2.length then regularisedStd np bucket.2 else gsd))
    gmu, gsd }

def calibrate (np : Numpy K) (cleanEps : List (Latents K D)) (name : FeatureName) (k : ℕ)
    (metric : Metric) (warmup : ℕ) (fine : Bool) : Calibrated K :=
  calibrateSamples np
    (cleanEps.flatMap fun ep => rowSamples fine (calibrateRows np ep name k metric warmup))

/-- `mu.get(b, gmu), sd.get(b, gsd)`. -/
def Calibrated.lookup (cal : Calibrated K) (b : ℤ) : NanOr K × NanOr K :=
  ((cal.mu.lookup b).getD cal.gmu, (cal.sd.lookup b).getD cal.gsd)

/-- `(e - mu) / sd`, NaN when one of the numbers is. -/
def standardise (e : K) (pair : NanOr K × NanOr K) : NanOr K := do
  let mu ← pair.1
  let sd ← pair.2
  some ((e - mu) / sd)

/-- The z-scores of an episode; `cal.lookup` never returns a zero deviation for a calibration. -/
def zscores (np : Numpy K) (ep : Latents K D) (name : FeatureName) (k : ℕ) (metric : Metric)
    (cal : Calibrated K) (warmup : ℕ) (fine : Bool) : List (NanOr K) :=
  let rows := errorRows np ep name k metric
  (List.range (errors np (feat ep name) k metric).length).map fun i => do
    let row ← rows[i]?
    if row.masked warmup then none
    else
      let e ← row.e
      standardise e (cal.lookup (row.bucketOf fine))

/-- The loop of `first_run` over the values from index `i` on. -/
def firstRunFrom (kappa : K) (consec : ℕ) : List (NanOr K) → ℕ → ℕ → Option ℕ
  | [], _, _ => none
  | z :: zs, i, run =>
      if z.exceeds kappa then
        if consec ≤ run + 1 then some i else firstRunFrom kappa consec zs (i + 1) (run + 1)
      else firstRunFrom kappa consec zs (i + 1) 0

/-- The last index of the first `consec` consecutive values above `kappa`. -/
def firstRun (z : List (NanOr K)) (kappa : K) (consec startIdx : ℕ) : Option ℕ :=
  firstRunFrom kappa consec (z.drop startIdx) startIdx 0

end G1Jepa
