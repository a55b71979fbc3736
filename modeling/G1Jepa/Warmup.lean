import G1Jepa.JepaTrigger

/-!
# The warm-up mask against padded clips

An error mixes the clips of three encoded steps. The warm-up mask looks at the newest of the three
only, so the oldest one can still be a clip that repeats the first frame.
-/

namespace G1Jepa

variable {K : Type} [Field K] [LinearOrder K] {Frame Z : Type} {D : ℕ}

/-- `build_clip` clamps no index of the clip that ends with frame `t`. -/
def Unpadded (args : LatentArgs) (t : ℕ) : Prop :=
  ∀ i < args.frames, 0 ≤ clipIndex t args.frames args.stride i

/-- The three clips that the error with index `i` is computed from are unpadded. -/
def CleanAt (args : LatentArgs) (ep : Latents K D) (k i : ℕ) : Prop :=
  ∀ lag ∈ [0, k, 2 * k], ∀ t, ep.t[i - lag]? = some t → Unpadded args t

theorem unpadded_iff {args : LatentArgs} (positive : 0 < args.frames) {t : ℕ} :
    Unpadded args t ↔ args.stride * (args.frames - 1) ≤ t := by
  have lag : ∀ i < args.frames, (args.stride : ℤ) * (args.frames - 1 - i) =
      ((args.stride * (args.frames - 1 - i) : ℕ) : ℤ) := by
    intro i inside
    rw [Nat.cast_mul, show ((args.frames - 1 - i : ℕ) : ℤ) = args.frames - 1 - i by omega]
  constructor
  · intro unpadded
    have oldest := unpadded 0 positive
    rw [clipIndex, lag 0 positive, Nat.sub_zero] at oldest
    omega
  · intro late i inside
    rw [clipIndex, lag i inside]
    have := Nat.mul_le_mul_left args.stride (show args.frames - 1 - i ≤ args.frames - 1 by omega)
    omega

/-- The first index whose error is a number and whose step is not masked as warm-up. -/
def firstUsedIndex (k warmup step : ℕ) : ℕ :=
  max (2 * k) ((warmup + step - 1) / step)

theorem firstUsedIndex_le_iff {k warmup step i : ℕ} (positive : 0 < step) :
    firstUsedIndex k warmup step ≤ i ↔ 2 * k ≤ i ∧ warmup ≤ i * step := by
  rw [firstUsedIndex, max_le_iff, Nat.div_le_iff_le_mul_add_pred positive]
  apply and_congr_right
  intro _
  rw [mul_comm step i]
  omega

section Stored

variable {encoder : VideoEncoder Frame Z K D} {args : LatentArgs} {frames : List Frame}
  {episode : EpisodeRecord K} {ep : Latents K D} {np : Numpy K} {name : FeatureName}
  {metric : Metric} {k warmup : ℕ}

theorem mem_errorRows {row : ErrorRow K} : row ∈ errorRows np ep name k metric ↔
    (errors np (feat ep name) k metric)[row.index]? = some row.e ∧
      ep.t[row.index]? = some row.t ∧ ep.phase[row.index]? = some row.phase ∧
      ep.phaseStep[row.index]? = some row.phaseStep := by
  rw [List.mem_iff_getElem?]
  constructor
  · rintro ⟨i, found⟩
    obtain ⟨rfl, rest⟩ := (errorRows_getElem?_eq_some np).mp found
    exact rest
  · intro rest
    exact ⟨row.index, (errorRows_getElem?_eq_some np).mpr ⟨rfl, rest⟩⟩

omit [Field K] [LinearOrder K] in
theorem masked_eq_false_iff {row : ErrorRow K} :
    row.masked warmup = false ↔ row.e.isSome ∧ warmup ≤ row.t := by
  cases error : row.e <;> simp [ErrorRow.masked, validMask, error]

/-- A row that is used has an index from the first used one on. -/
theorem Stored.le_index_of_used (stored : Stored encoder args frames episode ep)
    {row : ErrorRow K} (member : row ∈ errorRows np ep name k metric)
    (used : row.masked warmup = false) :
    firstUsedIndex k warmup args.step ≤ row.index ∧ row.index < ep.t.length := by
  obtain ⟨error, time, -⟩ := mem_errorRows.mp member
  obtain ⟨number, late⟩ := masked_eq_false_iff.mp used
  obtain ⟨inside, value⟩ := (errors_getElem?_eq_some np).mp error
  rw [← value, errorAt_isSome] at number
  have stamp := (stored.getElem?_eq_some.mp time).2
  rw [stored.length_feat] at inside
  exact ⟨(firstUsedIndex_le_iff stored.step_pos).mpr ⟨number.1, stamp ▸ late⟩, inside⟩

/-- Every index from the first used one on has a row that is used. -/
theorem Stored.exists_used_row (stored : Stored encoder args frames episode ep) {i : ℕ}
    (late : firstUsedIndex k warmup args.step ≤ i) (inside : i < ep.t.length) :
    ∃ row ∈ calibrateRows np ep name k metric warmup, row.index = i := by
  obtain ⟨enough, warm⟩ := (firstUsedIndex_le_iff stored.step_pos).mp late
  have phase : ep.phase[i]? = some (ep.phase.get ⟨i, takeAt_length stored.phase ▸ inside⟩) :=
    List.getElem?_eq_getElem _
  have phaseStep : ep.phaseStep[i]? =
      some (ep.phaseStep.get ⟨i, takeAt_length stored.phaseStep ▸ inside⟩) :=
    List.getElem?_eq_getElem _
  have bound : i < (feat ep name).length := by rwa [stored.length_feat]
  have error : (errors np (feat ep name) k metric)[i]? =
      some (errorAt np (feat ep name) k metric i) :=
    (errors_getElem?_eq_some np).mpr ⟨bound, rfl⟩
  have number : (errorAt np (feat ep name) k metric i).isSome :=
    (errorAt_isSome ..).mpr ⟨enough, bound⟩
  refine ⟨⟨i, _, _, _, _⟩, List.mem_filter.mpr
    ⟨mem_errorRows.mpr ⟨error, stored.getElem?_t inside, phase, phaseStep⟩, ?_⟩, rfl⟩
  rw [Bool.not_eq_true', masked_eq_false_iff]
  exact ⟨number, warm⟩

omit [Field K] [LinearOrder K] in
/-- The three clips of an index are unpadded exactly when the oldest one is. -/
theorem Stored.cleanAt_iff (stored : Stored encoder args frames episode ep)
    (positive : 0 < args.frames) {i : ℕ} (inside : i < ep.t.length) :
    CleanAt args ep k i ↔ args.stride * (args.frames - 1) ≤ (i - 2 * k) * args.step := by
  have stamps : ∀ lag, ep.t[i - lag]? = some ((i - lag) * args.step) := fun lag =>
    stored.getElem?_t (by omega)
  constructor
  · intro clean
    exact (unpadded_iff positive).mp (clean (2 * k) (by simp) _ (stamps (2 * k)))
  · intro late lag member t found
    rw [stamps lag, Option.some.injEq] at found
    subst found
    rw [unpadded_iff positive]
    have older : i - 2 * k ≤ i - lag := by
      rcases List.mem_cons.mp member with rfl | member
      · omega
      · rcases List.mem_cons.mp member with rfl | member
        · omega
        · rw [List.mem_singleton.mp member]
    exact late.trans (Nat.mul_le_mul_right args.step older)

/-- The z-scores leave out the rows that the calibration leaves out. -/
theorem used_of_zscore {cal : Calibrated K} {fine : Bool} {i : ℕ} {z : K}
    (found : (zscores np ep name k metric cal warmup fine)[i]? = some (some z)) :
    ∃ row ∈ calibrateRows np ep name k metric warmup, row.index = i := by
  rw [zscores, List.getElem?_map, Option.map_eq_some_iff] at found
  obtain ⟨j, position, value⟩ := found
  obtain ⟨inside, same⟩ := List.getElem?_eq_some_iff.mp position
  rw [List.getElem_range] at same
  subst same
  rw [Option.bind_eq_bind, Option.bind_eq_some_iff] at value
  obtain ⟨row, read, value⟩ := value
  split at value
  case isTrue masked => contradiction
  case isFalse used =>
    have index := ((errorRows_getElem?_eq_some np).mp read).1
    exact ⟨row, List.mem_filter.mpr ⟨List.mem_of_getElem? read, by simpa using used⟩, index⟩

/-- The errors that `calibrate`, `export_calib` and `zscores` use come from unpadded clips exactly
when no step is used at all, or when the oldest clip of the first used error is unpadded. -/
theorem used_errors_clean_iff (computed : computeLatents encoder args frames episode = .ok ep)
    (positive : 0 < args.frames) :
    ((∀ row ∈ calibrateRows np ep name k metric warmup, CleanAt args ep k row.index) ∧
        (∀ row ∈ exportRows np ep name k metric warmup, CleanAt args ep k row.index) ∧
        ∀ cal fine i z, (zscores np ep name k metric cal warmup fine)[i]? = some (some z) →
          CleanAt args ep k i) ↔
      ep.t.length ≤ firstUsedIndex k warmup args.step ∨
        args.stride * (args.frames - 1) ≤
          (firstUsedIndex k warmup args.step - 2 * k) * args.step := by
  have stored := stored_of_computeLatents computed
  rw [exportRows_eq_calibrateRows]
  constructor
  · rintro ⟨clean, -, -⟩
    rcases Nat.lt_or_ge (firstUsedIndex k warmup args.step) ep.t.length with inside | beyond
    · obtain ⟨row, member, index⟩ : ∃ row ∈ calibrateRows np ep name k metric warmup,
          row.index = firstUsedIndex k warmup args.step := stored.exists_used_row le_rfl inside
      have first := clean row member
      rw [index, stored.cleanAt_iff positive inside] at first
      exact .inr first
    · exact .inl beyond
  · intro condition
    have clean : ∀ row ∈ calibrateRows np ep name k metric warmup, CleanAt args ep k row.index := by
      intro row member
      obtain ⟨listed, used⟩ := List.mem_filter.mp member
      obtain ⟨late, inside⟩ := stored.le_index_of_used listed (by simpa using used)
      rw [stored.cleanAt_iff positive inside]
      rcases condition with beyond | unpadded
      · omega
      · exact unpadded.trans (Nat.mul_le_mul_right args.step (by omega))
    refine ⟨clean, clean, fun cal fine i z found => ?_⟩
    obtain ⟨row, member, rfl⟩ := used_of_zscore found
    exact clean row member

end Stored

theorem used_errors_clean_iff_late :
    ∃ ep, computeLatents (.zero Unit ℚ 1) {} (List.replicate 24 ()) (.blank 24) = .ok ep ∧
      ∀ row ∈ calibrateRows .rational ep .mean 1 .abs 20, CleanAt {} ep 1 row.index := by
  obtain ⟨ep, computed, -⟩ := exists_blank_latents 24 (by decide)
  exact ⟨ep, computed, ((used_errors_clean_iff computed (by decide)).mpr (.inr (by decide))).1⟩

/-- With the default arguments and a warm-up of 16 steps the error of step 16 is used, although
its oldest clip, that of step 12, repeats the first frame. -/
theorem used_error_of_padded_clip :
    1 * (16 - 1) ≤ 16 ∧
      ∃ ep, computeLatents (.zero Unit ℚ 1) {} (List.replicate 20 ()) (.blank 20) = .ok ep ∧
        ∃ row ∈ exportRows .rational ep .mean 1 .abs 16, ¬CleanAt {} ep 1 row.index := by
  obtain ⟨ep, computed, times⟩ := exists_blank_latents 20 (by decide)
  have stored := stored_of_computeLatents computed
  have inside : 8 < ep.t.length := by
    rw [times]
    decide
  obtain ⟨row, member, index⟩ : ∃ row ∈ calibrateRows .rational ep .mean 1 .abs 16,
      row.index = 8 := stored.exists_used_row (by decide) inside
  refine ⟨by decide, ep, computed, row, ?_, ?_⟩
  · rwa [exportRows_eq_calibrateRows]
  · rw [index, stored.cleanAt_iff (by decide) inside]
    decide

end G1Jepa
