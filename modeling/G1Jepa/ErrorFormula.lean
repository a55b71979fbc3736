import G1Jepa.JepaTrigger
import Mathlib.Tactic.NormNum
import Mathlib.Tactic.Positivity

/-!
# The prediction error online and offline

The trigger reads three vectors from the back of a deque of `2 * k + 1` vectors, and `errors`
reads three vectors of the full array. With the `abs` metric both compute the same number. With
the `rel` metric the denominators differ, and the numbers agree only where the prediction is
exact or the two denominators happen to coincide.
-/

namespace G1Jepa

variable {K : Type} [Field K] [LinearOrder K] {ι : Type} [Fintype ι]

/-- The norm of the difference between the linear prediction of `f i` and `f i`. -/
def predictionResidual (np : Numpy K) (f : ℕ → ι → K) (k i : ℕ) : K :=
  np.norm ((2 : K) • f (i - k) - f (i - 2 * k) - f i)

/-- The divisor of the residual in the online formula. -/
def onlineDenominator (np : Numpy K) (f : ℕ → ι → K) (k i : ℕ) : Metric → K
  | .abs => 1
  | .rel => max (np.norm (f (i - k) - f (i - 2 * k))) (1 / 10 ^ 3)

/-- The divisor of the residual in the offline formula. -/
def offlineDenominator (np : Numpy K) (f : ℕ → ι → K) (k i : ℕ) : Metric → K
  | .abs => 1
  | .rel => np.norm (f i - f (i - k)) + 1 / 10 ^ 6

/-- The online formula. -/
def onlineError (np : Numpy K) (f : ℕ → ι → K) (k i : ℕ) (metric : Metric) : K :=
  predictionResidual np f k i / onlineDenominator np f k i metric

theorem onlineError_abs (np : Numpy K) (f : ℕ → ι → K) (k i : ℕ) :
    onlineError np f k i .abs = predictionResidual np f k i :=
  div_one _

theorem getElem?_map_range {α : Type} (f : ℕ → α) {n i : ℕ} (inside : i < n) :
    ((List.range n).map f)[i]? = some (f i) := by
  simp [inside]

theorem errors_getElem? (np : Numpy K) (f : ℕ → ι → K) (metric : Metric) {k n i : ℕ}
    (bound : 2 * k ≤ i) (inside : i < n) :
    (errors np ((List.range n).map f) k metric)[i]? =
      some (some (predictionResidual np f k i / offlineDenominator np f k i metric)) := by
  have current := getElem?_map_range f inside
  have lag := getElem?_map_range f (show i - k < n by omega)
  have lag₂ := getElem?_map_range f (show i - 2 * k < n by omega)
  have position : (List.range ((List.range n).map f).length)[i]? = some i := by
    simp [inside]
  rw [errors, List.getElem?_map, position, Option.map_some, errorAt, if_neg (by omega), current,
    lag, lag₂]
  cases metric with
  | abs => simp [predictionResidual, offlineDenominator]
  | rel => rfl

/-- The error of a history that holds all vectors so far. -/
theorem historyError_map_range (np : Numpy K) (f : ℕ → ι → K) (metric : Metric) {k i : ℕ}
    (bound : 2 * k ≤ i) :
    historyError np k metric ((List.range (i + 1)).map f) =
      some (onlineError np f k i metric) := by
  have current := getElem?_map_range f (show i < i + 1 by omega)
  have lag := getElem?_map_range f (show i - k < i + 1 by omega)
  have lag₂ := getElem?_map_range f (show i - 2 * k < i + 1 by omega)
  have last : ((List.range (i + 1)).map f).length - 1 = i := by simp
  simp only [historyError, last, current, lag, lag₂]
  cases metric with
  | abs => simp [onlineError, predictionResidual, onlineDenominator]
  | rel => rfl

/-- The deque is long enough: dropping older vectors does not change the error. -/
theorem historyError_recalls (np : Numpy K) (metric : Metric) {k : ℕ}
    {deque : BoundedDeque (ι → K) (2 * k + 1)} {history : List (ι → K)}
    (recalls : deque.Recalls history) (full : 2 * k < deque.items.length) :
    historyError np k metric deque.items = historyError np k metric history := by
  have current := recalls.lag (show 0 < deque.items.length by omega)
  have lag := recalls.lag (show k < deque.items.length by omega)
  have lag₂ := recalls.lag full
  rw [Nat.sub_zero, Nat.sub_zero] at current
  simp only [historyError, current, lag, lag₂]

namespace OnlineJepaTrigger

variable {Row : Type} {D : ℕ} {cfg : TriggerConfig K}

/-- A reset trigger whose history has received a sequence of pooled latents. -/
def pushAll (cfg : TriggerConfig K) (vectors : List (cfg.feature.Idx D → K)) :
    TriggerState Row K D cfg :=
  vectors.foldl pushLatent (reset cfg)

omit [LinearOrder K] in
theorem hist_recalls_pushAll (vectors : List (cfg.feature.Idx D → K)) :
    (pushAll cfg vectors : TriggerState Row K D cfg).hist.Recalls vectors := by
  induction vectors using List.reverseRecOn with
  | nil => exact BoundedDeque.recalls_empty
  | append_singleton vectors pooled induction =>
      rw [pushAll, List.foldl_append]
      exact induction.append pooled

/-- The error that the trigger computes once the first `i + 1` vectors have been pushed. -/
theorem historyError_pushAll (np : Numpy K) (f : ℕ → cfg.feature.Idx D → K) {i : ℕ}
    (bound : 2 * cfg.k ≤ i) :
    historyError np cfg.k cfg.metric
        (pushAll cfg ((List.range (i + 1)).map f) : TriggerState Row K D cfg).hist.items =
      some (onlineError np f cfg.k i cfg.metric) := by
  have recalls : (pushAll cfg ((List.range (i + 1)).map f) : TriggerState Row K D cfg).hist.Recalls
      ((List.range (i + 1)).map f) := hist_recalls_pushAll _
  have full := recalls.length
  rw [List.length_map, List.length_range] at full
  rw [historyError_recalls np cfg.metric recalls (by omega), historyError_map_range np f _ bound]

section Agreement

variable [IsStrictOrderedRing K]

theorem onlineDenominator_pos (np : Numpy K) (f : ℕ → ι → K) (k i : ℕ)
    (metric : Metric) : 0 < onlineDenominator np f k i metric := by
  cases metric with
  | abs => exact one_pos
  | rel => exact lt_max_of_lt_right (by positivity)

theorem offlineDenominator_pos (np : Numpy K) (f : ℕ → ι → K) (k i : ℕ) (metric : Metric) :
    0 < offlineDenominator np f k i metric := by
  cases metric with
  | abs => exact one_pos
  | rel =>
      have := np.norm_nonneg (f i - f (i - k))
      simp only [offlineDenominator]
      positivity

omit [IsStrictOrderedRing K] in
theorem div_eq_div_iff_of_pos {numerator left right : K} (leftPos : 0 < left)
    (rightPos : 0 < right) :
    numerator / left = numerator / right ↔ numerator = 0 ∨ left = right := by
  rw [div_eq_div_iff leftPos.ne' rightPos.ne', mul_comm numerator left, mul_comm numerator right,
    mul_eq_mul_right_iff, eq_comm, or_comm]

theorem predictionResidual_eq_zero (np : Numpy K) (f : ℕ → ι → K) (k i : ℕ) :
    predictionResidual np f k i = 0 ↔ (2 : K) • f (i - k) - f (i - 2 * k) = f i := by
  rw [predictionResidual, np.norm_eq_zero, sub_eq_zero]

/-- The trigger and `errors` compute the same error with the `abs` metric; with the `rel` metric
they do so exactly when the prediction is exact or the two denominators coincide. -/
theorem historyError_eq_errors_iff (np : Numpy K) (f : ℕ → cfg.feature.Idx D → K) {n i : ℕ}
    (bound : 2 * cfg.k ≤ i) (inside : i < n) :
    (∃ e, historyError np cfg.k cfg.metric
          (pushAll cfg ((List.range (i + 1)).map f) : TriggerState Row K D cfg).hist.items =
        some e ∧
        (errors np ((List.range n).map f) cfg.k cfg.metric)[i]? = some (some e)) ↔
      cfg.metric = .abs ∨ (2 : K) • f (i - cfg.k) - f (i - 2 * cfg.k) = f i ∨
        max (np.norm (f (i - cfg.k) - f (i - 2 * cfg.k))) (1 / 10 ^ 3) =
          np.norm (f i - f (i - cfg.k)) + 1 / 10 ^ 6 := by
  have agree : (∃ e, historyError np cfg.k cfg.metric
        (pushAll cfg ((List.range (i + 1)).map f) : TriggerState Row K D cfg).hist.items =
      some e ∧ (errors np ((List.range n).map f) cfg.k cfg.metric)[i]? = some (some e)) ↔
      predictionResidual np f cfg.k i / onlineDenominator np f cfg.k i cfg.metric =
        predictionResidual np f cfg.k i / offlineDenominator np f cfg.k i cfg.metric := by
    rw [historyError_pushAll np f bound, errors_getElem? np f _ bound inside]
    constructor
    · rintro ⟨e, online, offline⟩
      exact (Option.some.inj online).trans (Option.some.inj (Option.some.inj offline)).symm
    · intro equality
      exact ⟨_, rfl, by rw [onlineError, equality]⟩
  rw [agree, div_eq_div_iff_of_pos (onlineDenominator_pos ..) (offlineDenominator_pos ..),
    predictionResidual_eq_zero]
  cases cfg.metric with
  | abs => simp [onlineDenominator, offlineDenominator]
  | rel => simp [onlineDenominator, offlineDenominator]

/-- A sequence with one coordinate, given by its values. -/
def scalarSequence (value : ℕ → ℚ) (i : ℕ) (_ : FeatureName.mean.Idx 1) : ℚ := value i

/-- The trigger of `TriggerConfig.ofGlobal` with the relative metric. -/
def relConfig : TriggerConfig ℚ := { TriggerConfig.ofGlobal 0 1 with metric := .rel }

theorem historyError_eq_errors_iff_linear :
    ∃ e, historyError .rational relConfig.k relConfig.metric
        (pushAll relConfig ((List.range (2 + 1)).map (scalarSequence fun i => i)) :
          TriggerState Unit ℚ 1 relConfig).hist.items = some e ∧
      (errors .rational ((List.range 3).map (scalarSequence fun i => i)) relConfig.k
        relConfig.metric)[2]? = some (some e) := by
  have bound : 2 * relConfig.k ≤ 2 := by decide
  have inside : 2 < 3 := by decide
  have exactPrediction : (2 : ℚ) • scalarSequence (fun i => i) (2 - relConfig.k) -
      scalarSequence (fun i => i) (2 - 2 * relConfig.k) = scalarSequence (fun i => i) 2 := by
    funext i
    norm_num [scalarSequence, relConfig, TriggerConfig.ofGlobal]
  exact (@historyError_eq_errors_iff ℚ _ _ Unit 1 relConfig _ .rational
    (scalarSequence fun i => i) 3 2 bound inside).mpr (.inr (.inl exactPrediction))

/-- On the values 0, 1, 3 the trigger divides by 1 and `errors` by a little more than 2. -/
theorem historyError_ne_errors_of_rel :
    ¬∃ e, historyError .rational relConfig.k relConfig.metric
        (pushAll relConfig ((List.range 3).map (scalarSequence fun i => i * (i + 1) / 2)) :
          TriggerState Unit ℚ 1 relConfig).hist.items = some e ∧
      (errors .rational ((List.range 3).map (scalarSequence fun i => i * (i + 1) / 2)) relConfig.k
        relConfig.metric)[2]? = some (some e) := by
  have online : historyError .rational relConfig.k relConfig.metric
      (pushAll relConfig ((List.range 3).map (scalarSequence fun i => i * (i + 1) / 2)) :
        TriggerState Unit ℚ 1 relConfig).hist.items = some 1 := by decide +kernel
  have offline : (errors .rational
      ((List.range 3).map (scalarSequence fun i => i * (i + 1) / 2)) relConfig.k
      relConfig.metric)[2]? = some (some (1000000 / 2000001)) := by decide +kernel
  rintro ⟨e, first, second⟩
  rw [online, Option.some.injEq] at first
  rw [offline, ← first] at second
  norm_num at second

end Agreement

end OnlineJepaTrigger

end G1Jepa
