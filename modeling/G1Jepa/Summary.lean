import G1Jepa.Library.Quantile
import G1Jepa.TriggerLog

/-!
# The table of an evaluation

`aggregate.py` summarises the latencies of a condition by a median, a percentile, a maximum and two
rates. For the baseline conditions these numbers follow from the schedule of their replans: the
oracle has latency zero in every run, and a fixed period detects within one period.
-/

namespace G1Jepa

/-! ## Percentiles -/

namespace Numpy

variable {K : Type} [Field K] [LinearOrder K] {values : List K}

theorem percentile_eq_interpolate (values : List K) (q : ℕ) :
    percentile values q =
      Quantile.interpolate 100 (values.insertionSort (· ≤ ·)) ((values.length - 1) * q) := by
  rw [percentile, Quantile.interpolate, Nat.cast_ofNat]

section Sorted

variable [IsStrictOrderedRing K]

omit [Field K] [IsStrictOrderedRing K] in
theorem pairwise_insertionSort (values : List K) :
    (values.insertionSort (· ≤ ·)).Pairwise (· ≤ ·) :=
  List.sortedLE_insertionSort.pairwise

/-- The median is the percentile in the middle. -/
theorem median_eq_percentile (values : List K) : median values = percentile values 50 := by
  rw [percentile_eq_interpolate, median]
  have length : (values.insertionSort (· ≤ ·)).length = values.length :=
    List.length_insertionSort _ _
  by_cases odd : values.length % 2 = 1
  · have position : (values.length - 1) * 50 = 100 * (values.length / 2) := by omega
    rw [length, if_pos odd, position, Quantile.interpolate_mul (by decide)]
  · rw [length, if_neg odd]
    rcases Nat.eq_zero_or_pos values.length with empty | positive
    · obtain rfl := List.length_eq_zero_iff.mp empty
      rfl
    · obtain ⟨m, half⟩ : ∃ m, values.length / 2 = m + 1 := ⟨values.length / 2 - 1, by omega⟩
      obtain ⟨low, left⟩ : ∃ low, (values.insertionSort (· ≤ ·))[m]? = some low :=
        ⟨_, List.getElem?_eq_getElem (by omega)⟩
      obtain ⟨high, right⟩ : ∃ high, (values.insertionSort (· ≤ ·))[m + 1]? = some high :=
        ⟨_, List.getElem?_eq_getElem (by omega)⟩
      have position : (values.length - 1) * 50 = 2 * 50 * m + 50 := by omega
      have middle := Quantile.interpolate_half (show 0 < 50 by decide) left right
      rw [position, show 100 = 2 * 50 from rfl, middle, half, Nat.add_sub_cancel, left, right]
      rfl

theorem percentile_mono {q q' : ℕ} (ordered : q ≤ q') {x y : K}
    (left : percentile values q = some x) (right : percentile values q' = some y) : x ≤ y := by
  rw [percentile_eq_interpolate] at left right
  exact Quantile.interpolate_mono (pairwise_insertionSort values)
    (Nat.mul_le_mul_left _ ordered) left right

/-- A percentile of at least one number exists and lies between the bounds of the numbers. -/
theorem exists_percentile (nonempty : values ≠ []) {q : ℕ} (bound : q ≤ 100) {lower upper : K}
    (range : ∀ v ∈ values, lower ≤ v ∧ v ≤ upper) :
    ∃ x, percentile values q = some x ∧ lower ≤ x ∧ x ≤ upper := by
  have length : (values.insertionSort (· ≤ ·)).length = values.length :=
    List.length_insertionSort _ _
  have positive : 0 < values.length := List.length_pos_iff.mpr nonempty
  have position : (values.length - 1) * q / 100 < (values.insertionSort (· ≤ ·)).length := by
    have := Nat.mul_le_mul_left (values.length - 1) bound
    omega
  have item : ∀ {i v}, (values.insertionSort (· ≤ ·))[i]? = some v → lower ≤ v ∧ v ≤ upper :=
    fun found => range _ ((List.mem_insertionSort _).mp (List.mem_of_getElem? found))
  obtain ⟨x, found⟩ := Quantile.exists_interpolate position
  have left := List.getElem?_eq_getElem position
  have bounds := Quantile.bounds_of_interpolate (pairwise_insertionSort values) found left
  refine ⟨x, (percentile_eq_interpolate values q).trans found, (item left).1.trans bounds.1,
    bounds.2.trans ?_⟩
  cases right : (values.insertionSort (· ≤ ·))[(values.length - 1) * q / 100 + 1]? with
  | none => exact (item left).2
  | some high => exact (item right).2

/-- So does the mean. -/
theorem exists_mean (nonempty : values ≠ []) {lower upper : K}
    (range : ∀ v ∈ values, lower ≤ v ∧ v ≤ upper) :
    ∃ x, mean values = some x ∧ lower ≤ x ∧ x ≤ upper := by
  have positive : (0 : K) < values.length := Nat.cast_pos.mpr (List.length_pos_iff.mpr nonempty)
  refine ⟨_, mean_of_ne_nil nonempty, ?_, ?_⟩
  · rw [le_div_iff₀ positive, mul_comm, ← nsmul_eq_mul]
    exact List.card_nsmul_le_sum values lower fun v member => (range v member).1
  · rw [div_le_iff₀ positive, mul_comm, ← nsmul_eq_mul]
    exact List.sum_le_card_nsmul values upper fun v member => (range v member).2

end Sorted

end Numpy

/-! ## Recorded runs -/

variable {K E R Row : Type} [Field K] [LinearOrder K] {env : Env K E R Row}

/-- A record that `run_episode` returns in a condition, with or without the perturbation. -/
def RecordedRun (env : Env K E R Row) (condition : Condition) (perturb : Bool)
    (r : RunResult K Row) : Prop :=
  ∃ (σ : Type) (setting : ReplanSetting K E σ) (args : EpisodeArgs K) (s sim : E)
    (trigger : Option σ), setting.condition = condition ∧ args.perturb = perturb ∧
      1 ≤ args.maxSteps ∧ runEpisode env setting args s = .ok (r, sim, trigger)

/-- The scheduler of a run keeps its settings, and fires only when it is enabled and not before its
first step. -/
structure Scheduled (perturb : Bool) (sched : PerturbationScheduler K R) : Prop where
  enabled : sched.enabled = perturb
  minStep : sched.minStep = 10
  fireStep : ∀ p, sched.fireStep = some p → perturb = true ∧ 10 ≤ p

theorem Scheduled.next {perturb fired : Bool} {sched after : PerturbationScheduler K R} {s s' : E}
    {t : ℕ} {policyState : PolicyState} (scheduled : Scheduled perturb sched)
    (called : PerturbationScheduler.Called env sched s t policyState fired s' after) :
    Scheduled perturb after := by
  cases called with
  | idle => exact scheduled
  | away => exact ⟨scheduled.enabled, scheduled.minStep, scheduled.fireStep⟩
  | waiting => exact ⟨scheduled.enabled, scheduled.minStep, scheduled.fireStep⟩
  | fires active _ _ _ late =>
      refine ⟨scheduled.enabled, scheduled.minStep, fun p fires => ?_⟩
      obtain rfl := Option.some.inj fires
      rw [scheduled.minStep] at late
      exact ⟨scheduled.enabled.symm.trans active, by exact_mod_cast late⟩

/-- The counters, the scheduler and a property of the decisions at the end of a run. -/
theorem exists_summary {σ : Type} {setting : ReplanSetting K E σ} {args : EpisodeArgs K} {s sim : E}
    {result : RunResult K Row} {trigger : Option σ} (positive : 1 ≤ args.maxSteps)
    (ran : runEpisode env setting args s = .ok (result, sim, trigger))
    (Planned : ℕ → List Bool → Prop) (initial : Planned 0 [])
    (next : ∀ t trigger after fired doReplan sim policy replan,
      decideReplan setting trigger t fired sim policy = .ok (doReplan, after) →
        Planned t replan → Planned (t + 1) (replan ++ [doReplan])) :
    ∃ state : RunState K E R Row σ, result = runResult setting args state ∧
      Recorded setting.condition result.steps state.episode ∧
      Scheduled args.perturb state.episode.sched ∧ Planned result.steps result.log.replan := by
  obtain ⟨state, left, looped, rfl, -⟩ := exists_runLoop ran
  obtain ⟨n, steps⟩ := Nat.exists_eq_add_of_le' positive
  rw [steps] at looped
  obtain ⟨t, before, -, running, last⟩ := ForRange.exists_iteration looped
  have keeps : ∀ t (before after : RunState K E R Row σ) left,
      (Recorded setting.condition t before.episode ∧ Scheduled args.perturb before.episode.sched ∧
        Planned t before.episode.log.replan) →
      runStep env setting t before = .ok (after, left) →
      Recorded setting.condition (t + 1) after.episode ∧
        Scheduled args.perturb after.episode.sched ∧
        Planned (t + 1) after.episode.log.replan := by
    rintro t before after left ⟨recorded, scheduled, planned⟩ ran
    obtain ⟨doReplan, decided, advances⟩ := runStep_eq_ok ran
    have advanced := advanced_of_advanceStage advances
    refine ⟨(recorded.next ran).1, ?_, ?_⟩
    · rw [advanced.sched]
      exact scheduled.next (PerturbationScheduler.called_maybeFire env before.episode.sched
        before.episode.sim t before.episode.policy.state)
    · rw [advanced.replan]
      exact next t _ _ _ doReplan _ _ _ decided planned
  have invariant : Recorded setting.condition t before.episode ∧
      Scheduled args.perturb before.episode.sched ∧ Planned t before.episode.log.replan := by
    refine @ForRange.loop_invariant _ _ _ _ (fun t state => Recorded setting.condition t
      state.episode ∧ Scheduled args.perturb state.episode.sched ∧
        Planned t state.episode.log.replan) ?_ ?_ t before running
    · exact ⟨recorded_start setting.condition args s, ⟨rfl, rfl, fun _ fires => by contradiction⟩,
        initial⟩
    · intro t before after left _ holds ran
      exact keeps t before after left holds ran
  obtain ⟨recorded, scheduled, planned⟩ := keeps t before state left invariant last
  have index : state.episode.t = t := (invariant.1.next last).2
  rw [← index] at recorded planned
  exact ⟨state, rfl, recorded, scheduled, planned⟩

/-! ## A fixed period -/

omit [LinearOrder K] in
theorem decideReplan_of_fixed {σ : Type} {setting : ReplanSetting K E σ} {period : ℕ}
    (fixed : setting.condition = .fixed) (every : setting.fixedPeriod = period)
    (positive : 0 < period) {trigger after : Option σ} {t : ℕ} {fired doReplan : Bool} {sim : E}
    {policy : ScriptedPickPlace K}
    (decided : decideReplan setting trigger t fired sim policy = .ok (doReplan, after)) :
    doReplan = decide (0 < t ∧ period ∣ t) := by
  simp only [decideReplan, fixed, every] at decided
  rcases Nat.eq_zero_or_pos t with rfl | later
  · rw [if_pos rfl] at decided
    obtain ⟨rfl, -⟩ := Prod.mk.inj (Except.ok.inj decided)
    rfl
  · rw [if_neg later.ne', if_neg (by omega)] at decided
    obtain ⟨rfl, -⟩ := Prod.mk.inj (Except.ok.inj decided)
    rw [decide_eq_decide, and_iff_right later, ← Int.natCast_dvd_natCast]
    exact Int.dvd_iff_emod_eq_zero.symm

/-- The positive multiples of a period below a bound. -/
theorem length_filter_multiples (period n : ℕ) :
    ((List.range n).filter fun u => decide (0 < u ∧ period ∣ u)).length = (n - 1) / period := by
  induction n with
  | zero => simp
  | succ n induction =>
      rw [List.range_succ, List.filter_append, List.length_append, induction]
      cases n with
      | zero => simp
      | succ n =>
          rw [Nat.add_sub_cancel, Nat.add_sub_cancel, Nat.succ_div]
          by_cases multiple : period ∣ n + 1 <;> simp [multiple]

/-- The number of steps from `p` to the next multiple of a period. -/
def wait (period p : ℕ) : ℕ := (period - p % period) % period

theorem wait_lt {period : ℕ} (positive : 0 < period) (p : ℕ) : wait period p < period :=
  Nat.mod_lt _ positive

/-- After the wait comes the least multiple that is not below `p`. -/
theorem isLeast_add_wait {period : ℕ} (positive : 0 < period) (p : ℕ) :
    IsLeast {u | period ∣ u ∧ p ≤ u} (p + wait period p) := by
  have split := Nat.div_add_mod p period
  have small := Nat.mod_lt p positive
  rcases Nat.eq_zero_or_pos (p % period) with aligned | off
  · have none : wait period p = 0 := by rw [wait, aligned, Nat.sub_zero, Nat.mod_self]
    rw [none, Nat.add_zero]
    exact ⟨⟨Nat.dvd_of_mod_eq_zero aligned, le_rfl⟩, fun u other => other.2⟩
  · have some : wait period p = period - p % period := Nat.mod_eq_of_lt (by omega)
    have next : p + wait period p = period * (p / period + 1) := by
      rw [some, Nat.mul_succ]
      omega
    rw [next]
    refine ⟨⟨Nat.dvd_mul_right _ _, by rw [Nat.mul_succ]; omega⟩, ?_⟩
    rintro u ⟨⟨c, rfl⟩, later⟩
    have above : p / period < c := by
      by_contra below
      have := Nat.mul_le_mul_left period (Nat.le_of_not_lt below)
      omega
    exact Nat.mul_le_mul_left period above

/-- Under a fixed period the policy is replanned at the positive multiples of the period, and a
perturbation is answered after the wait for the next one, if the run lasts that long. -/
theorem fixed_replans {σ : Type} {setting : ReplanSetting K E σ} {args : EpisodeArgs K} {s sim : E}
    {result : RunResult K Row} {trigger : Option σ} {period : ℕ}
    (fixed : setting.condition = .fixed) (every : setting.fixedPeriod = period)
    (periodic : 0 < period) (positive : 1 ≤ args.maxSteps)
    (ran : runEpisode env setting args s = .ok (result, sim, trigger)) :
    result.replanSteps =
        ((List.range result.steps).filter fun u => decide (0 < u ∧ period ∣ u)) ∧
      result.nReplans = (result.steps - 1) / period ∧
      ∀ p, result.perturbStep = some p → wait period p < period ∧
        result.triggerLatency =
          if p + wait period p < result.steps then some (wait period p : ℤ) else none := by
  obtain ⟨state, rfl, recorded, scheduled, planned⟩ := exists_summary positive ran
    (fun t replan => replan = (List.range t).map fun u => decide (0 < u ∧ period ∣ u)) rfl
    (by
      rintro t trigger after fired doReplan sim policy replan decided rfl
      rw [decideReplan_of_fixed fixed every periodic decided, List.range_succ, List.map_append,
        List.map_singleton])
  have replans : (runResult setting args state).replanSteps =
      (List.range (runResult setting args state).steps).filter
        fun u => decide (0 < u ∧ period ∣ u) := by
    change state.episode.log.replan = _ at planned
    change state.episode.policy.replanSteps = _
    rw [recorded.replanSteps, loggedReplans, planned, List.length_map, List.length_range]
    apply List.filter_congr
    intro u member
    rw [List.getElem?_map, List.getElem?_range (List.mem_range.mp member)]
    simp
  refine ⟨replans, ?_, fun p fires => ⟨wait_lt periodic p, ?_⟩⟩
  · rw [← length_filter_multiples, ← replans]
    exact recorded.nReplans
  · obtain ⟨-, late⟩ := scheduled.fireStep p fires
    have least := isLeast_add_wait periodic p
    have ascending : (runResult setting args state).replanSteps.Pairwise (· < ·) := by
      rw [replans]
      exact List.pairwise_lt_range.filter _
    have found (u : ℕ) : firstReplanSince (some p) (runResult setting args state).replanSteps =
        some u ↔ u = p + wait period p ∧ u < (runResult setting args state).steps := by
      rw [firstReplanSince_eq_some_iff ascending, replans]
      simp only [Option.some.injEq, exists_eq_left', List.mem_filter, List.mem_range,
        decide_eq_true_eq]
      constructor
      · rintro ⟨⟨⟨inside, -, multiple⟩, since⟩, lower⟩
        have upper := least.2 ⟨multiple, since⟩
        exact ⟨(lower ⟨⟨by omega, by omega, least.1.1⟩, least.1.2⟩).antisymm upper, inside⟩
      · rintro ⟨rfl, inside⟩
        exact ⟨⟨⟨inside, by omega, least.1.1⟩, least.1.2⟩,
          fun v other => least.2 ⟨other.1.2.2, other.2⟩⟩
    have latency : (runResult setting args state).triggerLatency =
        latencyOf (some p) (runResult setting args state).replanSteps :=
      fires ▸ recorded.triggerLatency_eq
    rw [latency, latencyOf]
    by_cases inside : p + wait period p < (runResult setting args state).steps
    · rw [if_pos inside, (found _).mpr ⟨rfl, inside⟩]
      refine congrArg some ?_
      omega
    · have none : firstReplanSince (some p) (runResult setting args state).replanSteps = none := by
        apply Option.eq_none_iff_forall_ne_some.mpr
        intro u some
        obtain ⟨rfl, within⟩ := (found u).mp some
        exact inside within
      rw [if_neg inside, none]
      rfl

/-! ## The row of a condition -/

/-- What the record of a run says about its latency, by condition. -/
structure LatencyFacts (condition : Condition) (perturb : Bool) (r : RunResult K Row) : Prop where
  nonneg : ∀ l, r.triggerLatency = some l → 0 ≤ l
  oracle : condition = .oracle → r.perturbed = true → r.triggerLatency = some 0
  clean : condition = .oracle → perturb = false → r.nReplans = 0
  noReplan : condition = .noReplan → r.triggerLatency = none

theorem RecordedRun.latencyFacts {condition : Condition} {perturb : Bool} {r : RunResult K Row}
    (recorded : RecordedRun env condition perturb r) : LatencyFacts condition perturb r := by
  obtain ⟨σ, setting, args, s, sim, trigger, rfl, rfl, positive, ran⟩ := recorded
  obtain ⟨state, rfl, recorded, scheduled, planned⟩ := exists_summary positive ran
    (fun _ replan => setting.condition = .noReplan → loggedReplans replan = []) (fun _ => rfl)
    (by
      intro t trigger after fired doReplan sim policy replan decided planned idle
      rw [decideReplan_of_noReplan idle] at decided
      obtain ⟨rfl, -⟩ := Prod.mk.inj (Except.ok.inj decided)
      rw [loggedReplans_append_singleton, planned idle]
      rfl)
  have latency : (runResult setting args state).triggerLatency =
      latencyOf state.episode.sched.fireStep state.episode.policy.replanSteps :=
    recorded.triggerLatency_eq
  have fired : (runResult setting args state).perturbed = state.episode.sched.fireStep.isSome :=
    recorded.fired
  refine ⟨fun l found => ?_, fun oracle perturbed => ?_, fun oracle clean => ?_, fun idle => ?_⟩
  · rw [latency, latencyOf] at found
    obtain ⟨u, first, rest⟩ := Option.bind_eq_some_iff.mp found
    obtain ⟨p, fires, difference⟩ := Option.bind_eq_some_iff.mp rest
    rw [fires, firstReplanSince, Option.bind_some] at first
    have since := List.find?_some first
    rw [decide_eq_true_eq] at since
    have := Option.some.inj difference
    omega
  · rw [fired, Option.isSome_iff_exists] at perturbed
    obtain ⟨p, fires⟩ := perturbed
    rw [latency, recorded.oracle oracle, fires]
    simp [latencyOf, firstReplanSince]
  · have unfired : state.episode.sched.fireStep = none := by
      apply Option.eq_none_iff_forall_ne_some.mpr
      intro p fires
      have enabled := (scheduled.fireStep p fires).1
      rw [clean] at enabled
      contradiction
    change state.episode.policy.nReplans = 0
    rw [recorded.nReplans, recorded.oracle oracle, unfired]
    rfl
  · have replan : state.episode.policy.replanSteps = [] :=
      recorded.replanSteps.trans (planned idle)
    rw [latency, replan, latencyOf]
    cases state.episode.sched.fireStep <;> rfl

omit [Field K] [LinearOrder K] in
theorem mem_firedLatencies {rp : List (RunResult K Row)} {l : ℤ} :
    l ∈ firedLatencies rp ↔ ∃ r ∈ rp, r.perturbed = true ∧ r.triggerLatency = some l := by
  simp only [firedLatencies, firedRuns, List.mem_filterMap, List.mem_filter, and_assoc]

section Stats

variable [IsStrictOrderedRing K]

/-- In the summary of perturbed runs the median, the percentile and the maximum ascend from zero,
the mean lies below the maximum, and the two rates ascend to the rate of detection. -/
theorem stats_ordered {rp rc : List (RunResult K Row)}
    (runs : ∀ r ∈ rp, ∃ condition, RecordedRun env condition true r) {summary : Stats K}
    (computed : stats rp rc = .ok summary) :
    ∃ med p90 mean, summary.med = some med ∧ summary.p90 = some p90 ∧ summary.mean = some mean ∧
      (0 ≤ med ∧ med ≤ p90 ∧ p90 ≤ summary.mx) ∧ (0 ≤ mean ∧ mean ≤ summary.mx) ∧
      (0 ≤ summary.le5 ∧ summary.le5 ≤ summary.le10 ∧
        summary.le10 ≤ summary.nDetected / summary.nAll ∧ summary.nDetected ≤ summary.nAll) := by
  obtain ⟨mx, greatest, rest⟩ := Fallible.bind_eq_ok.mp computed
  rw [Fallible.orRaise_eq_ok, List.max?_eq_some_iff] at greatest
  split at rest
  · contradiction
  case isFalse fired =>
    obtain rfl := Except.ok.inj rest
    have detected : (firedLatencies rp).map (fun l : ℤ => (l : K)) ≠ [] := by
      simpa using List.ne_nil_of_mem greatest.1
    have range : ∀ v ∈ (firedLatencies rp).map (fun l : ℤ => (l : K)), 0 ≤ v ∧ v ≤ (mx : K) := by
      intro v member
      obtain ⟨l, listed, rfl⟩ := List.mem_map.mp member
      obtain ⟨r, run, -, latency⟩ := mem_firedLatencies.mp listed
      obtain ⟨condition, recorded⟩ := runs r run
      exact ⟨Int.cast_nonneg (recorded.latencyFacts.nonneg l latency),
        Int.cast_le.mpr (greatest.2 l listed)⟩
    obtain ⟨med, medAt, medLow, medHigh⟩ :=
      Numpy.exists_percentile detected (show 50 ≤ 100 by decide) range
    obtain ⟨p90, p90At, p90Low, p90High⟩ :=
      Numpy.exists_percentile detected (show 90 ≤ 100 by decide) range
    obtain ⟨mean, meanAt, meanLow, meanHigh⟩ := Numpy.exists_mean detected range
    have positive : (0 : K) < (firedRuns rp).length := Nat.cast_pos.mpr (Nat.pos_of_ne_zero fired)
    refine ⟨med, p90, mean, ?_, p90At, meanAt, ⟨medLow, ?_, p90High⟩, ⟨meanLow, meanHigh⟩,
      ?_, ?_, ?_, ?_⟩
    · exact (Numpy.median_eq_percentile _).trans medAt
    · exact Numpy.percentile_mono (by decide) medAt p90At
    · positivity
    · refine div_le_div_of_nonneg_right (Nat.cast_le.mpr ?_) positive.le
      refine List.countP_mono_left fun l _ soon => ?_
      rw [decide_eq_true_eq] at soon ⊢
      exact soon.trans (by decide)
    · exact div_le_div_of_nonneg_right (Nat.cast_le.mpr List.countP_le_length) positive.le
    · exact List.length_filterMap_le _ _

/-- The oracle is summarised by latency zero, full detection and no false alarm; without replans
there is nothing to summarise. -/
theorem stats_of_baselines {rp rc : List (RunResult K Row)} :
    ((∀ r ∈ rp, RecordedRun env .oracle true r) → (∀ r ∈ rc, RecordedRun env .oracle false r) →
      firedRuns rp ≠ [] → ∃ summary, stats rp rc = .ok summary ∧
        summary.nDetected = summary.nAll ∧ summary.med = some 0 ∧ summary.p90 = some 0 ∧
        summary.mx = 0 ∧ summary.mean = some 0 ∧ summary.le5 = 1 ∧ summary.le10 = 1 ∧
        (rc ≠ [] → summary.fp = some 0)) ∧
      ((∀ r ∈ rp, RecordedRun env .noReplan true r) →
        ∃ failure, stats rp rc = .error failure) := by
  constructor
  · intro perturbed clean fired
    have zero : ∀ r ∈ firedRuns rp, r.triggerLatency = some 0 := by
      intro r member
      obtain ⟨run, fires⟩ := List.mem_filter.mp member
      exact (perturbed r run).latencyFacts.oracle rfl fires
    have lats : firedLatencies rp = List.replicate (firedRuns rp).length 0 := by
      rw [firedLatencies, List.filterMap_congr zero]
      simp
    have some_fired : (firedRuns rp).length ≠ 0 := by simpa using fired
    have greatest : (firedLatencies rp).max? = some 0 := by
      rw [List.max?_eq_some_iff, lats]
      exact ⟨List.mem_replicate.mpr ⟨some_fired, rfl⟩, fun l member =>
        (List.eq_of_mem_replicate member).le⟩
    have values : (firedLatencies rp).map (fun l : ℤ => (l : K)) ≠ [] := by
      simpa [lats] using fired
    have range : ∀ v ∈ (firedLatencies rp).map (fun l : ℤ => (l : K)), 0 ≤ v ∧ v ≤ 0 := by
      simp [lats]
    obtain ⟨med, medAt, medLow, medHigh⟩ :=
      Numpy.exists_percentile values (show 50 ≤ 100 by decide) range
    obtain ⟨p90, p90At, p90Low, p90High⟩ :=
      Numpy.exists_percentile values (show 90 ≤ 100 by decide) range
    obtain ⟨mean, meanAt, meanLow, meanHigh⟩ := Numpy.exists_mean values range
    obtain rfl := medHigh.antisymm medLow
    obtain rfl := p90High.antisymm p90Low
    obtain rfl := meanHigh.antisymm meanLow
    have whole : ((firedRuns rp).length : K) / (firedRuns rp).length = 1 :=
      div_self (Nat.cast_ne_zero.mpr some_fired)
    have soon : ∀ bound : ℤ, 0 ≤ bound →
        (firedLatencies rp).countP (fun l => decide (l ≤ bound)) = (firedRuns rp).length := by
      intro bound nonneg
      rw [lats, List.countP_replicate, if_pos (decide_eq_true nonneg)]
    refine ⟨_, by rw [stats, greatest]; exact if_neg some_fired, ?_⟩
    refine ⟨by simp only [lats, List.length_replicate], ?_, p90At, rfl, meanAt, ?_, ?_, ?_⟩
    · exact (Numpy.median_eq_percentile _).trans medAt
    · dsimp only
      rw [soon 5 (by decide), whole]
    · dsimp only
      rw [soon 10 (by decide), whole]
    · intro nonempty
      have quiet : rc.countP (fun r => decide (0 < r.nReplans)) = 0 := by
        apply List.countP_eq_zero.mpr
        intro r member
        simp [(clean r member).latencyFacts.clean rfl rfl]
      dsimp only
      rw [Numpy.share_eq, if_neg nonempty, quiet, Nat.cast_zero, zero_div]
  · intro idle
    have lats : firedLatencies rp = [] := by
      apply List.eq_nil_iff_forall_not_mem.mpr
      intro l member
      obtain ⟨r, run, -, latency⟩ := mem_firedLatencies.mp member
      rw [(idle r run).latencyFacts.noReplan rfl] at latency
      contradiction
    exact ⟨_, by rw [stats, lats]; rfl⟩

end Stats

/-! ## Runs on the descent -/

/-- On the descent the perturbation comes in step `24`, one step before a multiple of five. -/
theorem fixed_replans_descent :
    ∃ result sim trigger,
      runEpisode glidingEnv { glidingSetting with condition := .fixed, fixedPeriod := 5 }
        { maxSteps := 26 } 0 = .ok (result, sim, trigger) ∧
        result.nReplans = 5 ∧ result.triggerLatency = some 1 := by
  have runs : Fallible.Returns
      (runEpisode glidingEnv { glidingSetting with condition := .fixed, fixedPeriod := 5 }
        { maxSteps := 26 } 0)
      fun outcome => outcome.1.perturbStep = some 24 ∧ outcome.1.steps = 26 := by
    decide +kernel
  obtain ⟨⟨result, sim, trigger⟩, ran, fires, steps⟩ := runs.exists_eq_ok
  obtain ⟨-, count, latency⟩ := fixed_replans rfl (show (5 : ℤ) = (5 : ℕ) from rfl)
    (by decide) (by decide) ran
  have latency := (latency 24 fires).2
  rw [steps] at count latency
  exact ⟨result, sim, trigger, ran, count, latency⟩

/-- An oracle run with the perturbation and one without. -/
theorem exists_oracleRuns :
    ∃ perturbed clean : RunResult ℚ Unit, RecordedRun glidingEnv .oracle true perturbed ∧
      RecordedRun glidingEnv .oracle false clean ∧ perturbed.perturbed = true := by
  have runs : Fallible.Returns
      (runEpisode glidingEnv { glidingSetting with condition := .oracle } { maxSteps := 26 } 0)
      fun outcome => outcome.1.perturbed = true := by
    decide +kernel
  have runsClean : Fallible.Returns
      (runEpisode glidingEnv { glidingSetting with condition := .oracle }
        { perturb := false, maxSteps := 1 } 0) fun _ => True := by
    decide +kernel
  obtain ⟨⟨perturbed, sim, trigger⟩, ran, fires⟩ := runs.exists_eq_ok
  obtain ⟨⟨clean, sim', trigger'⟩, ran', -⟩ := runsClean.exists_eq_ok
  exact ⟨perturbed, clean, ⟨_, _, _, _, _, _, rfl, rfl, by decide, ran⟩,
    ⟨_, _, _, _, _, _, rfl, rfl, by decide, ran'⟩, fires⟩

theorem stats_of_baselines_descent :
    ∃ perturbed clean : RunResult ℚ Unit, ∃ summary : Stats ℚ,
      stats [perturbed] [clean] = .ok summary ∧ summary.mx = 0 ∧ summary.le5 = 1 := by
  obtain ⟨perturbed, clean, recorded, recordedClean, fires⟩ := exists_oracleRuns
  obtain ⟨summary, computed, -, -, -, mx, -, le5, -⟩ := stats_of_baselines.1
    (List.forall_mem_singleton.mpr recorded) (List.forall_mem_singleton.mpr recordedClean)
    (by simp [firedRuns, fires])
  exact ⟨perturbed, clean, summary, computed, mx, le5⟩

theorem stats_ordered_descent :
    ∃ perturbed clean : RunResult ℚ Unit, ∃ summary : Stats ℚ,
      stats [perturbed] [clean] = .ok summary ∧ summary.le5 ≤ summary.le10 := by
  obtain ⟨perturbed, clean, recorded, -, fires⟩ := exists_oracleRuns
  have latency := recorded.latencyFacts.oracle rfl fires
  have greatest : (firedLatencies [perturbed]).max? = some 0 := by
    simp [firedLatencies, firedRuns, fires, latency]
  have some_fired : (firedRuns [perturbed]).length ≠ 0 := by simp [firedRuns, fires]
  obtain ⟨summary, computed⟩ : ∃ summary : Stats ℚ, stats [perturbed] [clean] = .ok summary :=
    ⟨_, by rw [stats, greatest]; exact if_neg some_fired⟩
  obtain ⟨-, -, -, -, -, -, -, -, -, ordered, -⟩ := stats_ordered
    (List.forall_mem_singleton.mpr ⟨_, recorded⟩) computed
  exact ⟨perturbed, clean, summary, computed, ordered⟩

end G1Jepa
