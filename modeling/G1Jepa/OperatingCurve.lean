import G1Jepa.Evaluate
import G1Jepa.TriggerHysteresis
import Mathlib.Data.Option.Defs

/-!
# Operating curves

A higher threshold or a longer streak makes the offline detector hit later or not at all. Both rates
of `evaluate` are shares of episodes, so they can only fall along an operating curve, unless a
threshold is listed more than once.
-/

namespace G1Jepa

variable {K : Type} [Field K] [LinearOrder K] {D : ℕ}

/-! ## A single detection -/

omit [Field K] in
theorem exists_firstRun_le {zs : List (NanOr K)} {lower higher : K} {fewer consec start i : ℕ}
    (ordered : lower ≤ higher) (positive : 0 < fewer) (stricter : fewer ≤ consec)
    (hit : firstRun zs higher consec start = some i) :
    ∃ j ≤ i, firstRun zs lower fewer start = some j := by
  have strict := firstRun_isFirst (positive.trans_le stricter) zs higher start
  rw [hit] at strict
  exact strict.exists_le (fun j streak => streak.loosen (fun _ => crosses_mono ordered) stricter)
    (firstRun_isFirst positive zs lower start)

theorem timely_mono [IsStrictOrderedRing K] {np : Numpy K} {cal : Calibrated K}
    {args : DetectorArgs} {ep : Latents K D} {lower higher : K} {consec : ℕ}
    (ordered : lower ≤ higher) (positive : 0 < args.consec) (stricter : args.consec ≤ consec)
    (ascending : ep.t.Pairwise (· < ·))
    (soon : timely (latency np cal { args with consec } higher ep) = true) :
    timely (latency np cal args lower ep) = true := by
  obtain ⟨i, t, hit, stamp, bound⟩ := timely_latency_iff.mp soon
  obtain ⟨j, earlier, hits⟩ := exists_firstRun_le ordered positive stricter hit
  obtain ⟨inside, rfl⟩ := List.getElem?_eq_some_iff.mp stamp
  have sooner : ep.t[j] ≤ ep.t[i] := ascending.sortedLT.strictMono_get.monotone earlier
  exact timely_latency_iff.mpr
    ⟨j, ep.t[j], hits, List.getElem?_eq_getElem (earlier.trans_lt inside), by omega⟩

/-! ## The two rates -/

theorem Numpy.share_mono [IsStrictOrderedRing K] {α : Type} {items : List α} {p q : α → Bool}
    (implies : ∀ item ∈ items, p item = true → q item = true) :
    Option.Rel (· ≤ ·) (Numpy.share items p : NanOr K) (Numpy.share items q) := by
  rw [share_eq, share_eq]
  split
  case isTrue => exact .none
  case isFalse =>
    have counted : (items.countP p : K) ≤ items.countP q :=
      Nat.cast_le.mpr (List.countP_mono_left implies)
    exact .some (div_le_div_of_nonneg_right counted (Nat.cast_nonneg _))

section Rates

variable {np : Numpy K} {cal : Calibrated K} {args : DetectorArgs} {kappas : List K} {kappa : K}

/-- The counter of a threshold counts each alarm once for every occurrence. -/
theorem falseAlarms_eq (pool : List (Latents K D)) : falseAlarms np cal args kappas kappa pool =
    kappas.count kappa * pool.countP fun ep =>
      (firstRun (args.zscores np cal ep) kappa args.consec 0).isSome := by
  simp only [falseAlarms, List.filter_eq, List.countP_replicate]
  induction pool with
  | nil => rfl
  | cons ep pool induction =>
      rw [List.map_cons, List.sum_cons, induction, List.countP_cons]
      split <;> ring

theorem mem_evaluate [IsStrictOrderedRing K] {pert clean : List (Latents K D)}
    {cleanTest : Option (List (Latents K D))} {row : EvaluateRow K}
    (member : row ∈ evaluate np args pert clean kappas cleanTest) :
    (row.detect = Numpy.share pert fun ep =>
        timely (latency np (args.calibrate np clean) args row.kappa ep)) ∧
      row.fp = (falseAlarms np (args.calibrate np clean) args kappas row.kappa
        (cleanTest.getD clean) : K) / (max 1 (cleanTest.getD clean).length : ℕ) := by
  obtain ⟨kappa, occurs, rfl⟩ := List.mem_map.mp member
  exact ⟨detect_eq_share occurs pert, rfl⟩

/-- Along an operating curve neither rate grows: a higher threshold and a longer streak detect no
more perturbed episodes and raise no more false alarms. Both detection rates are NaN when there is
no perturbed episode; a threshold that is listed twice counts its false alarms twice. -/
theorem evaluate_monotone [IsStrictOrderedRing K] (np : Numpy K) (args : DetectorArgs) {consec : ℕ}
    (positive : 1 ≤ args.consec) (stricter : args.consec ≤ consec) {pert : List (Latents K D)}
    (ascending : ∀ ep ∈ pert, ep.t.Pairwise (· < ·)) (clean : List (Latents K D))
    (cleanTest : Option (List (Latents K D))) (kappas kappas' : List K) {row row' : EvaluateRow K}
    (member : row ∈ evaluate np args pert clean kappas cleanTest)
    (member' : row' ∈ evaluate np { args with consec } pert clean kappas' cleanTest)
    (ordered : row.kappa ≤ row'.kappa) :
    Option.Rel (· ≤ ·) row'.detect row.detect ∧
      (row.detect = none ↔ pert = []) ∧
      (kappas'.count row'.kappa ≤ kappas.count row.kappa → row'.fp ≤ row.fp) := by
  obtain ⟨detect, fp⟩ := mem_evaluate member
  obtain ⟨detect', fp'⟩ := mem_evaluate member'
  refine ⟨?_, ?_, ?_⟩
  · rw [detect, detect']
    exact Numpy.share_mono fun ep inside soon =>
      timely_mono ordered positive stricter (ascending ep inside) soon
  · rw [detect, Numpy.share_eq]
    split
    case isTrue empty => exact iff_of_true rfl empty
    case isFalse nonempty => exact iff_of_false nofun nonempty
  · intro occurrences
    have alarms : falseAlarms np (args.calibrate np clean) { args with consec } kappas' row'.kappa
        (cleanTest.getD clean) ≤ falseAlarms np (args.calibrate np clean) args kappas row.kappa
          (cleanTest.getD clean) := by
      rw [falseAlarms_eq, falseAlarms_eq]
      apply Nat.mul_le_mul occurrences
      apply List.countP_mono_left
      intro ep _ alarm
      obtain ⟨i, hit⟩ := Option.isSome_iff_exists.mp alarm
      obtain ⟨j, -, hits⟩ := exists_firstRun_le ordered positive stricter hit
      exact Option.isSome_iff_exists.mpr ⟨j, hits⟩
    rw [fp, fp']
    exact div_le_div_of_nonneg_right (Nat.cast_le.mpr alarms) (Nat.cast_nonneg _)

end Rates

/-- The detected spike of a single step is lost when two steps are asked for. -/
theorem evaluate_monotone_spike :
    ∃ row ∈ evaluate .rational spikeArgs [spikeLatents 1 1] [spikeLatents 0 (-1)] [3] none,
      ∃ row' ∈ evaluate .rational { spikeArgs with consec := 2 } [spikeLatents 1 1]
        [spikeLatents 0 (-1)] [4] none,
        row.detect = some 1 ∧ row'.detect = some 0 ∧
          Option.Rel (· ≤ ·) row'.detect row.detect ∧ row'.fp ≤ row.fp := by
  refine ⟨_, List.mem_cons_self, _, List.mem_cons_self, by decide +kernel, by decide +kernel, ?_⟩
  have ordered : (3 : ℚ) ≤ 4 := by decide +kernel
  have ascending : ∀ ep ∈ [spikeLatents 1 1], ep.t.Pairwise (· < ·) := by decide
  obtain ⟨detect, -, fp⟩ := evaluate_monotone .rational spikeArgs le_rfl (Nat.le_succ 1) ascending
    [spikeLatents 0 (-1)] none [3] [4] List.mem_cons_self List.mem_cons_self ordered
  exact ⟨detect, fp (by decide +kernel)⟩

/-- A threshold that is listed twice counts the false alarm of the one clean episode twice, and a
lower one that is listed once counts it once. -/
theorem evaluate_not_monotone :
    ∃ row ∈ evaluate .rational spikeArgs [spikeLatents 1 1] [spikeLatents 0 (-1)] [2, 3, 3]
        (some [spikeLatents 1 (-1)]),
      ∃ row' ∈ evaluate .rational spikeArgs [spikeLatents 1 1] [spikeLatents 0 (-1)] [2, 3, 3]
          (some [spikeLatents 1 (-1)]),
        row.kappa ≤ row'.kappa ∧ row.fp = 1 ∧ row'.fp = 2 :=
  ⟨_, List.mem_cons_self, _, List.mem_cons_of_mem _ List.mem_cons_self, by decide +kernel,
    by decide +kernel, by decide +kernel⟩

end G1Jepa
