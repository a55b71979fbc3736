import G1Jepa.CalibrationRoundTrip

/-!
# Rebuilding a calibration

`make_calib.py` computes new statistics from the errors that observe-only runs have logged and
keeps the old entry of a bucket with few samples. It visits the buckets that were observed, so an
old bucket without any sample is not visited and is lost.
-/

namespace G1Jepa

variable {K : Type} [Field K] [LinearOrder K]

/-- The part of a stored run that `make_calib.py` reads. -/
structure ObservedRun (K : Type) where
  nReplans : ℕ
  dbgLog : Option (List (DbgRow K))

/-- The smallest number of samples with which a bucket gets new statistics. -/
def minN : ℕ := 30

/-- The bucket and the error of every logged step of the runs without replans. -/
def observedSamples (runs : List (ObservedRun K)) : List (ℤ × K) :=
  runs.flatMap fun run =>
    if run.nReplans ≠ 0 then []
    else (run.dbgLog.getD []).map fun row => (row.bucket, row.e)

/-- One iteration over the observed buckets: the entry to write, if any. -/
def rebuiltEntry (np : Numpy K) (old : CalibJson K) (b : ℤ) (values : List K) :
    Except PyError (Option (NanOr K × NanOr K)) :=
  let entry := old.buckets.lookup (pyStr b)
  if values.length < minN then .ok entry
  else
    -- The printed comparison of the old and the new mean divides by the old deviation.
    if (entry.getD (old.globalMu, old.globalSd)).2 = some 0 then .error .zeroDivisionError
    else .ok (some (Numpy.mean values, regularisedStd np values))

/-- `sorted(acc)` with the values. -/
def sortedItems (acc : Dict ℤ (List K)) : List (ℤ × List K) :=
  (Dict.items acc).mergeSort fun left right => decide (left.1 ≤ right.1)

/-- The script from the old calibration and the stored runs to the file that it writes. -/
def makeCalib (np : Numpy K) (old : CalibJson K) (runs : List (ObservedRun K)) :
    Except PyError (CalibJson K) := do
  let acc := Dict.group (observedSamples runs)
  let entries ← (sortedItems acc).mapM fun item => do
    let entry ← rebuiltEntry np old item.1 item.2
    .ok (item.1, entry)
  if Dict.items acc = [] then .error (.valueError "need at least one array to concatenate")
  else
    let allv := (Dict.items acc).flatMap Prod.snd
    .ok
      { old with
        buckets := Dict.ofItems (entries.filterMap fun entry =>
          entry.2.map fun pair => (pyStr entry.1, pair))
        source := some "observe-only dev clean, seed0=0"
        globalMu := Numpy.mean allv
        globalSd := regularisedStd np allv }

/-- The pair that a rebuilt calibration should return for a bucket: new statistics from enough
samples, else the old entry, else the new global pair. -/
def rebuiltPair (np : Numpy K) (old : CalibJson K) (samples : List (ℤ × K)) (b : ℤ) :
    NanOr K × NanOr K :=
  if minN ≤ (Dict.samplesOf samples b).length then
    (Numpy.mean (Dict.samplesOf samples b), regularisedStd np (Dict.samplesOf samples b))
  else (old.buckets.lookup (pyStr b)).getD
    (Numpy.mean (samples.map Prod.snd), regularisedStd np (samples.map Prod.snd))

/-- What a trigger that has loaded a calibration looks up for a bucket. -/
def loadedLookup (cal : CalibJson K) (b : ℤ) : Except PyError (NanOr K × NanOr K) := do
  let buckets ← loadBuckets cal
  .ok ((buckets.lookup b).getD (cal.globalMu, cal.globalSd))

/-! ## The file that the script writes -/

/-- The entry of an observed bucket when its comparison can be printed. -/
def keptEntry (np : Numpy K) (old : CalibJson K) (b : ℤ) (values : List K) :
    Option (NanOr K × NanOr K) :=
  if values.length < minN then old.buckets.lookup (pyStr b)
  else some (Numpy.mean values, regularisedStd np values)

/-- The printed comparison of a bucket does not divide by zero. -/
def Comparable (old : CalibJson K) (b : ℤ) (values : List K) : Prop :=
  minN ≤ values.length →
    ((old.buckets.lookup (pyStr b)).getD (old.globalMu, old.globalSd)).2 ≠ some 0

theorem rebuiltEntry_eq_ok_iff {np : Numpy K} {old : CalibJson K} {b : ℤ} {values : List K}
    {entry : Option (NanOr K × NanOr K)} :
    rebuiltEntry np old b values = .ok entry ↔
      Comparable old b values ∧ entry = keptEntry np old b values := by
  rw [rebuiltEntry, keptEntry, Comparable]
  by_cases few : values.length < minN
  · rw [if_pos few, if_pos few, Except.ok.injEq, eq_comm]
    exact (and_iff_right fun many => absurd many (by omega)).symm
  · rw [if_neg few, if_neg few]
    by_cases zero : ((old.buckets.lookup (pyStr b)).getD (old.globalMu, old.globalSd)).2 = some 0
    · rw [if_pos zero]
      constructor
      · intro absurdity
        contradiction
      · rintro ⟨comparable, -⟩
        exact absurd zero (comparable (by omega))
    · rw [if_neg zero, Except.ok.injEq, eq_comm]
      exact (and_iff_right fun _ => zero).symm

/-- The rebuilt calibration as a function of the samples. -/
def rebuiltCalib (np : Numpy K) (old : CalibJson K) (samples : List (ℤ × K)) : CalibJson K :=
  { old with
    buckets := Dict.ofItems ((sortedItems (Dict.group samples)).filterMap fun item =>
      (keptEntry np old item.1 item.2).map fun pair => (pyStr item.1, pair))
    source := some "observe-only dev clean, seed0=0"
    globalMu := Numpy.mean (samples.map Prod.snd)
    globalSd := regularisedStd np (samples.map Prod.snd) }

theorem rebuiltPair_of_unobserved (np : Numpy K) (old : CalibJson K) {samples : List (ℤ × K)}
    {b : ℤ} (unobserved : Dict.samplesOf samples b = []) :
    rebuiltPair np old samples b = (old.buckets.lookup (pyStr b)).getD
      (Numpy.mean (samples.map Prod.snd), regularisedStd np (samples.map Prod.snd)) := by
  rw [rebuiltPair, unobserved, if_neg (by simp [minN])]

omit [Field K] [LinearOrder K] in
theorem sortedItems_perm (acc : Dict ℤ (List K)) : (sortedItems acc).Perm (Dict.items acc) :=
  List.mergeSort_perm _ _

omit [Field K] [LinearOrder K] in
theorem items_group_eq_nil_iff {samples : List (ℤ × K)} :
    Dict.items (Dict.group samples) = [] ↔ samples = [] := by
  constructor
  · intro empty
    have perm := Dict.group_values_perm samples
    rw [empty, List.flatMap_nil, List.nil_perm, List.map_eq_nil_iff] at perm
    exact perm
  · rintro rfl
    rfl

/-- The loop over the observed buckets. -/
theorem mapM_rebuiltEntry_eq_ok_iff {np : Numpy K} {old : CalibJson K} {acc : Dict ℤ (List K)}
    {entries : List (ℤ × Option (NanOr K × NanOr K))} :
    ((sortedItems acc).mapM fun item => do
        let entry ← rebuiltEntry np old item.1 item.2
        Except.ok (item.1, entry)) = .ok entries ↔
      (∀ item ∈ Dict.items acc, Comparable old item.1 item.2) ∧
        entries = (sortedItems acc).map fun item => (item.1, keptEntry np old item.1 item.2) := by
  have traversal : (∀ item ∈ Dict.items acc, Comparable old item.1 item.2) →
      ((sortedItems acc).mapM fun item => do
        let entry ← rebuiltEntry np old item.1 item.2
        Except.ok (item.1, entry)) =
      .ok ((sortedItems acc).map fun item => (item.1, keptEntry np old item.1 item.2)) := by
    intro comparable
    apply Fallible.mapM_eq_map
    intro item member
    have listed := (sortedItems_perm acc).mem_iff.mp member
    rw [rebuiltEntry_eq_ok_iff.mpr ⟨comparable item listed, rfl⟩, Fallible.ok_bind]
  constructor
  · intro traversed
    have comparable : ∀ item ∈ Dict.items acc, Comparable old item.1 item.2 := by
      intro item member
      obtain ⟨output, ran⟩ := Fallible.exists_of_mapM_eq_ok traversed
        ((sortedItems_perm acc).mem_iff.mpr member)
      obtain ⟨entry, rebuilt, -⟩ := Fallible.bind_eq_ok.mp ran
      exact (rebuiltEntry_eq_ok_iff.mp rebuilt).1
    rw [traversal comparable] at traversed
    exact ⟨comparable, (Except.ok.inj traversed).symm⟩
  · rintro ⟨comparable, rfl⟩
    exact traversal comparable

/-- The script writes a file exactly when there is a sample and every comparison can be printed. -/
theorem makeCalib_eq_ok_iff {np : Numpy K} {old new : CalibJson K} {runs : List (ObservedRun K)} :
    makeCalib np old runs = .ok new ↔ observedSamples runs ≠ [] ∧
      (∀ item ∈ Dict.items (Dict.group (observedSamples runs)), Comparable old item.1 item.2) ∧
      new = rebuiltCalib np old (observedSamples runs) := by
  have pooled := Dict.group_values_perm (observedSamples runs)
  rw [makeCalib, Fallible.bind_eq_ok]
  simp only [mapM_rebuiltEntry_eq_ok_iff, items_group_eq_nil_iff]
  rw [Numpy.mean_perm pooled, regularisedStd, np.std_perm pooled, rebuiltCalib]
  constructor
  · rintro ⟨entries, ⟨comparable, rfl⟩, returned⟩
    split at returned
    · contradiction
    case isFalse nonempty =>
      refine ⟨nonempty, comparable, ?_⟩
      rw [List.filterMap_map] at returned
      exact (Except.ok.inj returned).symm
  · rintro ⟨nonempty, comparable, rfl⟩
    refine ⟨_, ⟨comparable, rfl⟩, ?_⟩
    rw [if_neg nonempty, List.filterMap_map]
    rfl

/-! ## Lookups in the rebuilt calibration -/

section Lookup

variable (np : Numpy K) (old : CalibJson K) (samples : List (ℤ × K))

/-- The entry that is found for a bucket in the rebuilt calibration. -/
theorem rebuiltCalib_lookup (b : ℤ) : (rebuiltCalib np old samples).buckets.lookup (pyStr b) =
    if Dict.samplesOf samples b = [] then none
    else keptEntry np old b (Dict.samplesOf samples b) := by
  have found := Dict.lookup_ofItems_filterMap pyStr_injective (keptEntry np old)
    (sortedItems_perm (Dict.group samples)) b
  rw [rebuiltCalib]
  dsimp only
  rw [found, Dict.lookup_group]
  by_cases empty : Dict.samplesOf samples b = []
  · rw [if_pos empty, if_pos empty]
    rfl
  · rw [if_neg empty, if_neg empty]
    rfl

theorem loadedLookup_rebuiltCalib (b : ℤ) : loadedLookup (rebuiltCalib np old samples) b =
    .ok (if Dict.samplesOf samples b = [] then
        (Numpy.mean (samples.map Prod.snd), regularisedStd np (samples.map Prod.snd))
      else rebuiltPair np old samples b) := by
  have keys : ∀ item ∈ Dict.items (rebuiltCalib np old samples).buckets,
      ∃ b, item.1 = pyStr b := by
    intro item member
    obtain ⟨bucket, -, stored⟩ := List.mem_filterMap.mp (Dict.mem_of_mem_items_ofItems member)
    obtain ⟨pair, -, rfl⟩ := Option.map_eq_some_iff.mp stored
    exact ⟨bucket.1, rfl⟩
  obtain ⟨buckets, read, found⟩ := exists_loadBuckets keys
  rw [loadedLookup, read, Fallible.ok_bind, found, rebuiltCalib_lookup]
  congr 1
  by_cases empty : Dict.samplesOf samples b = []
  · rw [if_pos empty, if_pos empty]
    rfl
  · rw [if_neg empty, if_neg empty, keptEntry, rebuiltPair]
    by_cases few : (Dict.samplesOf samples b).length < minN
    · rw [if_pos few, if_neg (by omega)]
      rfl
    · rw [if_neg few, if_pos (by omega)]
      rfl

omit [LinearOrder K] in
theorem comparable_iff : (∀ item ∈ Dict.items (Dict.group samples), Comparable old item.1 item.2) ↔
    ∀ b, Comparable old b (Dict.samplesOf samples b) := by
  constructor
  · intro comparable b many
    have nonempty : Dict.samplesOf samples b ≠ [] := by
      intro empty
      rw [empty] at many
      simp [minN] at many
    exact comparable (b, _) (Dict.mem_items_group.mpr ⟨nonempty, rfl⟩) many
  · rintro comparable ⟨b, values⟩ member
    obtain ⟨-, rfl⟩ := Dict.mem_items_group.mp member
    exact comparable b

/-- A rebuilt calibration follows the law of `rebuiltPair` exactly when there is a sample, no
printed comparison divides by zero, and the old entry of every bucket without a sample happens to
be the new global pair. -/
theorem makeCalib_keeps_buckets_iff (runs : List (ObservedRun K)) :
    (∃ new, makeCalib np old runs = .ok new ∧
        ∀ b, loadedLookup new b = .ok (rebuiltPair np old (observedSamples runs) b)) ↔
      observedSamples runs ≠ [] ∧
        (∀ b, Comparable old b (Dict.samplesOf (observedSamples runs) b)) ∧
        ∀ b pair, Dict.samplesOf (observedSamples runs) b = [] →
          old.buckets.lookup (pyStr b) = some pair →
          pair = (Numpy.mean ((observedSamples runs).map Prod.snd),
            regularisedStd np ((observedSamples runs).map Prod.snd)) := by
  simp only [makeCalib_eq_ok_iff, comparable_iff]
  constructor
  · rintro ⟨new, ⟨nonempty, comparable, rfl⟩, lawful⟩
    refine ⟨nonempty, comparable, fun b pair empty stored => ?_⟩
    have law := lawful b
    rw [loadedLookup_rebuiltCalib, if_pos empty, Except.ok.injEq,
      rebuiltPair_of_unobserved np old empty, stored, Option.getD_some] at law
    exact law.symm
  · rintro ⟨nonempty, comparable, unobserved⟩
    refine ⟨_, ⟨nonempty, comparable, rfl⟩, fun b => ?_⟩
    rw [loadedLookup_rebuiltCalib]
    by_cases empty : Dict.samplesOf (observedSamples runs) b = []
    · rw [if_pos empty, rebuiltPair_of_unobserved np old empty]
      cases stored : old.buckets.lookup (pyStr b) with
      | none => rfl
      | some pair => rw [unobserved b pair empty stored, Option.getD_some]
    · rw [if_neg empty]

end Lookup

/-- A calibration with one bucket, that of the middle of `DESCEND`. -/
def descendCalib : CalibJson ℚ where
  tag := "f16s1_wrist"
  feature := .grid
  k := 1
  metric := .abs
  warmup := 16
  nCalib := 100
  camera := "robot0_eye_in_hand"
  frames := 16
  stride := 1
  globalMu := some 2
  globalSd := some 2
  buckets := Dict.ofItems [(pyStr 4, some 1, some 1)]

/-- A run that has logged one error, in the first bucket. -/
def approachRun : ObservedRun ℚ where
  nReplans := 0
  dbgLog := some [{ t := 20, bucket := 0, fallback := true, e := 5, mu := some 2, sd := some 2
                    z := some (3 / 2) }]

/-- The old entry of the bucket without samples is replaced by the global pair. -/
theorem makeCalib_drops_unobserved_bucket :
    ∃ new, makeCalib .rational descendCalib [approachRun] = .ok new ∧
      loadedLookup new 4 ≠
        .ok (rebuiltPair .rational descendCalib (observedSamples [approachRun]) 4) := by
  have samples : observedSamples [approachRun] = [(0, 5)] := rfl
  have unobserved : Dict.samplesOf (observedSamples [approachRun]) 4 = [] := rfl
  have stored : descendCalib.buckets.lookup (pyStr 4) = some (some 1, some 1) :=
    AList.lookup_insert ∅
  refine ⟨_, makeCalib_eq_ok_iff.mpr ⟨by simp [samples], ?_, rfl⟩, ?_⟩
  · rw [comparable_iff]
    intro b many
    have few : (Dict.samplesOf (observedSamples [approachRun]) b).length ≤ 1 := by
      rw [samples, Dict.samplesOf, List.length_map]
      exact List.length_filter_le _ [((0 : ℤ), (5 : ℚ))]
    rw [minN] at many
    omega
  · rw [loadedLookup_rebuiltCalib, if_pos unobserved,
      rebuiltPair_of_unobserved .rational descendCalib unobserved, stored, Option.getD_some,
      samples]
    intro same
    have means := congrArg Prod.fst (Except.ok.inj same)
    simp [Numpy.mean] at means

end G1Jepa
