import G1Jepa.CalibrationRoundTrip
import G1Jepa.RunRecord
import G1Jepa.TriggerHysteresis

/-!
# Counterfactual replay

`counterfactual.py` looks for the first crossing in the logged errors of a recorded run, and
`aggregate.py` evaluates the replans of the same run. Under the calibration of the recording the
first crossing is the first replan; a run whose first replan precedes the perturbation is given up
by the former, while the latter still finds the first replan behind the perturbation.
-/

namespace G1Jepa

variable {K E R Row Z : Type} [Field K] [LinearOrder K] {D : ℕ}

/-! ## The statistics of a set of runs -/

/-- The result of `stats`. -/
structure Stats (K : Type) where
  nAll : ℕ
  nDetected : ℕ
  successRate : NanOr K
  successRateClean : NanOr K
  med : NanOr K
  p90 : NanOr K
  mx : ℤ
  mean : NanOr K
  le5 : K
  le10 : K
  fp : NanOr K
  steps : NanOr K

/-- `fired`: the runs whose perturbation fired. -/
def firedRuns (rp : List (RunResult K Row)) : List (RunResult K Row) :=
  rp.filter fun r => r.perturbed

/-- `lats`: the latencies of the runs that were replanned after the perturbation. -/
def firedLatencies (rp : List (RunResult K Row)) : List ℤ :=
  (firedRuns rp).filterMap fun r => r.triggerLatency

def stats (rp rc : List (RunResult K Row)) : Except PyError (Stats K) := do
  let fired := firedRuns rp
  let lats := firedLatencies rp
  let n := fired.length
  let succ := fired.filter fun r => r.success
  let mx ← Fallible.orRaise (.valueError "max() arg is an empty sequence") lats.max?
  if n = 0 then .error .zeroDivisionError
  else
    .ok
      { nAll := n
        nDetected := lats.length
        successRate := Numpy.share fired fun r => r.success
        successRateClean := Numpy.share rc fun r => r.success
        med := Numpy.median (lats.map fun l : ℤ => (l : K))
        p90 := Numpy.percentile (lats.map fun l : ℤ => (l : K)) 90
        mx
        mean := Numpy.mean (lats.map fun l : ℤ => (l : K))
        le5 := (lats.countP fun l => decide (l ≤ 5)) / n
        le10 := (lats.countP fun l => decide (l ≤ 10)) / n
        fp := Numpy.share rc fun r => decide (0 < r.nReplans)
        steps := Numpy.mean (succ.map fun r => (r.steps : K)) }

/-! ## Replay of the logged errors -/

/-- `KAPPA`. -/
def replayKappa : K := 35 / 10

/-- `err > mu + KAPPA * sd`, which is false when one of the numbers is NaN. -/
def aboveLine (e : K) (pair : NanOr K × NanOr K) : Bool :=
  NanOr.below (do
    let mu ← pair.1
    let sd ← pair.2
    some (mu + replayKappa * sd)) e

/-- `old_par`. -/
def oldPar (cal : CalibJson K) (b : ℤ) : NanOr K × NanOr K :=
  (cal.buckets.lookup (pyStr b)).getD (cal.globalMu, cal.globalSd)

def firstTrig (log : List (DbgRow K)) (par : ℤ → NanOr K × NanOr K) : Option ℕ :=
  (log.find? fun row => aboveLine row.e (par row.bucket)).map DbgRow.t

/-- The bucket and the error of every logged step before the first false trigger. -/
def onlineSamples (cal : CalibJson K) (clean : List (RunResult K Row)) : List (ℤ × K) :=
  clean.flatMap fun r =>
    ((r.dbgLog.getD []).takeWhile fun row => !aboveLine row.e (oldPar cal row.bucket)).map
      fun row => (row.bucket, row.e)

/-- `par_new`: the statistics of the online samples where there are enough of them. -/
def newPar (np : Numpy K) (cal : CalibJson K) (clean : List (RunResult K Row)) (b : ℤ) :
    NanOr K × NanOr K :=
  match (Dict.group (onlineSamples cal clean)).lookup b with
  | none => oldPar cal b
  | some v => if 30 ≤ v.length then (Numpy.mean v, np.std v) else oldPar cal b

/-- A printed row. -/
structure ReplayRow (K : Type) where
  fp : NanOr K
  le5 : K
  le10 : K

/-- A perturbed run counts when its first crossing comes within `bound` steps after the
perturbation. -/
def replayHit (par : ℤ → NanOr K × NanOr K) (bound : ℤ) (r : RunResult K Row) : Bool :=
  match r.perturbStep, firstTrig (r.dbgLog.getD []) par with
  | some p, some ft => decide (p ≤ ft) && decide ((ft : ℤ) - p ≤ bound)
  | _, _ => false

/-- The numbers of a row, when there is a run to divide by. -/
def replayRates (par : ℤ → NanOr K × NanOr K) (clean perturbed : List (RunResult K Row)) :
    ReplayRow K :=
  let fired := firedRuns perturbed
  let n := fired.length
  { fp := Numpy.share clean fun r => (firstTrig (r.dbgLog.getD []) par).isSome
    le5 := fired.countP (replayHit par 5) / n
    le10 := fired.countP (replayHit par 10) / n }

/-- The row for one calibration. -/
def replayRow (par : ℤ → NanOr K × NanOr K) (clean perturbed : List (RunResult K Row)) :
    Except PyError (ReplayRow K) :=
  if (firedRuns perturbed).length = 0 then .error .zeroDivisionError
  else .ok (replayRates par clean perturbed)

/-- The script: the rows for the old calibration and for the one from the online samples. -/
def counterfactual (np : Numpy K) (cal : CalibJson K) (clean perturbed : List (RunResult K Row)) :
    Except PyError (ReplayRow K × ReplayRow K) := do
  let old ← replayRow (oldPar cal) clean perturbed
  let online ← replayRow (newPar np cal clean) clean perturbed
  .ok (old, online)

/-! ## The first crossing is the first replan -/

section Replay

variable {env : Env K E R Row} {encoder : VideoEncoder (List Row) Z K D} {cfg : TriggerConfig K}

theorem firstTrig_append_singleton (log : List (DbgRow K)) (row : DbgRow K)
    (par : ℤ → NanOr K × NanOr K) :
    firstTrig (log ++ [row]) par =
      (firstTrig log par).or (if aboveLine row.e (par row.bucket) then some row.t else none) := by
  rw [firstTrig, firstTrig, List.find?_append, Option.map_or]
  cases above : aboveLine row.e (par row.bucket) <;> simp [above]

/-- With a positive deviation the comparison of the z value is the comparison of the error. -/
theorem exceeds_standardise [IsStrictOrderedRing K] {e : K} {pair : NanOr K × NanOr K}
    (positive : ∀ sd, pair.2 = some sd → 0 < sd) :
    (standardise e pair).exceeds replayKappa = aboveLine e pair := by
  obtain ⟨mu, sd⟩ := pair
  cases mu with
  | none => rfl
  | some mu =>
      cases sd with
      | none => rfl
      | some sd =>
          have scaled : replayKappa < (e - mu) / sd ↔ mu + replayKappa * sd < e := by
            rw [lt_div_iff₀ (positive sd rfl), lt_sub_iff_add_lt']
          exact decide_eq_decide.mpr scaled

/-- The statistics in a logged row are those of its bucket. -/
structure StandardisedBy (par : ℤ → NanOr K × NanOr K) (row : DbgRow K) : Prop where
  mu : row.mu = (par row.bucket).1
  sd : row.sd = (par row.bucket).2
  z : row.z = standardise row.e (par row.bucket)

/-- A call of the trigger either leaves the log of errors and the detector alone and returns
`False`, or appends a row and returns what the detector returns on its z value. -/
theorem step_dbgLog {st after : TriggerState Row K D cfg} {t : ℕ} {s : E}
    {policy : ScriptedPickPlace K} {fired : Bool}
    (called : OnlineJepaTrigger.step env encoder st t s policy = .ok (fired, after)) :
    (after.dbgLog = st.dbgLog ∧ fired = false ∧ after.armed = st.armed) ∨
      ∃ row, after.dbgLog = st.dbgLog ++ [row] ∧ StandardisedBy cfg.lookup row ∧ row.t = t ∧
        (fired, OnlineJepaTrigger.detector after) =
          Debounce.step cfg.consec (OnlineJepaTrigger.detector st)
            ((standardise row.e (cfg.lookup row.bucket)).exceeds cfg.kappaHigh)
            ((standardise row.e (cfg.lookup row.bucket)).below cfg.kappaLow) := by
  cases OnlineJepaTrigger.stepped_of_step called with
  | idle => exact .inl ⟨rfl, rfl, rfl⟩
  | filling _ _ pushed => exact .inl ⟨by rw [pushed]; rfl, rfl, by rw [pushed]; rfl⟩
  | @judged clip pushed e z _ _ equality _ _ scored =>
      have standardised : z = standardise e (cfg.lookup (onlineBucket policy)) := by
        rw [zScore] at scored
        split at scored
        · contradiction
        · exact (Except.ok.inj scored).symm
      right
      refine ⟨{ t, bucket := onlineBucket policy
                fallback := !decide (onlineBucket policy ∈ cfg.buckets), e
                mu := (cfg.lookup (onlineBucket policy)).1
                sd := (cfg.lookup (onlineBucket policy)).2, z }, ?_,
        ⟨rfl, rfl, standardised⟩, rfl, ?_⟩
      · rw [OnlineJepaTrigger.hysteresis_dbgLog, equality]
        rfl
      · rw [OnlineJepaTrigger.hysteresis_refines, equality, standardised]
        rfl

/-- The log of errors of a trigger, empty without one. -/
def triggerLog (trigger : Option (TriggerState Row K D cfg)) : List (DbgRow K) :=
  (trigger.map TriggerState.dbgLog).getD []

theorem dbgLog_runResult {setting : ReplanSetting K E (TriggerState Row K D cfg)}
    {args : EpisodeArgs K} {state : RunState K E R Row (TriggerState Row K D cfg)}
    (calls : setting.trigger = jepaTrigger env encoder cfg) :
    (runResult setting args state).dbgLog.getD [] = triggerLog state.trigger := by
  simp only [runResult, calls]
  rfl

/-- The first logged crossing is the first replan, and before it the trigger stays armed. -/
structure Replayed (trigger : Option (TriggerState Row K D cfg)) (steps : List ℕ) : Prop where
  first : firstTrig (triggerLog trigger) cfg.lookup = steps.head?
  armed : ∀ st, trigger = some st → steps = [] → st.armed = true

/-- One decision of a trigger that fires on every crossing. -/
theorem Replayed.next [IsStrictOrderedRing K]
    {setting : ReplanSetting K E (TriggerState Row K D cfg)}
    {trigger after : Option (TriggerState Row K D cfg)} {steps : List ℕ} {t : ℕ}
    {fired doReplan : Bool} {sim : E} {policy : ScriptedPickPlace K}
    (replayed : Replayed trigger steps)
    (positive : ∀ b sd, (cfg.lookup b).2 = some sd → 0 < sd)
    (kappa : cfg.kappaHigh = replayKappa) (consec : cfg.consec = 1)
    (jepa : setting.condition = .jepa) (acts : setting.observeOnly = false)
    (calls : setting.trigger = jepaTrigger env encoder cfg)
    (decided : decideReplan setting trigger t fired sim policy = .ok (doReplan, after)) :
    Replayed after (steps ++ if doReplan then [t] else []) := by
  simp only [decideReplan, jepa, acts, calls] at decided
  cases trigger with
  | none =>
      obtain ⟨rfl, rfl⟩ := Prod.mk.inj (Except.ok.inj decided)
      exact ⟨replayed.first.trans (by simp), fun st absurdity => by contradiction⟩
  | some st =>
      obtain ⟨⟨requested, st'⟩, called, returned⟩ := Fallible.bind_eq_ok.mp decided
      obtain ⟨rfl, rfl⟩ := Prod.mk.inj (Except.ok.inj returned)
      have first : firstTrig st.dbgLog cfg.lookup = steps.head? := replayed.first
      rcases step_dbgLog called with ⟨same, rfl, kept⟩ | ⟨row, logged, -, stamp, stepped⟩
      · refine ⟨?_, ?_⟩
        · change firstTrig st'.dbgLog cfg.lookup = _
          rw [same, first]
          simp
        · rintro _ ⟨⟩ untriggered
          rw [kept]
          exact replayed.armed st rfl (List.append_eq_nil_iff.mp untriggered).1
      · rw [kappa, exceeds_standardise (positive row.bucket), consec] at stepped
        cases steps with
        | cons step rest =>
            refine ⟨?_, fun _ _ untriggered => by simp at untriggered⟩
            change firstTrig st'.dbgLog cfg.lookup = _
            rw [logged, firstTrig_append_singleton, first]
            rfl
        | nil =>
            have armed : (OnlineJepaTrigger.detector st).armed = true :=
              replayed.armed st rfl rfl
            have once := Debounce.step_one_of_armed armed
              (aboveLine row.e (cfg.lookup row.bucket))
              ((standardise row.e (cfg.lookup row.bucket)).below cfg.kappaLow)
            rw [← stepped] at once
            obtain ⟨rfl, rearmed⟩ := once
            refine ⟨?_, ?_⟩
            · change firstTrig st'.dbgLog cfg.lookup = _
              rw [logged, firstTrig_append_singleton, first, stamp]
              cases aboveLine row.e (cfg.lookup row.bucket) <;> rfl
            · rintro _ ⟨⟩ untriggered
              apply rearmed.trans
              cases above : aboveLine row.e (cfg.lookup row.bucket) with
              | false => rfl
              | true => simp [above] at untriggered

theorem replayed_start {setting : ReplanSetting K E (TriggerState Row K D cfg)}
    (calls : setting.trigger = jepaTrigger env encoder cfg) :
    Replayed (setting.triggerState.map setting.trigger.reset) [] := by
  rw [calls]
  cases setting.triggerState with
  | none => exact ⟨rfl, fun st absurdity => by contradiction⟩
  | some st =>
      refine ⟨rfl, ?_⟩
      rintro _ ⟨⟩ -
      rfl

/-- A record that `run_episode` returns in the condition `jepa` for a trigger that is not only
observed; without a trigger object there are no replans. -/
def RecordedJepa (cfg : TriggerConfig K) (env : Env K E R Row)
    (encoder : VideoEncoder (List Row) Z K D) (r : RunResult K Row) : Prop :=
  ∃ (setting : ReplanSetting K E (TriggerState Row K D cfg)) (args : EpisodeArgs K) (s sim : E)
    (trigger : Option (TriggerState Row K D cfg)),
    setting.condition = .jepa ∧ setting.observeOnly = false ∧
      setting.trigger = jepaTrigger env encoder cfg ∧
      runEpisode env setting args s = .ok (r, sim, trigger)

/-- The fields of a record on which the two scripts are compared. -/
structure ReplayRecord (par : ℤ → NanOr K × NanOr K) (r : RunResult K Row) : Prop where
  first : firstTrig (r.dbgLog.getD []) par = r.replanSteps.head?
  nReplans : r.nReplans = r.replanSteps.length
  ascending : r.replanSteps.Pairwise (· < ·)
  latency : r.triggerLatency = do
    let triggerStep ← firstReplanSince r.perturbStep r.replanSteps
    let fireStep ← r.perturbStep
    some ((triggerStep : ℤ) - fireStep)

/-- In every record the first logged crossing is the first replan. -/
theorem replayRecord_of_recorded [IsStrictOrderedRing K] {r : RunResult K Row}
    (positive : ∀ b sd, (cfg.lookup b).2 = some sd → 0 < sd)
    (kappa : cfg.kappaHigh = replayKappa) (consec : cfg.consec = 1)
    (recording : RecordedJepa cfg env encoder r) : ReplayRecord cfg.lookup r := by
  obtain ⟨setting, args, s, sim, trigger, jepa, acts, calls, ran⟩ := recording
  obtain ⟨state, left, looped, rfl, -⟩ := exists_runLoop ran
  obtain ⟨t, -, recorded, replayed⟩ : ∃ t ≤ args.maxSteps,
      Recorded setting.condition t state.episode ∧
        Replayed state.trigger state.episode.policy.replanSteps := by
    refine @ForRange.exists_invariant _ _ (runStep env setting) (runStart env setting args s)
      (fun t state => Recorded setting.condition t state.episode ∧
        Replayed state.trigger state.episode.policy.replanSteps) ?_ ?_ args.maxSteps state left
      looped
    · have recorded : Recorded setting.condition 0 (episodeStart env args s) :=
        recorded_start setting.condition args s
      have unplanned : (runStart env setting args s).episode.policy.replanSteps = [] :=
        recorded.replanSteps
      refine ⟨recorded, ?_⟩
      rw [unplanned]
      exact replayed_start calls
    · rintro t before after left - ⟨recorded, replayed⟩ ran
      obtain ⟨doReplan, decided, advances⟩ := runStep_eq_ok ran
      have target : (perturbStage env t before.episode).2.2.policy.target.isSome :=
        recorded.planned
      obtain ⟨-, -, replanSteps⟩ :=
        replans_of_advanced target (advanced_of_advanceStage advances)
      refine ⟨(recorded.next ran).1, ?_⟩
      rw [replanSteps]
      exact replayed.next positive kappa consec jepa acts calls decided
  refine ⟨?_, recorded.nReplans, ?_, ?_⟩
  · rw [dbgLog_runResult calls]
    exact replayed.first
  · change state.episode.policy.replanSteps.Pairwise (· < ·)
    rw [recorded.replanSteps]
    exact loggedReplans_pairwise _
  · have trigger := recorded.triggerStep
    simp only [runResult, trigger]

end Replay

/-! ## The rates -/

/-- The run was replanned within `bound` steps after the perturbation. -/
def timelyRun (bound : ℤ) (r : RunResult K Row) : Bool :=
  r.triggerLatency.any fun l => decide (l ≤ bound)

/-- The run was replanned before the perturbation. -/
def replannedEarly (r : RunResult K Row) : Bool :=
  r.perturbStep.any fun p => r.replanSteps.any fun u => decide (u < p)

omit [Field K] [LinearOrder K] in
theorem replannedEarly_cons {r : RunResult K Row} {p u : ℕ} {rest : List ℕ}
    (fires : r.perturbStep = some p) (steps : r.replanSteps = u :: rest)
    (ascending : (u :: rest).Pairwise (· < ·)) : replannedEarly r = decide (u < p) := by
  rw [replannedEarly, fires, steps, Option.any_some, List.any_cons]
  by_cases early : u < p
  · simp [early]
  · have later : ∀ v ∈ rest, ¬v < p := by
      intro v member
      have := (List.pairwise_cons.mp ascending).1 v member
      omega
    simpa [early] using later

/-- The replay counts a run when it was replanned in time and not before the perturbation. -/
theorem ReplayRecord.replayHit_eq {par : ℤ → NanOr K × NanOr K} {r : RunResult K Row}
    (record : ReplayRecord par r) (bound : ℤ) :
    replayHit par bound r = (timelyRun bound r && !replannedEarly r) := by
  have latency := record.latency
  rw [replayHit, timelyRun, record.first, latency]
  cases fires : r.perturbStep with
  | none => rfl
  | some p =>
      cases steps : r.replanSteps with
      | nil => rfl
      | cons u rest =>
          rw [replannedEarly_cons fires steps (steps ▸ record.ascending)]
          by_cases early : u < p
          · simp [early, Nat.not_le_of_lt early]
          · have since : p ≤ u := Nat.le_of_not_lt early
            have found : firstReplanSince (some p) (u :: rest) = some u := by
              rw [firstReplanSince, Option.bind_some, List.find?_cons_of_pos (by simpa using since)]
            simp [found, early, since]

theorem ReplayRecord.isSome_firstTrig {par : ℤ → NanOr K × NanOr K} {r : RunResult K Row}
    (record : ReplayRecord par r) :
    (firstTrig (r.dbgLog.getD []) par).isSome = decide (0 < r.nReplans) := by
  rw [record.first, record.nReplans]
  cases r.replanSteps <;> simp

/-- Counting under a second condition loses nothing exactly when every counted item meets it. -/
theorem countP_and_eq_iff {α : Type} {items : List α} {p q : α → Bool} :
    items.countP (fun x => p x && q x) = items.countP p ↔
      ∀ x ∈ items, p x = true → q x = true := by
  induction items with
  | nil => simp
  | cons x items induction =>
      have le : items.countP (fun x => p x && q x) ≤ items.countP p := by
        apply List.countP_mono_left
        intro y _ both
        exact (Bool.and_eq_true_iff.mp both).1
      rw [List.countP_cons, List.countP_cons, List.forall_mem_cons, ← induction]
      cases p x with
      | false => simp
      | true =>
          cases q x with
          | true => simp
          | false =>
              simp only [Bool.and_false, Bool.false_eq_true, if_false, if_true, false_and,
                iff_false, forall_const]
              omega

omit [Field K] [LinearOrder K] in
theorem countP_firedLatencies (rp : List (RunResult K Row)) (bound : ℤ) :
    (firedLatencies rp).countP (fun l => decide (l ≤ bound)) =
      (firedRuns rp).countP (timelyRun bound) := by
  rw [firedLatencies, List.countP_filterMap]
  congr 1
  funext r
  rw [timelyRun]
  cases r.triggerLatency <;> rfl

/-- A calibration file: its keys are the texts of integers and all deviations are positive. -/
structure PositiveCalib (cal : CalibJson K) : Prop where
  keys : ∀ item ∈ Dict.items cal.buckets, ∃ b, item.1 = pyStr b
  sigma : ∀ b sd, (oldPar cal b).2 = some sd → 0 < sd

section Rates

variable [IsStrictOrderedRing K]

theorem share_eq_iff {a b n : ℕ} (positive : n ≠ 0) : (a : K) / n = b / n ↔ a = b := by
  have nonzero : (n : K) ≠ 0 := Nat.cast_ne_zero.mpr positive
  rw [div_left_inj' nonzero, Nat.cast_inj]

omit [IsStrictOrderedRing K] in
/-- The numbers of hits of the replay and of the recorded latencies. -/
theorem countP_replayHit {par : ℤ → NanOr K × NanOr K} {perturbed : List (RunResult K Row)}
    (records : ∀ r ∈ perturbed, ReplayRecord par r) (bound : ℤ) :
    (firedRuns perturbed).countP (replayHit par bound) =
      (firedRuns perturbed).countP fun r => timelyRun bound r && !replannedEarly r := by
  apply List.countP_congr
  intro r member
  rw [(records r (List.mem_of_mem_filter member)).replayHit_eq bound]

/-- When the statistics of a set of runs exist, the replay under the calibration of the recording
has the same false alarms, counts the runs that were replanned in time but not before the
perturbation, and has the same rate exactly when no run was replanned both before the perturbation
and in time behind it. -/
theorem replay_matches_record {env : Env K E R Row} {encoder : VideoEncoder (List Row) Z K D}
    (np : Numpy K) {cal : CalibJson K} {args : TriggerArgs K} {cfg : TriggerConfig K}
    (file : PositiveCalib cal) (loaded : TriggerConfig.init args cal = .ok cfg)
    (kappa : args.kappaHigh = replayKappa) (consec : args.consec = 1)
    {clean perturbed : List (RunResult K Row)}
    (cleanRuns : ∀ r ∈ clean, RecordedJepa cfg env encoder r)
    (perturbedRuns : ∀ r ∈ perturbed, RecordedJepa cfg env encoder r) {recorded : Stats K}
    (computed : stats perturbed clean = .ok recorded) :
    ∃ old online, counterfactual np cal clean perturbed = .ok (old, online) ∧
      old.fp = recorded.fp ∧
      old.le5 = ((firedRuns perturbed).countP fun r => timelyRun 5 r && !replannedEarly r) /
        (firedRuns perturbed).length ∧
      old.le10 = ((firedRuns perturbed).countP fun r => timelyRun 10 r && !replannedEarly r) /
        (firedRuns perturbed).length ∧
      (old.le5 = recorded.le5 ↔
        ∀ r ∈ firedRuns perturbed, timelyRun 5 r = true → replannedEarly r = false) ∧
      (old.le10 = recorded.le10 ↔
        ∀ r ∈ firedRuns perturbed, timelyRun 10 r = true → replannedEarly r = false) := by
  have lookup : cfg.lookup = oldPar cal := funext fun b => lookup_of_init file.keys loaded b
  have fields := toTriggerArgs_of_init loaded
  have record : ∀ {r}, RecordedJepa cfg env encoder r → ReplayRecord (oldPar cal) r := by
    intro r recording
    rw [← lookup]
    apply replayRecord_of_recorded _ _ _ recording
    · rw [lookup]
      exact file.sigma
    · rw [fields, kappa]
    · rw [fields, consec]
  obtain ⟨mx, -, rest⟩ := Fallible.bind_eq_ok.mp computed
  split at rest
  · contradiction
  case isFalse some_fired =>
    obtain rfl := Except.ok.inj rest
    have hits := countP_replayHit fun r member => record (perturbedRuns r member)
    have rate : ∀ bound : ℤ,
        ((firedRuns perturbed).countP (fun r => timelyRun bound r && !replannedEarly r) : K) /
            (firedRuns perturbed).length =
          (firedLatencies perturbed).countP (fun l => decide (l ≤ bound)) /
            (firedRuns perturbed).length ↔
        ∀ r ∈ firedRuns perturbed, timelyRun bound r = true → replannedEarly r = false := by
      intro bound
      rw [share_eq_iff some_fired, countP_firedLatencies, countP_and_eq_iff]
      simp only [Bool.not_eq_true']
    have falseAlarms : (Numpy.share clean fun r =>
        (firstTrig (r.dbgLog.getD []) (oldPar cal)).isSome) =
        (Numpy.share clean fun r => decide (0 < r.nReplans) : NanOr K) := by
      exact Numpy.share_congr fun r member => (record (cleanRuns r member)).isSome_firstTrig
    have row : ∀ par, replayRow par clean perturbed = .ok (replayRates par clean perturbed) :=
      fun par => if_neg some_fired
    refine ⟨replayRates (oldPar cal) clean perturbed,
      replayRates (newPar np cal clean) clean perturbed, ?_, falseAlarms, ?_⟩
    · rw [counterfactual, row, Fallible.ok_bind, row, Fallible.ok_bind]
    · simp only [replayRates]
      rw [hits 5, hits 10]
      exact ⟨rfl, rfl, rate 5, rate 10⟩

end Rates

/-! ## Runs on the descent -/

/-- The descent with frames that show the number of the step. -/
def timedEnv : Env ℚ ℕ Unit Unit :=
  { glidingEnv with simRender := fun n _ _ => List.replicate n () }

/-- A calibration that has no bucket. -/
def flatCalib : CalibJson ℚ where
  tag := "f1s1_wrist"
  feature := .mean
  k := 1
  metric := .abs
  warmup := 0
  nCalib := 1
  camera := "robot0_eye_in_hand"
  frames := 1
  stride := 1
  globalMu := some 0
  globalSd := some 1
  buckets := ∅

def flatArgs : TriggerArgs ℚ := { kappaHigh := replayKappa, consec := 1 }

/-- The trigger that has loaded this calibration. -/
def flatConfig : TriggerConfig ℚ :=
  { TriggerConfig.ofGlobal 0 1 with
    toTriggerArgs := flatArgs, framesN := 1, warmup := 0, camera := "robot0_eye_in_hand" }

def spikeSetting (times : List ℕ) (observeOnly : Bool) :
    ReplanSetting ℚ ℕ (TriggerState Unit ℚ 1 flatConfig) where
  condition := .jepa
  observeOnly
  trigger := jepaTrigger timedEnv (spikeEncoder times) flatConfig
  triggerState := some (OnlineJepaTrigger.reset flatConfig)

/-- The records of a perturbed run and of a clean one. -/
def spikeRuns (times : List ℕ) (observeOnly : Bool) :
    Except PyError (RunResult ℚ Unit × RunResult ℚ Unit) := do
  let perturbed ← runEpisode timedEnv (spikeSetting times observeOnly) { maxSteps := 26 } 0
  let clean ← runEpisode timedEnv (spikeSetting times observeOnly)
    { perturb := false, maxSteps := 26 } 0
  .ok (perturbed.1, clean.1)

theorem positiveCalib_flat : PositiveCalib flatCalib where
  keys item member := by contradiction
  sigma b sd found := by
    obtain rfl : (1 : ℚ) = sd := Option.some.inj found
    exact one_pos

theorem recorded_of_spikeRuns {times : List ℕ} {perturbed clean : RunResult ℚ Unit}
    (ran : spikeRuns times false = .ok (perturbed, clean)) :
    RecordedJepa flatConfig timedEnv (spikeEncoder times) perturbed ∧
      RecordedJepa flatConfig timedEnv (spikeEncoder times) clean := by
  obtain ⟨⟨perturbed, sim, trigger⟩, ranPerturbed, rest⟩ := Fallible.bind_eq_ok.mp ran
  obtain ⟨⟨clean, sim', trigger'⟩, ranClean, returned⟩ := Fallible.bind_eq_ok.mp rest
  obtain ⟨rfl, rfl⟩ := Prod.mk.inj (Except.ok.inj returned)
  exact ⟨⟨_, _, _, _, _, rfl, rfl, rfl, ranPerturbed⟩, ⟨_, _, _, _, _, rfl, rfl, rfl, ranClean⟩⟩

/-- One jump, in the step of the perturbation. -/
theorem replay_matches_record_descent :
    ∃ perturbed clean recorded old online, spikeRuns [24] false = .ok (perturbed, clean) ∧
      stats [perturbed] [clean] = .ok recorded ∧
      counterfactual .rational flatCalib [clean] [perturbed] = .ok (old, online) ∧
      old.fp = recorded.fp ∧ old.le5 = recorded.le5 := by
  have runs : Fallible.Returns (spikeRuns [24] false) fun records =>
      replannedEarly records.1 = false ∧
        Fallible.Returns (stats [records.1] [records.2] : Except PyError (Stats ℚ))
          fun _ => True := by
    decide +kernel
  obtain ⟨⟨perturbed, clean⟩, ran, late, computes⟩ := runs.exists_eq_ok
  obtain ⟨recorded, computed, -⟩ := computes.exists_eq_ok
  obtain ⟨recordedPerturbed, recordedClean⟩ := recorded_of_spikeRuns ran
  have loaded : TriggerConfig.init flatArgs flatCalib = .ok flatConfig := rfl
  obtain ⟨old, online, replayed, fp, -, -, le5, -⟩ :=
    replay_matches_record .rational positiveCalib_flat loaded rfl rfl
      (List.forall_mem_singleton.mpr recordedClean)
      (List.forall_mem_singleton.mpr recordedPerturbed) computed
  refine ⟨perturbed, clean, recorded, old, online, ran, computed, replayed, fp, le5.mpr ?_⟩
  intro r member _
  obtain rfl := List.mem_singleton.mp (List.mem_of_mem_filter member)
  exact late

/-- With a jump in step `4` and one in the step of the perturbation the trigger fires on both; the
replay counts no timely detection and the statistics count one. In runs whose trigger is only
observed there is no replan, but the replay counts a false alarm. -/
theorem replay_differs_from_record :
    TriggerConfig.init flatArgs flatCalib = .ok flatConfig ∧ PositiveCalib flatCalib ∧
    (∃ perturbed clean recorded old online,
      RecordedJepa flatConfig timedEnv (spikeEncoder [4, 24]) perturbed ∧
      RecordedJepa flatConfig timedEnv (spikeEncoder [4, 24]) clean ∧
      stats [perturbed] [clean] = .ok recorded ∧
      counterfactual .rational flatCalib [clean] [perturbed] = .ok (old, online) ∧
      old.le5 = 0 ∧ recorded.le5 = 1) ∧
      ∃ perturbed clean : RunResult ℚ Unit, spikeRuns [24] true = .ok (perturbed, clean) ∧
        clean.nReplans = 0 ∧ firstTrig (clean.dbgLog.getD []) (oldPar flatCalib) = some 24 := by
  refine ⟨rfl, positiveCalib_flat, ?_, ?_⟩
  · have runs : Fallible.Returns (spikeRuns [4, 24] false) fun records =>
        Fallible.Returns (stats [records.1] [records.2] : Except PyError (Stats ℚ))
            (fun recorded => recorded.le5 = 1) ∧
          Fallible.Returns (counterfactual .rational flatCalib [records.2] [records.1])
            fun rows => rows.1.le5 = 0 := by
      decide +kernel
    obtain ⟨⟨perturbed, clean⟩, ran, computes, replays⟩ := runs.exists_eq_ok
    obtain ⟨recorded, computed, hit⟩ := computes.exists_eq_ok
    obtain ⟨⟨old, online⟩, replayed, missed⟩ := replays.exists_eq_ok
    obtain ⟨recordedPerturbed, recordedClean⟩ := recorded_of_spikeRuns ran
    exact ⟨perturbed, clean, recorded, old, online, recordedPerturbed, recordedClean, computed,
      replayed, missed, hit⟩
  · have runs : Fallible.Returns (spikeRuns [24] true) fun records =>
        records.2.nReplans = 0 ∧
          firstTrig (records.2.dbgLog.getD []) (oldPar flatCalib) = some 24 := by
      decide +kernel
    obtain ⟨⟨perturbed, clean⟩, ran, unplanned, crossed⟩ := runs.exists_eq_ok
    exact ⟨perturbed, clean, ran, unplanned, crossed⟩

end G1Jepa
