import G1Jepa.ClosedLoop
import G1Jepa.MakeCalib

/-!
# Calibrating from observed runs

The statistics and the thresholds of a trigger decide about its z values, not about the errors that
it logs. Runs that only observe their trigger therefore log the same errors under every calibration
of the same feature, and rebuilding a calibration from them a second time changes nothing.
-/

namespace G1Jepa

variable {K E R Row Z : Type} [Field K] [LinearOrder K] {D : ℕ}

/-! ## One trigger under two calibrations -/

/-- The attributes of a trigger that its error does not depend on. -/
structure Statistics (K : Type) where
  kappaHigh : K
  kappaLow : K
  consec : ℕ
  buckets : Dict ℤ (NanOr K × NanOr K)
  gmu : NanOr K
  gsd : NanOr K

/-- The trigger with other thresholds and statistics. -/
def TriggerConfig.recalibrated (cfg : TriggerConfig K) (new : Statistics K) : TriggerConfig K :=
  { cfg with
    kappaHigh := new.kappaHigh
    kappaLow := new.kappaLow
    consec := new.consec
    buckets := new.buckets
    gmu := new.gmu
    gsd := new.gsd }

/-- The new deviation of a bucket is not zero where the old one is not. -/
def TriggerConfig.StaysNonzero (cfg : TriggerConfig K) (new : Statistics K) : Prop :=
  ∀ b, (cfg.lookup b).2 ≠ some 0 → ((cfg.recalibrated new).lookup b).2 ≠ some 0

/-- What a row of `dbg_log` says about the error. -/
def DbgRow.observation (row : DbgRow K) : ℕ × ℤ × K :=
  (row.t, row.bucket, row.e)

namespace OnlineJepaTrigger

variable {cfg : TriggerConfig K} {new : Statistics K} {env : Env K E R Row}
  {encoder : VideoEncoder (List Row) Z K D}

/-- What `step_` does behind the encoding. -/
def judge {cfg : TriggerConfig K} (env : Env K E R Row) (st : TriggerState Row K D cfg) (t : ℕ)
    (policy : ScriptedPickPlace K) : Except PyError (Bool × TriggerState Row K D cfg) :=
  if st.hist.items.length < 2 * cfg.k + 1 then .ok (false, st)
  else do
    let e ← Fallible.orRaise .indexError (historyError env.np cfg.k cfg.metric st.hist.items)
    let z ← zScore e (cfg.lookup (onlineBucket policy))
    .ok (hysteresis (appendLogs st t policy e z) z)

/-- Two triggers that have seen the same images and computed the same errors. -/
structure SameErrors (st : TriggerState Row K D cfg)
    (st' : TriggerState Row K D (cfg.recalibrated new)) : Prop where
  buf : st'.buf = st.buf
  hist : st'.hist = st.hist
  stamps : st'.zLog.map Prod.fst = st.zLog.map Prod.fst
  errors : st'.dbgLog.map DbgRow.observation = st.dbgLog.map DbgRow.observation

omit [LinearOrder K] in
theorem sameErrors_reset :
    SameErrors (reset cfg : TriggerState Row K D cfg) (reset (cfg.recalibrated new)) :=
  ⟨rfl, rfl, rfl, rfl⟩

/-- What `SameErrors` says between the start of a call and its judgement. -/
theorem SameErrors.observe {st : TriggerState Row K D cfg}
    {st' : TriggerState Row K D (cfg.recalibrated new)} (same : SameErrors st st') (s : E) :
    SameErrors (observe env st s) (observe env st' s) :=
  ⟨congrArg (fun buf => BoundedDeque.append buf _) same.buf, same.hist, same.stamps, same.errors⟩

omit [LinearOrder K] in
theorem SameErrors.pushLatent {st : TriggerState Row K D cfg}
    {st' : TriggerState Row K D (cfg.recalibrated new)} (same : SameErrors st st')
    (pooled : cfg.feature.Idx D → K) : SameErrors (pushLatent st pooled) (pushLatent st' pooled) :=
  ⟨same.buf, congrArg (fun hist => BoundedDeque.append hist _) same.hist, same.stamps, same.errors⟩

omit [LinearOrder K] in
theorem SameErrors.appendLogs {st : TriggerState Row K D cfg}
    {st' : TriggerState Row K D (cfg.recalibrated new)} (same : SameErrors st st') (t : ℕ)
    (policy : ScriptedPickPlace K) (e : K) (z z' : NanOr K) :
    SameErrors (appendLogs st t policy e z) (appendLogs st' t policy e z') := by
  refine ⟨same.buf, same.hist, ?_, ?_⟩
  · rw [OnlineJepaTrigger.appendLogs, OnlineJepaTrigger.appendLogs, List.map_append,
      List.map_append, same.stamps]
    rfl
  · rw [OnlineJepaTrigger.appendLogs, OnlineJepaTrigger.appendLogs, List.map_append,
      List.map_append, same.errors]
    rfl

theorem SameErrors.hysteresis {st : TriggerState Row K D cfg}
    {st' : TriggerState Row K D (cfg.recalibrated new)} (same : SameErrors st st')
    (z z' : NanOr K) :
    SameErrors (hysteresis st z).2 (hysteresis st' z').2 := by
  refine ⟨?_, ?_, ?_, ?_⟩
  · rw [hysteresis_buf, hysteresis_buf, same.buf]
  · rw [hysteresis_hist, hysteresis_hist, same.hist]
  · rw [hysteresis_zLog, hysteresis_zLog, same.stamps]
  · rw [hysteresis_dbgLog, hysteresis_dbgLog, same.errors]

/-- The part of a call behind the encoding. -/
theorem exists_judged_recalibrated {st after : TriggerState Row K D cfg}
    {st' : TriggerState Row K D (cfg.recalibrated new)} (same : SameErrors st st')
    (nonzero : cfg.StaysNonzero new)
    {t : ℕ} {policy : ScriptedPickPlace K} {fired : Bool}
    (returned : judge env st t policy = .ok (fired, after)) :
    ∃ fired' after', judge env st' t policy = .ok (fired', after') ∧ SameErrors after after' := by
  rw [judge] at returned ⊢
  by_cases short : st.hist.items.length < 2 * cfg.k + 1
  · have short' : st'.hist.items.length < 2 * (cfg.recalibrated new).k + 1 := by
      rw [same.hist]
      exact short
    rw [if_pos short] at returned
    rw [if_pos short']
    obtain ⟨rfl, rfl⟩ := Prod.mk.inj (Except.ok.inj returned)
    exact ⟨_, _, rfl, same⟩
  · have full : ¬st'.hist.items.length < 2 * (cfg.recalibrated new).k + 1 := by
      rw [same.hist]
      exact short
    rw [if_neg short] at returned
    rw [if_neg full]
    obtain ⟨e, computed, rest⟩ := Fallible.bind_eq_ok.mp returned
    obtain ⟨z, judged, collected⟩ := Fallible.bind_eq_ok.mp rest
    obtain rfl := congrArg Prod.snd (Except.ok.inj collected)
    have computed' : Fallible.orRaise PyError.indexError (historyError env.np
        (cfg.recalibrated new).k (cfg.recalibrated new).metric st'.hist.items) = .ok e := by
      rw [same.hist]
      exact computed
    obtain ⟨z', judged'⟩ : ∃ z', zScore e ((cfg.recalibrated new).lookup
        (onlineBucket policy)) = .ok z' := by
      rw [zScore, if_neg (nonzero _ _)]
      · exact ⟨_, rfl⟩
      · intro zero
        rw [zScore, if_pos zero] at judged
        contradiction
    rw [computed', Fallible.ok_bind, judged', Fallible.ok_bind]
    exact ⟨_, _, rfl, (same.appendLogs t policy e z z').hysteresis z z'⟩

/-- A call under the new calibration computes the error of the call under the old one; it returns
when the new deviations are not zero where the old ones are not. -/
theorem exists_step_recalibrated {st after : TriggerState Row K D cfg}
    {st' : TriggerState Row K D (cfg.recalibrated new)} (same : SameErrors st st')
    (nonzero : cfg.StaysNonzero new)
    {t : ℕ} {s : E} {policy : ScriptedPickPlace K} {fired : Bool}
    (called : step env encoder st t s policy = .ok (fired, after)) :
    ∃ fired' after', step env encoder st' t s policy = .ok (fired', after') ∧
      SameErrors after after' := by
  have observed : SameErrors (observe env st s) (observe env st' s) := same.observe s
  rw [step] at called ⊢
  dsimp only at called ⊢
  by_cases stopped : cfg.step = 0
  · rw [if_pos stopped] at called
    contradiction
  · have running : ¬(cfg.recalibrated new).step = 0 := stopped
    rw [if_neg stopped] at called
    rw [if_neg running]
    by_cases idle : t % cfg.step ≠ 0 ∨ t < cfg.warmup
    · have idle' : t % (cfg.recalibrated new).step ≠ 0 ∨ t < (cfg.recalibrated new).warmup := idle
      rw [if_pos idle] at called
      rw [if_pos idle']
      obtain ⟨rfl, rfl⟩ := Prod.mk.inj (Except.ok.inj called)
      exact ⟨_, _, rfl, observed⟩
    · have encodes : ¬(t % (cfg.recalibrated new).step ≠ 0 ∨
        t < (cfg.recalibrated new).warmup) := idle
      rw [if_neg idle] at called
      rw [if_neg encodes]
      obtain ⟨frames, stacked, rest⟩ := Fallible.bind_eq_ok.mp called
      obtain ⟨clip, built, rest⟩ := Fallible.bind_eq_ok.mp rest
      have built' : buildClip frames (frames.length - 1) (cfg.recalibrated new).framesN
        (cfg.recalibrated new).stride = .ok clip := built
      rw [observed.buf, stacked, Fallible.ok_bind, built', Fallible.ok_bind]
      have pushed : SameErrors
          (pushLatent (observe env st s) ((encoder.pooled clip).feature cfg.feature))
          (pushLatent (observe env st' s)
            ((encoder.pooled clip).feature (cfg.recalibrated new).feature)) :=
        observed.pushLatent _
      exact exists_judged_recalibrated pushed nonzero rest

end OnlineJepaTrigger

/-! ## Observed runs -/

section Runs

open OnlineJepaTrigger

variable {cfg : TriggerConfig K} {new : Statistics K} {env : Env K E R Row}
  {encoder : VideoEncoder (List Row) Z K D} {call : EpisodeCall K}

/-- A call that only observes its trigger. -/
structure EpisodeCall.Observes (call : EpisodeCall K) : Prop where
  condition : call.condition = .jepa
  observeOnly : call.observeOnly = true
  passesTrigger : call.passesTrigger = true

omit [LinearOrder K] in
/-- An observed trigger is called, and its request ignored. -/
theorem EpisodeCall.Observes.decideReplan_eq_ok_iff {σ : Type} (observes : call.Observes)
    {trigger : Trigger K E σ} {start state : σ} {t : ℕ} {fired doReplan : Bool} {sim : E}
    {policy : ScriptedPickPlace K} {after : Option σ} :
    decideReplan (call.setting trigger start) (some state) t fired sim policy =
        .ok (doReplan, after) ↔
      doReplan = false ∧ ∃ requested next,
        trigger.call state t sim policy = .ok (requested, next) ∧ after = some next := by
  simp only [decideReplan, EpisodeCall.setting, observes.condition, observes.observeOnly, if_true]
  constructor
  · intro decided
    obtain ⟨⟨requested, next⟩, called, returned⟩ := Fallible.bind_eq_ok.mp decided
    obtain ⟨rfl, rfl⟩ := Prod.mk.inj (Except.ok.inj returned)
    exact ⟨rfl, requested, next, called, rfl⟩
  · rintro ⟨rfl, requested, next, called, rfl⟩
    exact Fallible.bind_eq_ok.mpr ⟨_, called, rfl⟩

/-- Two runs in the same episode state whose triggers have computed the same errors. -/
def SameObservation (state : RunState K E R Row (TriggerState Row K D cfg))
    (state' : RunState K E R Row (TriggerState Row K D (cfg.recalibrated new))) : Prop :=
  state'.episode = state.episode ∧ ∃ st st', state.trigger = some st ∧
    state'.trigger = some st' ∧ SameErrors st st'

/-- Every observed run is followed by the run under the new calibration. -/
theorem exists_recalibrated_runLoop (determined : env.ResetDetermined) (observes : call.Observes)
    (nonzero : cfg.StaysNonzero new)
    {st : TriggerState Row K D cfg} (st' : TriggerState Row K D (cfg.recalibrated new)) {s : E}
    (s' : E) {t : ℕ} {state : RunState K E R Row (TriggerState Row K D cfg)} {exit : Bool}
    (reached : runLoop env (call.setting (jepaTrigger env encoder cfg) st) call.args s t =
      .ok (state, exit)) :
    ∃ state', runLoop env (call.setting (jepaTrigger env encoder (cfg.recalibrated new)) st')
      call.args s' t = .ok (state', exit) ∧ SameObservation state state' := by
  induction t generalizing state exit with
  | zero =>
      obtain ⟨rfl, rfl⟩ := Prod.mk.inj (Except.ok.inj reached)
      refine ⟨_, rfl, episodeStart_eq determined s' s, reset cfg, reset (cfg.recalibrated new),
        ?_, ?_, sameErrors_reset⟩
      · simp only [runStart, EpisodeCall.setting, observes.passesTrigger]
        rfl
      · simp only [runStart, EpisodeCall.setting, observes.passesTrigger]
        rfl
  | succ t induction =>
      rcases ForRange.loop_succ_eq_ok reached with ⟨left, rfl⟩ | ⟨before, running, ran⟩
      · obtain ⟨state', follows, same⟩ := induction left
        exact ⟨state', ForRange.loop_succ_of_left follows, same⟩
      · obtain ⟨before', follows, same, current, current', found, found', errors⟩ :=
          induction running
        obtain ⟨doReplan, decided, advanced⟩ := runStep_eq_ok ran
        rw [decisionStage, found] at decided
        obtain ⟨rfl, requested, next, called, after⟩ := observes.decideReplan_eq_ok_iff.mp decided
        obtain ⟨requested', next', called', errors'⟩ :=
          exists_step_recalibrated errors nonzero called
        have decided' : decisionStage env
            (call.setting (jepaTrigger env encoder (cfg.recalibrated new)) st') t before' =
              .ok (false, some next') := by
          rw [decisionStage, found', same]
          exact observes.decideReplan_eq_ok_iff.mpr ⟨rfl, requested', next', called', rfl⟩
        rw [← same] at advanced
        refine ⟨⟨state.episode, some next'⟩, ?_, rfl, next, next', after, rfl, errors'⟩
        rw [runLoop, ForRange.loop_succ_of_running follows]
        exact runStep_of_stages decided' advanced

/-- Two records that differ only in what the calibration says about the errors: in the z values of
both logs and in the statistics of the longer one. -/
structure SameRecord (r r' : RunResult K Row) : Prop where
  rest : r' = { r with zLog := r'.zLog, dbgLog := r'.dbgLog }
  stamps : r'.zLog.map (List.map Prod.fst) = r.zLog.map (List.map Prod.fst)
  errors : r'.dbgLog.map (List.map DbgRow.observation) = r.dbgLog.map (List.map DbgRow.observation)

omit [Field K] [LinearOrder K] in
theorem SameRecord.saved {r r' : RunResult K Row} (same : SameRecord r r') :
    SameRecord r.saved r'.saved :=
  ⟨congrArg RunResult.saved same.rest, same.stamps, same.errors⟩

theorem exists_recalibrated_freshRun (determined : env.ResetDetermined) (observes : call.Observes)
    (nonzero : cfg.StaysNonzero new)
    {fresh : Shared E (TriggerState Row K D cfg)}
    (fresh' : Shared E (TriggerState Row K D (cfg.recalibrated new))) {r : RunResult K Row}
    (ran : freshRun env (jepaTrigger env encoder cfg) fresh call = .ok r) :
    ∃ r', freshRun env (jepaTrigger env encoder (cfg.recalibrated new)) fresh' call = .ok r' ∧
      SameRecord r r' := by
  obtain ⟨⟨_, sim, trigger⟩, returned, rfl⟩ := Fallible.map_eq_ok.mp ran
  obtain ⟨state, exit, reached, rfl, -⟩ := exists_runLoop returned
  obtain ⟨state', follows, same, st, st', found, found', errors⟩ :=
    exists_recalibrated_runLoop determined observes nonzero fresh'.trigger fresh'.sim reached
  refine ⟨runResult (call.setting (jepaTrigger env encoder (cfg.recalibrated new)) fresh'.trigger)
    call.args state', ?_, ?_⟩
  · rw [freshRun, runEpisode, follows]
    rfl
  · simp only [runResult, same, found, found']
    exact ⟨rfl, congrArg some errors.stamps, congrArg some errors.errors⟩

omit [LinearOrder K] in
/-- The calls of the observed condition. -/
theorem observes_call {args : EvaluationArgs K} (jepa : args.jepa = true)
    (observes : args.observeOnly = true) (perturb : Bool) (seed : ℕ) :
    (args.call "jepa" perturb seed).Observes :=
  ⟨show Condition.ofName "jepa" = .jepa by decide, observes, jepa⟩

/-- The calls of the observed condition return related records under the two calibrations. -/
theorem exists_recalibrated_runs (determined : env.ResetDetermined)
    (nonzero : cfg.StaysNonzero new)
    {calls : List (EpisodeCall K)} (observes : ∀ call ∈ calls, call.Observes)
    {fresh : Shared E (TriggerState Row K D cfg)}
    (fresh' : Shared E (TriggerState Row K D (cfg.recalibrated new))) {rs : List (RunResult K Row)}
    (ran : calls.mapM (freshRun env (jepaTrigger env encoder cfg) fresh) = .ok rs) :
    ∃ rs', calls.mapM (freshRun env (jepaTrigger env encoder (cfg.recalibrated new)) fresh') =
      .ok rs' ∧ List.Forall₂ SameRecord rs rs' := by
  simp only [Fallible.mapM_eq_ok_iff] at ran ⊢
  induction ran with
  | nil => exact ⟨[], .nil, .nil⟩
  | @cons call r calls rs returned rest induction =>
      rw [List.forall_mem_cons] at observes
      obtain ⟨r', returned', same⟩ :=
        exists_recalibrated_freshRun determined observes.1 nonzero fresh' returned
      obtain ⟨rs', rest', related⟩ := induction observes.2
      exact ⟨r' :: rs', .cons returned' rest', .cons same related⟩

omit [Field K] [LinearOrder K] in
theorem forall₂_saved {rs rs' : List (RunResult K Row)} (same : List.Forall₂ SameRecord rs rs') :
    List.Forall₂ SameRecord (rs.map RunResult.saved) (rs'.map RunResult.saved) := by
  rw [List.forall₂_map_left_iff, List.forall₂_map_right_iff]
  exact same.imp fun _ _ => SameRecord.saved

end Runs

/-! ## Rebuilding twice -/

/-- The part of a saved record that `make_calib.py` reads. -/
def RunResult.observed (r : RunResult K Row) : ObservedRun K :=
  ⟨r.nReplans, r.dbgLog⟩

omit [Field K] [LinearOrder K] in
theorem observedSamples_eq {rs rs' : List (RunResult K Row)}
    (same : List.Forall₂ SameRecord rs rs') :
    observedSamples (rs'.map RunResult.observed) = observedSamples (rs.map RunResult.observed) := by
  have logged (r : RunResult K Row) :
      (r.dbgLog.getD []).map (fun row => (row.bucket, row.e)) =
        ((r.dbgLog.map (List.map DbgRow.observation)).getD []).map Prod.snd := by
    cases r.dbgLog with
    | none => rfl
    | some rows => simp [DbgRow.observation]
  induction same with
  | nil => rfl
  | @cons r r' rs rs' first rest induction =>
      simp only [observedSamples, List.map_cons, List.flatMap_cons] at induction ⊢
      rw [induction]
      have count : r'.nReplans = r.nReplans := by rw [first.rest]
      simp only [RunResult.observed, count, logged, first.errors]

section Rebuilt

variable [IsStrictOrderedRing K] {np : Numpy K} {old : CalibJson K} {samples : List (ℤ × K)}

theorem regularisedStd_ne_zero (np : Numpy K) (values : List K) :
    regularisedStd np values ≠ some 0 := fun zero =>
  (regularisedStd_pos zero).ne' rfl

/-- A trigger that has loaded a rebuilt calibration can divide by its deviations wherever it could
under the old one. -/
theorem exists_init_rebuiltCalib {args args' : TriggerArgs K} {cfg : TriggerConfig K}
    (keys : ∀ item ∈ Dict.items old.buckets, ∃ b, item.1 = pyStr b)
    (loaded : TriggerConfig.init args old = .ok cfg) (sameStep : args'.step = args.step) :
    ∃ new, TriggerConfig.init args' (rebuiltCalib np old samples) = .ok (cfg.recalibrated new) ∧
      cfg.StaysNonzero new := by
  have lookup := lookup_of_init keys loaded
  obtain ⟨buckets, -, rest⟩ := Fallible.bind_eq_ok.mp loaded
  have total := loadedLookup_rebuiltCalib np old samples
  obtain ⟨buckets', read, -⟩ := Fallible.bind_eq_ok.mp (total 0)
  split at rest
  · contradiction
  case isFalse nonneg =>
    obtain rfl := Except.ok.inj rest
    refine ⟨⟨args'.kappaHigh, args'.kappaLow, args'.consec, buckets',
      Numpy.mean (samples.map Prod.snd), regularisedStd np (samples.map Prod.snd)⟩, ?_, ?_⟩
    · obtain ⟨kappaHigh, kappaLow, consec, step⟩ := args'
      obtain rfl : step = args.step := sameStep
      rw [TriggerConfig.init, read, Fallible.ok_bind]
      exact if_neg nonneg
    · intro b nonzero
      have found := total b
      rw [loadedLookup, read, Fallible.ok_bind, Except.ok.injEq] at found
      rw [TriggerConfig.lookup]
      refine fun zero => ?_
      have zero : ((buckets'.lookup b).getD ((rebuiltCalib np old samples).globalMu,
        (rebuiltCalib np old samples).globalSd)).2 = some 0 := zero
      rw [found] at zero
      split at zero
      · exact regularisedStd_ne_zero np _ zero
      · rw [rebuiltPair] at zero
        split at zero
        · exact regularisedStd_ne_zero np _ zero
        · rw [lookup] at nonzero
          cases stored : old.buckets.lookup (pyStr b) with
          | none =>
              rw [stored] at zero
              exact regularisedStd_ne_zero np _ zero
          | some pair =>
              rw [stored] at zero nonzero
              exact nonzero zero

/-- Rebuilding a rebuilt calibration from the same samples changes nothing. -/
theorem makeCalib_rebuilt {new : CalibJson K} {runs runs' : List (ObservedRun K)}
    (rebuilt : makeCalib np old runs = .ok new)
    (same : observedSamples runs' = observedSamples runs) : makeCalib np new runs' = .ok new := by
  obtain ⟨nonempty, -, rfl⟩ := makeCalib_eq_ok_iff.mp rebuilt
  have stored : ∀ item ∈ Dict.items (Dict.group (observedSamples runs)),
      (rebuiltCalib np old (observedSamples runs)).buckets.lookup (pyStr item.1) =
        keptEntry np old item.1 item.2 := by
    rintro ⟨b, values⟩ member
    obtain ⟨observed, rfl⟩ := Dict.mem_items_group.mp member
    rw [rebuiltCalib_lookup, if_neg observed]
  refine makeCalib_eq_ok_iff.mpr ⟨same ▸ nonempty, ?_, ?_⟩
  · rw [same]
    intro item member many
    rw [stored item member, keptEntry, if_neg (by omega)]
    exact regularisedStd_ne_zero np _
  · have again : rebuiltCalib np (rebuiltCalib np old (observedSamples runs))
          (observedSamples runs) =
        { rebuiltCalib np old (observedSamples runs) with
          buckets := Dict.ofItems ((sortedItems (Dict.group (observedSamples runs))).filterMap
            fun item => (keptEntry np (rebuiltCalib np old (observedSamples runs)) item.1
              item.2).map fun pair => (pyStr item.1, pair)) } := rfl
    have entries : ∀ item ∈ sortedItems (Dict.group (observedSamples runs)),
        (keptEntry np (rebuiltCalib np old (observedSamples runs)) item.1 item.2).map
            (fun pair => (pyStr item.1, pair)) =
          (keptEntry np old item.1 item.2).map fun pair => (pyStr item.1, pair) := by
      intro item listed
      have member := (sortedItems_perm _).mem_iff.mp listed
      rw [keptEntry, stored item member, keptEntry]
      split <;> rfl
    rw [same, again, List.filterMap_congr entries]
    rfl

/-- Observing under one calibration, rebuilding it, observing under the rebuilt calibration with any
thresholds and rebuilding again ends where the first rebuilding ended. -/
theorem recalibration_fixed_point {env : Env K E R Row} (determined : env.ResetDetermined)
    {encoder : VideoEncoder (List Row) Z K D} {cal cal' : CalibJson K} {trigArgs : TriggerArgs K}
    {cfg : TriggerConfig K} (keys : ∀ item ∈ Dict.items cal.buckets, ∃ b, item.1 = pyStr b)
    (loaded : TriggerConfig.init trigArgs cal = .ok cfg) {args : EvaluationArgs K}
    (jepa : args.jepa = true) (observes : args.observeOnly = true)
    {shared : Shared E (TriggerState Row K D cfg)} {rows : List (TableRow K)}
    {saved : Dict String (SavedCondition K Row)}
    (ran : closedLoop env (jepaTrigger env encoder cfg) args shared = .ok (rows, saved))
    {entry : SavedCondition K Row} (found : saved.lookup "jepa" = some entry)
    (rebuilt : makeCalib np cal (entry.clean.map RunResult.observed) = .ok cal')
    {trigArgs' : TriggerArgs K} (sameStep : trigArgs'.step = trigArgs.step) :
    ∃ cfg', TriggerConfig.init trigArgs' cal' = .ok cfg' ∧
      ∀ shared', ∃ rows' saved' entry',
        closedLoop env (jepaTrigger env encoder cfg') { args with conds := some "jepa" } shared' =
            .ok (rows', saved') ∧
          saved'.lookup "jepa" = some entry' ∧
          List.Forall₂ SameRecord entry.perturbed entry'.perturbed ∧
          List.Forall₂ SameRecord entry.clean entry'.clean ∧
          makeCalib np cal (entry'.clean.map RunResult.observed) = .ok cal' ∧
          makeCalib np cal' (entry'.clean.map RunResult.observed) = .ok cal' := by
  obtain ⟨-, -, isRebuilt⟩ := makeCalib_eq_ok_iff.mp rebuilt
  obtain ⟨new, loaded', nonzero⟩ := @exists_init_rebuiltCalib _ _ _ _ np cal
    (observedSamples (entry.clean.map RunResult.observed)) _ _ _ keys loaded sameStep
  refine ⟨cfg.recalibrated new, isRebuilt ▸ loaded', fun shared' => ?_⟩
  obtain ⟨runs, traversed, -, rfl⟩ := (closedLoop_eq_ok_iff determined
    (jepaTrigger_forgets encoder cfg) shared shared).mp ran
  obtain ⟨-, ⟨rp, rc⟩, own, rfl⟩ := (lookup_saved_iff traversed).mp found
  obtain ⟨_, perturbed, rest⟩ := Fallible.bind_eq_ok.mp own
  obtain ⟨_, clean, collected⟩ := Fallible.bind_eq_ok.mp rest
  obtain ⟨rfl, rfl⟩ := Prod.mk.inj (Except.ok.inj collected)
  have each (perturb : Bool) (seed : ℕ → ℕ) :
      ∀ call ∈ (List.range args.n).map fun s => args.call "jepa" perturb (seed s),
        call.Observes := by
    intro call listed
    obtain ⟨s, -, rfl⟩ := List.mem_map.mp listed
    exact observes_call jepa observes perturb (seed s)
  obtain ⟨rp', perturbed', sameP⟩ := exists_recalibrated_runs determined nonzero
    (each true fun s => args.seed0 + s) shared' perturbed
  obtain ⟨rc', clean', sameC⟩ := exists_recalibrated_runs determined nonzero
    (each false fun s => args.seed0 + 10000 + s) shared' clean
  have names : EvaluationArgs.condNames { args with conds := some "jepa" } = ["jepa"] := by
    rw [EvaluationArgs.condNames]
    dsimp only
    rw [if_neg (by decide)]
    decide +kernel
  have own' : freshRuns env (jepaTrigger env encoder (cfg.recalibrated new)) shared'
      { args with conds := some "jepa" } "jepa" = .ok (rp', rc') :=
    Fallible.bind_eq_ok.mpr ⟨_, perturbed', Fallible.bind_eq_ok.mpr ⟨_, clean', rfl⟩⟩
  have traversed' : (EvaluationArgs.condNames { args with conds := some "jepa" }).mapM
      (freshRuns env (jepaTrigger env encoder (cfg.recalibrated new)) shared'
        { args with conds := some "jepa" }) = .ok [(rp', rc')] := by
    rw [names, Fallible.mapM_eq_ok_iff]
    exact .cons own' .nil
  have again := observedSamples_eq (forall₂_saved sameC)
  refine ⟨_, _, savedCondition (rp', rc'), (closedLoop_eq_ok_iff determined
    (jepaTrigger_forgets encoder _) shared' shared').mpr ⟨_, traversed', rfl, rfl⟩,
    (lookup_saved_iff traversed').mpr ⟨?_, _, own', rfl⟩, forall₂_saved sameP, forall₂_saved sameC,
    ?_, makeCalib_rebuilt rebuilt again⟩
  · rw [names]
    exact List.mem_singleton_self _
  · obtain ⟨nonempty, comparable, -⟩ := makeCalib_eq_ok_iff.mp rebuilt
    rw [makeCalib_eq_ok_iff]
    exact again ▸ ⟨nonempty, comparable, isRebuilt⟩

end Rebuilt

/-! ## A recalibration -/

theorem recalibration_fixed_point_flat : ∃ (cal' : CalibJson ℚ) (cfg' : TriggerConfig ℚ),
    TriggerConfig.init ({ kappaHigh := 3 } : TriggerArgs ℚ) cal' = .ok cfg' ∧ ∃ rows saved entry,
      closedLoop liftingEnv (jepaTrigger liftingEnv (spikeEncoder [5]) cfg')
          { n := 1, jepa := true, observeOnly := true, conds := some "jepa" }
          ⟨0, OnlineJepaTrigger.reset cfg'⟩ = .ok (rows, saved) ∧
        saved.lookup "jepa" = some entry ∧
        makeCalib .rational cal' (entry.clean.map RunResult.observed) = .ok cal' := by
  have returns : ((closedLoop liftingEnv (jepaTrigger liftingEnv (spikeEncoder [5]) flatConfig)
      { n := 1, jepa := true, observeOnly := true } ⟨0, OnlineJepaTrigger.reset flatConfig⟩).bind
        fun outcome => (Fallible.orRaise .indexError (outcome.2.lookup "jepa")).bind fun entry =>
          makeCalib .rational flatCalib (entry.clean.map RunResult.observed)).isOk = true := by
    decide +kernel
  obtain ⟨cal', pipeline⟩ := Fallible.exists_eq_ok returns
  obtain ⟨⟨rows, saved⟩, ran, rest⟩ := Fallible.bind_eq_ok.mp pipeline
  obtain ⟨entry, found, rebuilt⟩ := Fallible.bind_eq_ok.mp rest
  have determined : liftingEnv.ResetDetermined := fun _ _ _ => rfl
  have loaded : TriggerConfig.init flatArgs flatCalib = .ok flatConfig := rfl
  obtain ⟨cfg', loaded', again⟩ := recalibration_fixed_point determined
    (fun item member => absurd member (by simp [flatCalib])) loaded rfl rfl ran
    (Fallible.orRaise_eq_ok.mp found) rebuilt (show ({ kappaHigh := 3 } : TriggerArgs ℚ).step =
      flatArgs.step from rfl)
  obtain ⟨rows', saved', entry', ran', found', -, -, -, fixed⟩ :=
    again ⟨0, OnlineJepaTrigger.reset cfg'⟩
  exact ⟨cal', cfg', loaded', rows', saved', entry', ran', found', fixed⟩

end G1Jepa
