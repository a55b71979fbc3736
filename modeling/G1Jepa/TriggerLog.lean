import G1Jepa.Counterfactual

/-!
# What the log of the trigger says about a run

`run_episode` records the z values of its trigger next to the steps at which it replanned. The
replans of a run in the condition `jepa` are exactly the fires that the recorded values prescribe,
so an offline detector that reads the recorded values bounds the latency of the run.
-/

namespace G1Jepa

variable {K E R Row Z : Type} [Field K] [LinearOrder K] {D : ℕ} {env : Env K E R Row}
  {encoder : VideoEncoder (List Row) Z K D} {cfg : TriggerConfig K}

open OnlineJepaTrigger

/-- The trigger fires on entry `j` of a log that starts with a reset. -/
def logFires (cfg : TriggerConfig K) (zLog : List (ℕ × NanOr K)) (j : ℕ) : Bool :=
  Debounce.firesAt cfg.consec (crosses (zLog.map Prod.snd) cfg.kappaHigh)
    (dips (zLog.map Prod.snd) cfg.kappaLow) j

/-- The stamps of the entries on which the trigger fires. -/
def firedStamps (cfg : TriggerConfig K) (zLog : List (ℕ × NanOr K)) : List ℕ :=
  (List.range zLog.length).filterMap fun j =>
    if logFires cfg zLog j then zLog[j]?.map Prod.fst else none

/-- What the detector does on an entry depends on the entries up to it. -/
theorem logFires_append {zLog : List (ℕ × NanOr K)} {j : ℕ} (inside : j < zLog.length)
    (rest : List (ℕ × NanOr K)) : logFires cfg (zLog ++ rest) j = logFires cfg zLog j := by
  have fires (log : List (ℕ × NanOr K)) :
      logFires cfg log j = firesOn (reset cfg : TriggerState Unit K 0 cfg) (log.map Prod.snd) j :=
    (firesOn_eq_firesAt _ j).symm
  have within : j < (zLog.map Prod.snd).length := by rwa [List.length_map]
  rw [fires, fires, firesOn, firesOn, List.map_append, List.getElem?_append_left within,
    List.take_append_of_le_length within.le]

theorem firedStamps_append_singleton (zLog : List (ℕ × NanOr K)) (t : ℕ) (z : NanOr K) :
    firedStamps cfg (zLog ++ [(t, z)]) =
      firedStamps cfg zLog ++ if logFires cfg (zLog ++ [(t, z)]) zLog.length then [t] else [] := by
  have earlier : (List.range zLog.length).filterMap (fun j =>
      if logFires cfg (zLog ++ [(t, z)]) j then (zLog ++ [(t, z)])[j]?.map Prod.fst else none) =
        firedStamps cfg zLog := by
    apply List.filterMap_congr
    intro j member
    have inside := List.mem_range.mp member
    rw [logFires_append inside, List.getElem?_append_left inside]
  rw [firedStamps, List.length_append, List.length_singleton, List.range_succ,
    List.filterMap_append, earlier]
  split <;> simp [*]

theorem mem_firedStamps {zLog : List (ℕ × NanOr K)} {t : ℕ} :
    t ∈ firedStamps cfg zLog ↔
      ∃ j z, zLog[j]? = some (t, z) ∧ logFires cfg zLog j = true := by
  simp only [firedStamps, List.mem_filterMap, List.mem_range, Option.ite_none_right_eq_some,
    Option.map_eq_some_iff]
  constructor
  · rintro ⟨j, -, fires, ⟨stamp, z⟩, found, rfl⟩
    exact ⟨j, z, found, fires⟩
  · rintro ⟨j, z, found, fires⟩
    exact ⟨j, (List.getElem?_eq_some_iff.mp found).1, fires, (t, z), found, rfl⟩

theorem mem_firedStamps_iff {zLog : List (ℕ × NanOr K)} {t : ℕ} :
    t ∈ firedStamps cfg zLog ↔
      ∃ j, (zLog.map Prod.fst)[j]? = some t ∧ logFires cfg zLog j = true := by
  rw [mem_firedStamps]
  refine exists_congr fun j => ?_
  simp only [List.getElem?_map, Option.map_eq_some_iff, Prod.exists]
  constructor
  · rintro ⟨z, found, high⟩
    exact ⟨⟨t, z, found, rfl⟩, high⟩
  · rintro ⟨⟨_, z, found, rfl⟩, high⟩
    exact ⟨z, found, high⟩

/-- The replans so far are the fires of the trigger on its log, whose stamps are the encoded steps
that have passed, in order. -/
structure Explained (env : Env K E R Row) (encoder : VideoEncoder (List Row) Z K D) (t : ℕ)
    (trigger : Option (TriggerState Row K D cfg)) (steps : List ℕ) : Prop where
  absent : trigger = none → steps = []
  reached : ∀ st, trigger = some st → Reached env encoder st
  fired : ∀ st, trigger = some st → steps = firedStamps cfg st.zLog
  ordered : ∀ st, trigger = some st → (st.zLog.map Prod.fst).Pairwise (· < ·)
  stamps : ∀ st, trigger = some st → ∀ u ∈ st.zLog.map Prod.fst, u < t ∧ EncodesAt cfg u

/-- A stamp is logged in an encoded step. -/
theorem encodesAt_of_step {st after : TriggerState Row K D cfg} {t : ℕ} {s : E}
    {policy : ScriptedPickPlace K} {fired : Bool} {z : NanOr K}
    (called : step env encoder st t s policy = .ok (fired, after))
    (logged : after.zLog = st.zLog ++ [(t, z)]) : EncodesAt cfg t := by
  cases stepped_of_step called with
  | idle => simp [observe] at logged
  | filling encodes => exact encodes
  | judged encodes => exact encodes

/-- One decision of the trigger. -/
theorem Explained.next {setting : ReplanSetting K E (TriggerState Row K D cfg)}
    {trigger after : Option (TriggerState Row K D cfg)} {steps : List ℕ} {t : ℕ}
    {fired doReplan : Bool} {sim : E} {policy : ScriptedPickPlace K}
    (explained : Explained env encoder t trigger steps) (jepa : setting.condition = .jepa)
    (acts : setting.observeOnly = false) (calls : setting.trigger = jepaTrigger env encoder cfg)
    (decided : decideReplan setting trigger t fired sim policy = .ok (doReplan, after)) :
    Explained env encoder (t + 1) after (steps ++ if doReplan then [t] else []) := by
  simp only [decideReplan, jepa, acts, calls] at decided
  cases trigger with
  | none =>
      obtain ⟨rfl, rfl⟩ := Prod.mk.inj (Except.ok.inj decided)
      obtain rfl := explained.absent rfl
      exact ⟨fun _ => rfl, fun _ some => by contradiction, fun _ some => by contradiction,
        fun _ some => by contradiction, fun _ some => by contradiction⟩
  | some st =>
      obtain ⟨⟨requested, st'⟩, called, returned⟩ := Fallible.bind_eq_ok.mp decided
      obtain ⟨rfl, rfl⟩ := Prod.mk.inj (Except.ok.inj returned)
      have reached := explained.reached st rfl
      have steps_eq := explained.fired st rfl
      have ordered := explained.ordered st rfl
      have stamps := explained.stamps st rfl
      refine ⟨fun none => by contradiction, ?_, ?_, ?_, ?_⟩
      · rintro _ ⟨⟩
        exact reached.call called
      all_goals rintro _ ⟨⟩
      all_goals rcases step_detector called with ⟨same, rfl, -⟩ | ⟨z, logged, stepped⟩
      · rw [same, steps_eq]
        exact List.append_nil _
      · have fires := reached.fired_eq logged stepped
        rw [firesOn_eq_firesAt] at fires
        rw [logged] at fires ⊢
        rw [firedStamps_append_singleton, ← steps_eq, logFires, ← fires]
        rfl
      · rwa [same]
      · rw [logged, List.map_append, List.pairwise_append]
        refine ⟨ordered, List.pairwise_singleton _ _, fun u member v last => ?_⟩
        obtain rfl := List.mem_singleton.mp last
        exact (stamps u member).1
      · intro u member
        rw [same] at member
        exact ⟨Nat.lt_succ_of_lt (stamps u member).1, (stamps u member).2⟩
      · intro u member
        have encodes := encodesAt_of_step called logged
        rw [logged, List.map_append] at member
        rcases List.mem_append.mp member with old | last
        · exact ⟨Nat.lt_succ_of_lt (stamps u old).1, (stamps u old).2⟩
        · obtain rfl := List.mem_singleton.mp last
          exact ⟨Nat.lt_succ_self _, encodes⟩

/-- The time from the perturbation to the first replan that does not precede it. -/
def latencyOf (fireStep : Option ℕ) (steps : List ℕ) : Option ℤ := do
  let triggerStep ← firstReplanSince fireStep steps
  let fireStep ← fireStep
  some ((triggerStep : ℤ) - fireStep)

omit [LinearOrder K] in
theorem Recorded.triggerLatency_eq {σ : Type} {setting : ReplanSetting K E σ}
    {args : EpisodeArgs K} {condition : Condition} {t : ℕ} {state : RunState K E R Row σ}
    (recorded : Recorded condition t state.episode) :
    (runResult setting args state).triggerLatency =
      latencyOf state.episode.sched.fireStep state.episode.policy.replanSteps := by
  have trigger := recorded.triggerStep
  simp only [runResult, trigger, latencyOf]

/-- The state of the counters and of the trigger after `t` steps. -/
theorem explained_of_recording {r : RunResult K Row} (recording : RecordedJepa cfg env encoder r) :
    ∃ (trigger : Option (TriggerState Row K D cfg)) (t : ℕ),
      Explained env encoder t trigger r.replanSteps ∧ t ≤ r.steps ∧
      r.zLog = trigger.map TriggerState.zLog ∧ r.replanSteps.Pairwise (· < ·) ∧
      r.triggerLatency = latencyOf r.perturbStep r.replanSteps := by
  obtain ⟨setting, args, s, sim, trigger, jepa, acts, calls, ran⟩ := recording
  obtain ⟨state, left, looped, rfl, -⟩ := exists_runLoop ran
  obtain ⟨t, -, recorded, explained, bound⟩ : ∃ t ≤ args.maxSteps,
      Recorded setting.condition t state.episode ∧
        Explained env encoder t state.trigger state.episode.policy.replanSteps ∧
        t ≤ state.episode.t + 1 := by
    refine @ForRange.exists_invariant _ _ (runStep env setting) (runStart env setting args s)
      (fun t state => Recorded setting.condition t state.episode ∧
        Explained env encoder t state.trigger state.episode.policy.replanSteps ∧
        t ≤ state.episode.t + 1) ?_ ?_ args.maxSteps state left looped
    · have recorded : Recorded setting.condition 0 (episodeStart env args s) :=
        recorded_start setting.condition args s
      have unplanned : (runStart env setting args s).episode.policy.replanSteps = [] :=
        recorded.replanSteps
      refine ⟨recorded, ?_, Nat.zero_le _⟩
      rw [unplanned]
      dsimp only [runStart]
      rw [calls]
      cases setting.triggerState with
      | none =>
          exact ⟨fun _ => rfl, fun _ some => by contradiction, fun _ some => by contradiction,
            fun _ some => by contradiction, fun _ some => by contradiction⟩
      | some st =>
          refine ⟨fun _ => rfl, ?_, ?_, ?_, ?_⟩ <;> rintro _ ⟨⟩
          · exact .start
          · rfl
          · exact List.Pairwise.nil
          · intro u member
            exact absurd member List.not_mem_nil
    · rintro t before after left - ⟨recorded, explained, -⟩ ran
      obtain ⟨doReplan, decided, advances⟩ := runStep_eq_ok ran
      have target : (perturbStage env t before.episode).2.2.policy.target.isSome :=
        recorded.planned
      obtain ⟨-, -, replanSteps⟩ :=
        replans_of_advanced target (advanced_of_advanceStage advances)
      obtain ⟨next, index⟩ := recorded.next ran
      refine ⟨next, ?_, by omega⟩
      rw [replanSteps]
      exact explained.next jepa acts calls decided
  refine ⟨state.trigger, t, explained, bound, ?_, ?_, ?_⟩
  · rw [runResult, calls]
    rfl
  · change state.episode.policy.replanSteps.Pairwise (· < ·)
    rw [recorded.replanSteps]
    exact loggedReplans_pairwise _
  · exact recorded.triggerLatency_eq

/-- The replans of a recorded run are the fires that its recorded z values prescribe. The stamps of
these values are the encoded steps of the run, in order. -/
theorem replans_explained_by_log (positive : 0 < cfg.consec) {r : RunResult K Row}
    (recording : RecordedJepa cfg env encoder r) {zLog : List (ℕ × NanOr K)}
    (logged : r.zLog = some zLog) :
    (zLog.map Prod.fst).Pairwise (· < ·) ∧
      (∀ u ∈ zLog.map Prod.fst, u < r.steps ∧ EncodesAt cfg u) ∧
      ∀ t, t ∈ r.replanSteps ↔
        ∃ j z, zLog[j]? = some (t, z) ∧ Fires cfg (zLog.map Prod.snd) j := by
  obtain ⟨trigger, n, explained, bound, log, -, -⟩ := explained_of_recording recording
  obtain ⟨st, rfl, rfl⟩ := Option.map_eq_some_iff.mp (log.symm.trans logged)
  refine ⟨explained.ordered st rfl, fun u member => ?_, fun t => ?_⟩
  · obtain ⟨earlier, encodes⟩ := explained.stamps st rfl u member
    exact ⟨earlier.trans_le bound, encodes⟩
  · rw [explained.fired st rfl, mem_firedStamps]
    refine exists_congr fun j => exists_congr fun z => and_congr_right fun _ => ?_
    exact Debounce.fires_iff positive j

/-! ## The offline detector on the log -/

/-- The latency that the offline detector finds in a recorded log. -/
def offlineLatency (cfg : TriggerConfig K) (zLog : List (ℕ × NanOr K)) (p : ℕ) : Option ℤ := do
  let hit ← firstRun (zLog.map Prod.snd) cfg.kappaHigh cfg.consec
    (Numpy.searchsorted (zLog.map Prod.fst) p)
  let t ← (zLog.map Prod.fst)[hit]?
  some ((t : ℤ) - p)

/-- A run that replans nowhere before the perturbation replans first at its first replan. -/
theorem latencyOf_eq_some_iff {p : ℕ} {steps : List ℕ} (ascending : steps.Pairwise (· < ·))
    (silent : ∀ u ∈ steps, p ≤ u) {latency : ℤ} :
    latencyOf (some p) steps = some latency ↔
      ∃ u, IsLeast {u | u ∈ steps} u ∧ latency = (u : ℤ) - p := by
  have least (u : ℕ) : firstReplanSince (some p) steps = some u ↔ IsLeast {u | u ∈ steps} u := by
    have all : {u | u ∈ steps ∧ p ≤ u} = {u | u ∈ steps} :=
      Set.ext fun u => and_iff_left_of_imp (silent u)
    rw [firstReplanSince_eq_some_iff ascending]
    simp only [Option.some.injEq, exists_eq_left', all]
  simp only [latencyOf, Option.bind_eq_bind, Option.bind_eq_some_iff, least]
  exact exists_congr fun u => and_congr_right fun _ => ⟨fun ⟨q, same, value⟩ => by
    obtain rfl := Option.some.inj same
    exact (Option.some.inj value).symm, fun value => ⟨p, rfl, congrArg some value.symm⟩⟩

section Log

variable {zLog : List (ℕ × NanOr K)} {p : ℕ}

theorem offlineLatency_eq_some_iff {latency : ℤ} :
    offlineLatency cfg zLog p = some latency ↔
      ∃ i t, firstRun (zLog.map Prod.snd) cfg.kappaHigh cfg.consec
          (Numpy.searchsorted (zLog.map Prod.fst) p) = some i ∧
        (zLog.map Prod.fst)[i]? = some t ∧ (t : ℤ) - p = latency := by
  simp only [offlineLatency, Option.bind_eq_bind, Option.bind_eq_some_iff, Option.some.injEq,
    exists_and_left]

/-- The detector's hit is preceded by a fire. -/
theorem exists_isLeast_firedStamps (positive : 0 < cfg.consec)
    (sorted : (zLog.map Prod.fst).Pairwise (· ≤ ·)) {start i t : ℕ}
    (hit : firstRun (zLog.map Prod.snd) cfg.kappaHigh cfg.consec start = some i)
    (stamp : (zLog.map Prod.fst)[i]? = some t) :
    ∃ u ≤ t, IsLeast {u | u ∈ firedStamps cfg zLog} u := by
  have search := firstRun_isFirst positive (zLog.map Prod.snd) cfg.kappaHigh start
  rw [hit] at search
  obtain ⟨j, before, high⟩ := Debounce.exists_firesAt_of_streak positive
    (search.1.mono (Nat.zero_le _))
  obtain ⟨inside, -⟩ := List.getElem?_eq_some_iff.mp stamp
  obtain ⟨u, stamp'⟩ : ∃ u, (zLog.map Prod.fst)[j]? = some u :=
    ⟨_, List.getElem?_eq_getElem (before.trans_lt inside)⟩
  have member : u ∈ firedStamps cfg zLog := mem_firedStamps_iff.mpr ⟨j, stamp', high⟩
  classical
  have fired : ∃ u, u ∈ firedStamps cfg zLog := ⟨u, member⟩
  have bound : u ≤ t := Numpy.le_of_getElem? sorted stamp' stamp before
  exact ⟨Nat.find fired, (Nat.find_min' fired member).trans bound, Nat.find_spec fired,
    fun v other => Nat.find_min' fired other⟩

/-- A fire that does not precede the perturbation is a crossing behind the start of the search. -/
theorem exists_crossing_of_fired (sorted : (zLog.map Prod.fst).Pairwise (· ≤ ·)) {u : ℕ}
    (fired : u ∈ firedStamps cfg zLog) (since : p ≤ u) :
    ∃ j, (zLog.map Prod.fst)[j]? = some u ∧ Numpy.searchsorted (zLog.map Prod.fst) p ≤ j ∧
      crosses (zLog.map Prod.snd) cfg.kappaHigh j = true := by
  obtain ⟨j, stamp, high⟩ := mem_firedStamps_iff.mp fired
  refine ⟨j, stamp, ?_, Debounce.high_of_firesAt high⟩
  exact (Numpy.searchsorted_le_iff sorted stamp).mpr (by exact_mod_cast since)

/-- Without debounce the detector's hit is the first fire. -/
theorem exists_hit_iff (single : cfg.consec = 1) (sorted : (zLog.map Prod.fst).Pairwise (· ≤ ·))
    (silent : ∀ u ∈ firedStamps cfg zLog, p ≤ u) {u : ℕ} :
    (∃ i, firstRun (zLog.map Prod.snd) cfg.kappaHigh cfg.consec
        (Numpy.searchsorted (zLog.map Prod.fst) p) = some i ∧
      (zLog.map Prod.fst)[i]? = some u) ↔ IsLeast {u | u ∈ firedStamps cfg zLog} u := by
  have positive : 0 < cfg.consec := single ▸ Nat.one_pos
  have first := firstRun_one (zLog.map Prod.snd) cfg.kappaHigh
    (Numpy.searchsorted (zLog.map Prod.fst) p)
  rw [← single] at first
  constructor
  · rintro ⟨i, hit, stamp⟩
    obtain ⟨v, bound, least⟩ := exists_isLeast_firedStamps positive sorted hit stamp
    obtain ⟨j, stamp', since, high⟩ := exists_crossing_of_fired sorted least.1 (silent v least.1)
    rw [hit] at first
    obtain rfl : v = u :=
      bound.antisymm (Numpy.le_of_getElem? sorted stamp stamp' (first.2 ⟨since, high⟩))
    exact least
  · intro least
    obtain ⟨j, stamp', since, high⟩ := exists_crossing_of_fired sorted least.1 (silent u least.1)
    obtain ⟨i, before, hit⟩ := Debounce.IsFirst.exists_le_of_holds first ⟨since, high⟩
    obtain ⟨inside, -⟩ := List.getElem?_eq_some_iff.mp stamp'
    obtain ⟨t, stamp⟩ : ∃ t, (zLog.map Prod.fst)[i]? = some t :=
      ⟨_, List.getElem?_eq_getElem (before.trans_lt inside)⟩
    obtain ⟨v, bound, least'⟩ := exists_isLeast_firedStamps positive sorted hit stamp
    obtain rfl := least.unique least'
    obtain rfl : u = t := bound.antisymm (Numpy.le_of_getElem? sorted stamp stamp' before)
    exact ⟨i, hit, stamp⟩

end Log

/-- A run whose trigger is silent before the perturbation replans no later than the offline
detector, run over the recorded z values from the perturbation on, detects it; without debounce the
two latencies are equal. -/
theorem latency_le_offlineLatency (positive : 0 < cfg.consec) {r : RunResult K Row}
    (recording : RecordedJepa cfg env encoder r) {zLog : List (ℕ × NanOr K)}
    (logged : r.zLog = some zLog) {p : ℕ} (fires : r.perturbStep = some p)
    (silent : ∀ u ∈ r.replanSteps, p ≤ u) :
    (∀ offline, offlineLatency cfg zLog p = some offline →
      ∃ latency ≤ offline, r.triggerLatency = some latency) ∧
      (cfg.consec = 1 → r.triggerLatency = offlineLatency cfg zLog p) := by
  obtain ⟨trigger, n, explained, -, log, ascending, latency⟩ := explained_of_recording recording
  obtain ⟨st, rfl, rfl⟩ := Option.map_eq_some_iff.mp (log.symm.trans logged)
  have sorted : (st.zLog.map Prod.fst).Pairwise (· ≤ ·) :=
    (explained.ordered st rfl).imp Nat.le_of_lt
  rw [latency, fires]
  rw [explained.fired st rfl] at ascending silent ⊢
  constructor
  · intro offline found
    obtain ⟨i, t, hit, stamp, rfl⟩ := offlineLatency_eq_some_iff.mp found
    obtain ⟨u, bound, least⟩ := exists_isLeast_firedStamps positive sorted hit stamp
    exact ⟨(u : ℤ) - p, by omega, (latencyOf_eq_some_iff ascending silent).mpr ⟨u, least, rfl⟩⟩
  · intro single
    refine Option.ext fun value => ?_
    rw [latencyOf_eq_some_iff ascending silent, offlineLatency_eq_some_iff, exists_comm]
    refine exists_congr fun u => ?_
    rw [← exists_hit_iff single sorted silent, ← exists_and_right]
    refine exists_congr fun i => ?_
    rw [and_assoc, eq_comm (a := value)]

/-! ## The run with a jump in the step of the perturbation -/

theorem exists_spikeRun :
    ∃ perturbed zLog, RecordedJepa flatConfig timedEnv (spikeEncoder [24]) perturbed ∧
      perturbed.zLog = some zLog ∧ perturbed.perturbStep = some 24 ∧
      perturbed.replanSteps = [24] := by
  have runs : Fallible.Returns (spikeRuns [24] false) fun records =>
      records.1.zLog.isSome ∧ records.1.perturbStep = some 24 ∧ records.1.replanSteps = [24] := by
    decide +kernel
  obtain ⟨⟨perturbed, clean⟩, ran, logged, fires, steps⟩ := runs.exists_eq_ok
  obtain ⟨zLog, logged⟩ := Option.isSome_iff_exists.mp logged
  exact ⟨perturbed, zLog, (recorded_of_spikeRuns ran).1, logged, fires, steps⟩

theorem replans_explained_by_log_spike :
    ∃ (zLog : List (ℕ × NanOr ℚ)) (j : ℕ) (z : NanOr ℚ), zLog[j]? = some (24, z) ∧
      Fires flatConfig (zLog.map Prod.snd) j := by
  obtain ⟨perturbed, zLog, recording, logged, -, steps⟩ := exists_spikeRun
  have explained := (replans_explained_by_log (by decide) recording logged).2.2 24
  rw [steps] at explained
  exact ⟨zLog, explained.mp (List.mem_singleton_self 24)⟩

theorem latency_le_offlineLatency_spike :
    ∃ perturbed zLog, RecordedJepa flatConfig timedEnv (spikeEncoder [24]) perturbed ∧
      perturbed.triggerLatency = offlineLatency flatConfig zLog 24 := by
  obtain ⟨perturbed, zLog, recording, logged, fires, steps⟩ := exists_spikeRun
  refine ⟨perturbed, zLog, recording, ?_⟩
  refine (latency_le_offlineLatency (by decide) recording logged fires ?_).2 rfl
  rw [steps]
  exact List.forall_mem_singleton.mpr le_rfl

end G1Jepa
