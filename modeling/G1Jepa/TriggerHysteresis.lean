import G1Jepa.JepaTrigger

/-!
# Firing times of the online and of the offline detector

The debounce-and-hysteresis part of the online trigger is a `Debounce` machine over its z values,
and `first_run` returns the end of the first streak. Both are then compared through the streaks
of one sequence.
-/

namespace G1Jepa

variable {K : Type} [LinearOrder K]

/-- Sample `i` exists and lies above the threshold. -/
def crosses (zs : List (NanOr K)) (kappa : K) (i : ℕ) : Bool :=
  zs[i]?.any fun z => z.exceeds kappa

/-- Sample `i` exists and lies below the threshold. -/
def dips (zs : List (NanOr K)) (kappa : K) (i : ℕ) : Bool :=
  zs[i]?.any fun z => z.below kappa

theorem crosses_of_getElem? {zs : List (NanOr K)} {i : ℕ} {z : NanOr K} (found : zs[i]? = some z)
    (kappa : K) : crosses zs kappa i = z.exceeds kappa := by
  simp [crosses, found]

theorem dips_of_getElem? {zs : List (NanOr K)} {i : ℕ} {z : NanOr K} (found : zs[i]? = some z)
    (kappa : K) : dips zs kappa i = z.below kappa := by
  simp [dips, found]

theorem crosses_mono {zs : List (NanOr K)} {lower higher : K} (ordered : lower ≤ higher) {i : ℕ}
    (high : crosses zs higher i = true) : crosses zs lower i = true := by
  rw [crosses, Option.any_eq_true] at high ⊢
  obtain ⟨z, found, above⟩ := high
  exact ⟨z, found, NanOr.exceeds_mono ordered above⟩

theorem dips_mono {zs : List (NanOr K)} {lower higher : K} (ordered : lower ≤ higher) {i : ℕ}
    (low : dips zs lower i = true) : dips zs higher i = true := by
  rw [dips, Option.any_eq_true] at low ⊢
  obtain ⟨z, found, below⟩ := low
  exact ⟨z, found, NanOr.below_mono ordered below⟩

/-- No sample is both below a threshold and above one that is no lower. -/
theorem not_crosses_of_dips {zs : List (NanOr K)} {lower higher : K} (ordered : lower ≤ higher)
    {i : ℕ} (low : dips zs lower i = true) : crosses zs higher i = false := by
  rw [dips, Option.any_eq_true] at low
  obtain ⟨z, found, below⟩ := low
  rw [crosses_of_getElem? found]
  exact NanOr.exceeds_eq_false_of_below ordered below

theorem lt_length_of_crosses {zs : List (NanOr K)} {kappa : K} {i : ℕ}
    (high : crosses zs kappa i = true) : i < zs.length := by
  by_contra beyond
  rw [crosses, List.getElem?_eq_none (by omega)] at high
  simp at high

theorem crosses_replicate_append (missing i : ℕ) (zs : List (NanOr K)) (kappa : K) :
    crosses (List.replicate missing none ++ zs) kappa i =
      (decide (missing ≤ i) && crosses zs kappa (i - missing)) := by
  by_cases before : i < missing
  · simp [crosses, List.getElem?_append_left, before, Nat.not_le_of_lt before]
  · have after : missing ≤ i := Nat.le_of_not_lt before
    simp [crosses, List.getElem?_append_right, after]

theorem lt_length_of_streak {zs : List (NanOr K)} {kappa : K} {consec base j : ℕ}
    (positive : 0 < consec) (streak : Debounce.Streak (crosses zs kappa) consec base j) :
    j < zs.length :=
  lt_length_of_crosses (streak.2 j (by omega) le_rfl)

/-! ## The offline detector -/

/-- From index `start + n` on, `first_run` finds the first streak that begins at `start` or
later, provided its counter holds the length of the current run. -/
theorem firstRunFrom_isFirst {zs : List (NanOr K)} {kappa : K} {consec start : ℕ}
    (positive : 0 < consec) (rest : List (NanOr K)) {n : ℕ}
    (remaining : zs.drop (start + n) = rest) :
    Debounce.IsFirst
      (fun j => start + n ≤ j ∧ Debounce.Streak (crosses zs kappa) consec start j)
      (firstRunFrom kappa consec rest (start + n)
        (Debounce.runLength (crosses zs kappa) start n)) := by
  induction rest generalizing n with
  | nil =>
      rintro j ⟨later, streak⟩
      have := lt_length_of_streak positive streak
      have := List.drop_eq_nil_iff.mp remaining
      omega
  | cons z rest induction =>
      have found : zs[start + n]? = some z := by
        have := congrArg (fun values : List (NanOr K) => values[0]?) remaining
        simpa using this
      have tail : zs.drop (start + (n + 1)) = rest := by
        rw [← Nat.add_assoc, ← List.drop_drop, remaining, List.drop_one, List.tail_cons]
      have skip : ∀ {result}, ¬Debounce.Streak (crosses zs kappa) consec start (start + n) →
          Debounce.IsFirst (fun j => start + (n + 1) ≤ j ∧
            Debounce.Streak (crosses zs kappa) consec start j) result →
          Debounce.IsFirst (fun j => start + n ≤ j ∧
            Debounce.Streak (crosses zs kappa) consec start j) result := by
        intro result incomplete next
        refine next.congr fun j => and_congr_left fun streak => ?_
        have : j ≠ start + n := fun equality => incomplete (equality ▸ streak)
        omega
      have next := induction tail
      have completed := Debounce.streak_iff_le_runLength (crosses zs kappa) consec start n
      rw [Debounce.runLength, crosses_of_getElem? found] at completed next
      rw [firstRunFrom]
      by_cases high : z.exceeds kappa = true
      · rw [if_pos high] at completed next ⊢
        by_cases full : consec ≤ Debounce.runLength (crosses zs kappa) start n + 1
        · rw [if_pos full]
          exact ⟨⟨le_rfl, completed.mpr full⟩, fun j other => other.1⟩
        · rw [if_neg full]
          exact skip (mt completed.mp full) next
      · rw [if_neg high] at completed next ⊢
        exact skip (mt completed.mp (by omega)) next

/-- `first_run` returns the end of the first streak that begins at the start index or later. -/
theorem firstRun_isFirst {consec : ℕ} (positive : 0 < consec) (zs : List (NanOr K)) (kappa : K)
    (startIdx : ℕ) :
    Debounce.IsFirst (Debounce.Streak (crosses zs kappa) consec startIdx)
      (firstRun zs kappa consec startIdx) :=
  (@firstRunFrom_isFirst K _ zs kappa consec startIdx positive (zs.drop startIdx) 0 rfl).congr
    fun _ => and_iff_right_of_imp fun streak => streak.base_le positive

/-- `first_run` without debounce returns the least index from the start on that crosses. -/
theorem firstRun_one (zs : List (NanOr K)) (kappa : K) (start : ℕ) :
    Debounce.IsFirst (fun j => start ≤ j ∧ crosses zs kappa j = true)
      (firstRun zs kappa 1 start) := by
  apply (firstRun_isFirst Nat.one_pos zs kappa start).congr
  intro j
  constructor
  · rintro ⟨bound, all⟩
    exact ⟨by omega, all j (by omega) le_rfl⟩
  · rintro ⟨since, high⟩
    refine ⟨by omega, fun i lower upper => ?_⟩
    obtain rfl : i = j := by omega
    exact high

/-! ## The online detector -/

namespace OnlineJepaTrigger

variable {K : Type} [Field K] [LinearOrder K] {E R Row Z : Type} {D : ℕ} {cfg : TriggerConfig K}

/-- The two fields of a trigger that its detector reads. -/
def detector (st : TriggerState Row K D cfg) : Debounce.State := ⟨st.armed, st.run⟩

/-- The trigger after the detector has read a sequence of z values. -/
def feed (st : TriggerState Row K D cfg) (zs : List (NanOr K)) : TriggerState Row K D cfg :=
  zs.foldl (fun st z => (hysteresis st z).2) st

/-- The detector returns `True` on value `j` of a sequence fed to a trigger. -/
def firesOn (st : TriggerState Row K D cfg) (zs : List (NanOr K)) (j : ℕ) : Bool :=
  zs[j]?.any fun z => (hysteresis (feed st (zs.take j)) z).1

/-- The firing times that the history of z values prescribes: the first streak of `consec`
values above `kappa_high`, and after a fire the first streak that lies wholly behind the next
value below `kappa_low`. -/
def Fires (cfg : TriggerConfig K) (zs : List (NanOr K)) : ℕ → Prop :=
  Debounce.Fires cfg.consec (crosses zs cfg.kappaHigh) (dips zs cfg.kappaLow)

/-- The last part of `step_` is one step of the debounce machine. -/
theorem hysteresis_refines (st : TriggerState Row K D cfg) (z : NanOr K) :
    ((hysteresis st z).1, detector (hysteresis st z).2) =
      Debounce.step cfg.consec (detector st) (z.exceeds cfg.kappaHigh)
        (z.below cfg.kappaLow) := by
  cases armed : st.armed with
  | false =>
      cases low : z.below cfg.kappaLow <;>
        simp [hysteresis, Debounce.step, Debounce.State.fresh, detector, armed, low]
  | true =>
      cases high : z.exceeds cfg.kappaHigh with
      | false => simp [hysteresis, Debounce.step, detector, armed, high]
      | true =>
          by_cases full : cfg.consec ≤ st.run + 1 <;>
            simp [hysteresis, Debounce.step, detector, armed, high, full]

theorem hysteresis_fst (st : TriggerState Row K D cfg) (z : NanOr K) :
    (hysteresis st z).1 = (Debounce.step cfg.consec (detector st) (z.exceeds cfg.kappaHigh)
      (z.below cfg.kappaLow)).1 :=
  congrArg Prod.fst (hysteresis_refines st z)

theorem detector_hysteresis (st : TriggerState Row K D cfg) (z : NanOr K) :
    detector (hysteresis st z).2 = (Debounce.step cfg.consec (detector st)
      (z.exceeds cfg.kappaHigh) (z.below cfg.kappaLow)).2 :=
  congrArg Prod.snd (hysteresis_refines st z)

@[simp] theorem feed_nil (st : TriggerState Row K D cfg) : feed st [] = st := rfl

theorem feed_append_singleton (st : TriggerState Row K D cfg) (zs : List (NanOr K))
    (z : NanOr K) : feed st (zs ++ [z]) = (hysteresis (feed st zs) z).2 := by
  simp [feed, List.foldl_append]

/-- A reset trigger that reads `zs` is the debounce machine on the threshold crossings of `zs`. -/
theorem detector_feed_take (zs : List (NanOr K)) {j : ℕ} (inside : j ≤ zs.length) :
    detector (feed (reset cfg : TriggerState Row K D cfg) (zs.take j)) =
      Debounce.stateAt cfg.consec (crosses zs cfg.kappaHigh) (dips zs cfg.kappaLow) j := by
  induction j with
  | zero => rfl
  | succ j induction =>
      have found : zs[j]? = some zs[j] := List.getElem?_eq_getElem inside
      rw [List.take_add_one, found, Option.toList_some, feed_append_singleton,
        detector_hysteresis, induction (by omega), Debounce.stateAt, crosses_of_getElem? found,
        dips_of_getElem? found]

theorem firesOn_of_lt (zs : List (NanOr K)) {j : ℕ} (inside : j < zs.length) :
    firesOn (reset cfg : TriggerState Row K D cfg) zs j =
      Debounce.firesAt cfg.consec (crosses zs cfg.kappaHigh) (dips zs cfg.kappaLow) j := by
  have found : zs[j]? = some zs[j] := List.getElem?_eq_getElem inside
  rw [firesOn, found, Option.any_some, hysteresis_fst, detector_feed_take zs inside.le,
    Debounce.firesAt, crosses_of_getElem? found, dips_of_getElem? found]

theorem firesAt_eq_false_of_length_le (zs : List (NanOr K)) {j : ℕ} (beyond : zs.length ≤ j) :
    Debounce.firesAt cfg.consec (crosses zs cfg.kappaHigh) (dips zs cfg.kappaLow) j = false := by
  by_contra fires
  have high : crosses zs cfg.kappaHigh j = true := by
    rw [Debounce.firesAt, Debounce.step] at fires
    by_contra quiet
    rw [Bool.not_eq_true] at quiet
    rw [quiet] at fires
    split at fires <;> simp at fires
  have := lt_length_of_crosses high
  omega

theorem firesOn_eq_firesAt (zs : List (NanOr K)) (j : ℕ) :
    firesOn (reset cfg : TriggerState Row K D cfg) zs j =
      Debounce.firesAt cfg.consec (crosses zs cfg.kappaHigh) (dips zs cfg.kappaLow) j := by
  by_cases inside : j < zs.length
  · exact firesOn_of_lt zs inside
  · rw [firesAt_eq_false_of_length_le zs (by omega), firesOn, List.getElem?_eq_none (by omega),
      Option.any_none]

/-- The states of a trigger after any calls that follow a reset. -/
inductive Reached (env : Env K E R Row) (encoder : VideoEncoder (List Row) Z K D) :
    TriggerState Row K D cfg → Prop
  | start : Reached env encoder (reset cfg)
  | call {st after : TriggerState Row K D cfg} {t : ℕ} {s : E} {policy : ScriptedPickPlace K}
      {fired : Bool} : Reached env encoder st →
      step env encoder st t s policy = .ok (fired, after) → Reached env encoder after

variable {env : Env K E R Row} {encoder : VideoEncoder (List Row) Z K D}

/-- A call either leaves the detector and the z values alone and returns `False`, or appends one
z value and returns what the detector returns on it. -/
theorem step_detector {st after : TriggerState Row K D cfg} {t : ℕ} {s : E}
    {policy : ScriptedPickPlace K} {fired : Bool}
    (called : step env encoder st t s policy = .ok (fired, after)) :
    (after.zLog = st.zLog ∧ fired = false ∧ detector after = detector st) ∨
      ∃ z, after.zLog = st.zLog ++ [(t, z)] ∧
        (fired, detector after) = Debounce.step cfg.consec (detector st)
          (z.exceeds cfg.kappaHigh) (z.below cfg.kappaLow) := by
  cases stepped_of_step called with
  | idle => exact .inl ⟨rfl, rfl, rfl⟩
  | filling _ _ pushed => exact .inl ⟨by rw [pushed]; rfl, rfl, by rw [pushed]; rfl⟩
  | @judged clip pushed e z _ _ equality =>
      refine .inr ⟨z, ?_, ?_⟩
      · rw [hysteresis_zLog, equality]
        rfl
      · rw [hysteresis_refines, equality]
        rfl

/-- The detector of a trigger has read the z values in its log. -/
theorem Reached.detector_eq_feed {st : TriggerState Row K D cfg}
    (reached : Reached env encoder st) :
    detector st = detector (feed (reset cfg : TriggerState Row K D cfg)
      (st.zLog.map Prod.snd)) := by
  induction reached with
  | start => rfl
  | call _ called induction =>
      rcases step_detector called with ⟨same, -, kept⟩ | ⟨z, logged, stepped⟩
      · rw [kept, same, induction]
      · rw [logged, List.map_append, List.map_singleton, feed_append_singleton,
          detector_hysteresis, ← induction]
        exact congrArg Prod.snd stepped

/-- A call that appends a z value returns what the history of z values prescribes for it. -/
theorem Reached.fired_eq {st after : TriggerState Row K D cfg} {t : ℕ} {fired : Bool}
    {z : NanOr K}
    (reached : Reached env encoder st)
    (logged : after.zLog = st.zLog ++ [(t, z)])
    (stepped : (fired, detector after) = Debounce.step cfg.consec (detector st)
      (z.exceeds cfg.kappaHigh) (z.below cfg.kappaLow)) :
    fired = firesOn (reset cfg : TriggerState Row K D cfg) (after.zLog.map Prod.snd)
      st.zLog.length := by
  have length : st.zLog.length = (st.zLog.map Prod.snd).length := (List.length_map _).symm
  have found : (after.zLog.map Prod.snd)[st.zLog.length]? = some z := by
    rw [logged, List.map_append, List.map_singleton, length, List.getElem?_concat_length]
  have earlier : (after.zLog.map Prod.snd).take st.zLog.length = st.zLog.map Prod.snd := by
    rw [logged, List.map_append, length, List.take_left]
  rw [firesOn, found, Option.any_some, hysteresis_fst, earlier, ← reached.detector_eq_feed]
  exact congrArg Prod.fst stepped

/-- The trigger fires at exactly the z values that the history prescribes, a z value below
`kappa_low` lies between any two fires, and `step_` returns `True` exactly when it appends a z
value at which its log prescribes a fire. -/
theorem step_fires_iff (positive : 0 < cfg.consec) :
    (∀ zs j, firesOn (reset cfg : TriggerState Row K D cfg) zs j = true ↔ Fires cfg zs j) ∧
      (∀ zs i j, Fires cfg zs i → Fires cfg zs j → i < j →
        ∃ m, i < m ∧ m < j ∧ dips zs cfg.kappaLow m = true) ∧
      ∀ (env : Env K E R Row) (encoder : VideoEncoder (List Row) Z K D)
        (st after : TriggerState Row K D cfg) (t : ℕ) (s : E) (policy : ScriptedPickPlace K)
        (fired : Bool), Reached env encoder st →
        step env encoder st t s policy = .ok (fired, after) →
        (fired = true ↔ after.zLog.length = st.zLog.length + 1 ∧
          Fires cfg (after.zLog.map Prod.snd) st.zLog.length) := by
  have prescribed : ∀ zs j,
      firesOn (reset cfg : TriggerState Row K D cfg) zs j = true ↔ Fires cfg zs j := by
    intro zs j
    rw [firesOn_eq_firesAt, Debounce.fires_iff positive]
    exact Iff.rfl
  refine ⟨prescribed, ?_, ?_⟩
  · intro zs i j earlier later ordered
    exact Debounce.exists_low_between ((Debounce.fires_iff positive i).mpr earlier)
      ((Debounce.fires_iff positive j).mpr later) ordered
  · intro env encoder st after t s policy fired reached called
    rcases step_detector called with ⟨same, rfl, -⟩ | ⟨z, logged, stepped⟩
    · simp [same]
    · have appended : after.zLog.length = st.zLog.length + 1 := by
        rw [logged, List.length_append, List.length_singleton]
      rw [reached.fired_eq logged stepped, prescribed, and_iff_right appended]

theorem step_fires_iff_rearmed :
    Fires (.ofGlobal (0 : ℚ) 1) [some 3, some 3, some 3, some 0, some 3, none, some 3, some 3] 7 :=
  ((@step_fires_iff ℚ _ _ Unit Unit Unit Unit 0 _ (by decide)).1 _ 7).mp (by decide +kernel)

/-! ## Stricter thresholds -/

/-- The number of values of a sequence on which the detector returns `True`. -/
def fireCount (st : TriggerState Row K D cfg) (zs : List (NanOr K)) : ℕ :=
  (List.range zs.length).countP (firesOn st zs)

theorem fireCount_reset (zs : List (NanOr K)) :
    fireCount (reset cfg : TriggerState Row K D cfg) zs =
      Debounce.fireCount cfg.consec (crosses zs cfg.kappaHigh) (dips zs cfg.kappaLow)
        zs.length := by
  rw [fireCount, Debounce.fireCount]
  exact congrArg (fun fires => (List.range zs.length).countP fires)
    (funext fun j => firesOn_eq_firesAt zs j)

/-- A stricter trigger never fires more often than a looser one on the same values. -/
theorem fireCount_le_of_stricter {strict loose : TriggerConfig K}
    (band : loose.kappaLow ≤ loose.kappaHigh) (higher : loose.kappaHigh ≤ strict.kappaHigh)
    (lower : strict.kappaLow ≤ loose.kappaLow) (longer : loose.consec ≤ strict.consec)
    (zs : List (NanOr K)) :
    fireCount (reset strict : TriggerState Row K D strict) zs ≤
      fireCount (reset loose : TriggerState Row K D loose) zs := by
  have looser : Debounce.Looser strict.consec (crosses zs strict.kappaHigh)
      (dips zs strict.kappaLow) loose.consec (crosses zs loose.kappaHigh)
      (dips zs loose.kappaLow) :=
    { consec_le := longer
      high := fun j => crosses_mono higher
      low := fun j => dips_mono lower
      not_high_of_low := fun j sample => not_crosses_of_dips (lower.trans band) sample }
  rw [fireCount_reset, fireCount_reset]
  exact looser.fireCount_le zs.length

theorem fireCount_le_of_stricter_consec :
    fireCount (reset { TriggerConfig.ofGlobal (0 : ℚ) 1 with kappaHigh := 3, consec := 3 } :
        TriggerState Unit ℚ 0 _) [some 4, some 4, some 4, some 0, some 4] ≤
      fireCount (reset { TriggerConfig.ofGlobal (0 : ℚ) 1 with consec := 1 } :
        TriggerState Unit ℚ 0 _) [some 4, some 4, some 4, some 0, some 4] :=
  fireCount_le_of_stricter (by decide +kernel) (by decide +kernel) (by decide +kernel)
    (by decide) _

/-! ## The two detectors -/

/-- The trigger fires at index `j` of a sequence whose first `missing` values it never sees. -/
def FiresBehind (st : TriggerState Row K D cfg) (missing : ℕ) (zs : List (NanOr K)) (j : ℕ) :
    Prop :=
  missing ≤ j ∧ firesOn st zs (j - missing) = true

instance (st : TriggerState Row K D cfg) (missing : ℕ) (zs : List (NanOr K)) (j : ℕ) :
    Decidable (FiresBehind st missing zs j) :=
  inferInstanceAs (Decidable (_ ∧ _))

/-- The offline sequence: NaN for every step in which the trigger produces no z value. -/
def offlineValues (missing : ℕ) (zs : List (NanOr K)) : List (NanOr K) :=
  List.replicate missing none ++ zs

omit [Field K] in
theorem streak_offlineValues {missing consec base j : ℕ} {zs : List (NanOr K)} {kappa : K}
    (positive : 0 < consec) :
    Debounce.Streak (crosses (offlineValues missing zs) kappa) consec base j ↔
      missing ≤ j ∧
        Debounce.Streak (crosses zs kappa) consec (base - missing) (j - missing) := by
  constructor
  · rintro ⟨bound, all⟩
    have seen : ∀ i, j + 1 - consec ≤ i → i ≤ j →
        missing ≤ i ∧ crosses zs kappa (i - missing) = true := by
      intro i lower upper
      have high := all i lower upper
      rw [offlineValues, crosses_replicate_append, Bool.and_eq_true, decide_eq_true_eq] at high
      exact high
    have first : missing ≤ j + 1 - consec := (seen _ le_rfl (by omega)).1
    refine ⟨by omega, by omega, fun i lower upper => ?_⟩
    have high := (seen (i + missing) (by omega) (by omega)).2
    rwa [Nat.add_sub_cancel] at high
  · rintro ⟨later, bound, all⟩
    refine ⟨by omega, fun i lower upper => ?_⟩
    rw [offlineValues, crosses_replicate_append, Bool.and_eq_true, decide_eq_true_eq]
    exact ⟨by omega, all (i - missing) (by omega) (by omega)⟩

/-- A streak of the offline sequence is preceded by a fire of the trigger. -/
theorem exists_firesBehind_of_streak {missing base i : ℕ} {zs : List (NanOr K)}
    (positive : 0 < cfg.consec)
    (streak : Debounce.Streak (crosses (offlineValues missing zs) cfg.kappaHigh) cfg.consec
      base i) :
    ∃ j ≤ i, FiresBehind (reset cfg : TriggerState Row K D cfg) missing zs j := by
  obtain ⟨later, seen⟩ := (streak_offlineValues positive).mp streak
  obtain ⟨j, bound, fires⟩ := Debounce.exists_firesAt_of_streak positive
    (seen.mono (Nat.zero_le _))
  refine ⟨j + missing, by omega, Nat.le_add_left _ _, ?_⟩
  rw [Nat.add_sub_cancel, firesOn_eq_firesAt]
  exact fires

/-- The trigger fires for the first time at the first streak of the offline sequence. -/
theorem isFirst_firesBehind {missing : ℕ} {zs : List (NanOr K)} {result : Option ℕ}
    (positive : 0 < cfg.consec)
    (search : Debounce.IsFirst
      (Debounce.Streak (crosses (offlineValues missing zs) cfg.kappaHigh) cfg.consec 0) result) :
    Debounce.IsFirst (FiresBehind (reset cfg : TriggerState Row K D cfg) missing zs) result := by
  have delayed := search.congr fun j => streak_offlineValues positive
  rw [Nat.zero_sub] at delayed
  have fires := delayed.delayed fun {found} first =>
    @Debounce.isFirst_firesAt cfg.consec (crosses zs cfg.kappaHigh) (dips zs cfg.kappaLow) positive
      _ first
  apply fires.congr
  intro j
  rw [FiresBehind, firesOn_eq_firesAt]

/-- A trigger that is silent before the start index fires no later than `first_run` does, and at
the same index when the search starts at zero or needs only one value. -/
theorem firstRun_bounds_trigger {missing startIdx : ℕ} {zs : List (NanOr K)}
    (positive : 0 < cfg.consec)
    (silent : ∀ j < startIdx, ¬FiresBehind (reset cfg : TriggerState Row K D cfg) missing zs j) :
    (∀ i, firstRun (offlineValues missing zs) cfg.kappaHigh cfg.consec startIdx = some i →
      ∃ j, startIdx ≤ j ∧ j ≤ i ∧
        FiresBehind (reset cfg : TriggerState Row K D cfg) missing zs j) ∧
      (startIdx = 0 ∨ cfg.consec = 1 →
        Debounce.IsFirst (FiresBehind (reset cfg : TriggerState Row K D cfg) missing zs)
          (firstRun (offlineValues missing zs) cfg.kappaHigh cfg.consec startIdx)) := by
  have search := firstRun_isFirst positive (offlineValues missing zs) cfg.kappaHigh startIdx
  constructor
  · intro i found
    rw [found] at search
    obtain ⟨j, bound, fires⟩ := exists_firesBehind_of_streak positive search.1
    refine ⟨j, ?_, bound, fires⟩
    by_contra earlier
    exact silent j (by omega) fires
  · rintro (rfl | single)
    · exact isFirst_firesBehind positive search
    · refine isFirst_firesBehind positive (search.congr fun j => ?_)
      refine ⟨fun streak => streak.mono (Nat.zero_le _), fun streak => ⟨?_, streak.2⟩⟩
      obtain ⟨i, bound, fires⟩ := exists_firesBehind_of_streak positive streak
      have : startIdx ≤ i := Nat.le_of_not_lt fun earlier => silent i earlier fires
      omega

theorem firstRun_bounds_trigger_across_start :
    ∃ j, 4 ≤ j ∧ j ≤ 5 ∧
      FiresBehind (reset (.ofGlobal (0 : ℚ) 1) : TriggerState Unit ℚ 0 _) 2
        [some 0, some 3, some 3, some 3] j :=
  (firstRun_bounds_trigger (by decide) (by decide +kernel)).1 5 (by decide +kernel)

end OnlineJepaTrigger

end G1Jepa
