import Mathlib.Data.Nat.Find
import Mathlib.Order.Bounds.Basic
import Mathlib.Tactic.Common

/-!
# Debounced detectors with hysteresis

A detector reads one sample at a time, each `high`, `low` or neither. It fires after `consec`
consecutive high samples, then stays disarmed until a low sample re-arms it. The machine keeps a
run counter and an armed flag. `Fires` is the same set of firing times stated over the whole
history, without any state, and `fires_iff` identifies the two. A detector with looser samples
and a shorter run fires at least as often, although the two arm at different moments.
-/

namespace Debounce

/-! ## Runs of high samples -/

/-- Length of the run of high samples that ends just before `base + n`, counted from `base`. -/
def runLength (high : ℕ → Bool) (base : ℕ) : ℕ → ℕ
  | 0 => 0
  | n + 1 => if high (base + n) then runLength high base n + 1 else 0

/-- The `consec` samples up to and including `j` are high and none of them precedes `base`. -/
def Streak (high : ℕ → Bool) (consec base j : ℕ) : Prop :=
  base + consec ≤ j + 1 ∧ ∀ i, j + 1 - consec ≤ i → i ≤ j → high i = true

/-- The counter reaches `count` exactly when the last `count` samples are high. -/
theorem le_runLength_iff (high : ℕ → Bool) (base n count : ℕ) :
    count ≤ runLength high base n ↔
      count ≤ n ∧ ∀ i, n - count ≤ i → i < n → high (base + i) = true := by
  induction n generalizing count with
  | zero =>
      constructor
      · intro zero
        exact ⟨zero, by omega⟩
      · exact And.left
  | succ n induction =>
      rcases count with - | count
      · simp only [Nat.zero_le, true_and, true_iff]
        omega
      · rw [runLength]
        by_cases last : high (base + n) = true
        · rw [if_pos last, Nat.succ_le_succ_iff, Nat.succ_le_succ_iff, induction count]
          refine and_congr_right fun bound => ⟨fun earlier i lower upper => ?_,
            fun all i lower upper => all i (by omega) (by omega)⟩
          rcases Nat.lt_succ_iff_lt_or_eq.mp upper with before | rfl
          · exact earlier i (by omega) before
          · exact last
        · rw [if_neg last]
          refine ⟨fun absurdity => by omega, fun ⟨_, all⟩ => ?_⟩
          exact absurd (all n (by omega) (by omega)) last

/-- The counter holds the length of a run that ends just before `n`. -/
theorem run_of_runLength (high : ℕ → Bool) (n : ℕ) :
    runLength high 0 n ≤ n ∧ (∀ i, n - runLength high 0 n ≤ i → i < n → high i = true) ∧
      (n - runLength high 0 n = 0 ∨ high (n - runLength high 0 n - 1) = false) := by
  obtain ⟨bound, all⟩ := (le_runLength_iff high 0 n (runLength high 0 n)).mp le_rfl
  simp only [Nat.zero_add] at all
  refine ⟨bound, all, ?_⟩
  by_contra longer
  rw [not_or, Bool.not_eq_false] at longer
  obtain ⟨room, before⟩ := longer
  have counted : runLength high 0 n + 1 ≤ runLength high 0 n := by
    refine (le_runLength_iff high 0 n _).mpr ⟨by omega, fun i lower upper => ?_⟩
    rw [Nat.zero_add]
    rcases Nat.lt_or_ge i (n - runLength high 0 n) with earlier | later
    · rwa [show i = n - runLength high 0 n - 1 by omega]
    · exact all i later upper
  omega

/-- A streak from `base` ends at `base + n` exactly when the counter has reached `consec` there. -/
theorem streak_iff_le_runLength (high : ℕ → Bool) (consec base n : ℕ) :
    Streak high consec base (base + n) ↔ consec ≤ runLength high base (n + 1) := by
  rw [le_runLength_iff, Streak]
  constructor
  · rintro ⟨bound, all⟩
    exact ⟨by omega, fun i lower upper => all (base + i) (by omega) (by omega)⟩
  · rintro ⟨bound, all⟩
    refine ⟨by omega, fun i lower upper => ?_⟩
    have shifted := all (i - base) (by omega) (by omega)
    rwa [show base + (i - base) = i by omega] at shifted

/-- The counter depends on the samples it has read only. -/
theorem runLength_congr {left right : ℕ → Bool} {base n : ℕ}
    (same : ∀ i < n, left (base + i) = right (base + i)) :
    runLength left base n = runLength right base n := by
  induction n with
  | zero => rfl
  | succ n induction =>
      rw [runLength, runLength, same n (Nat.lt_succ_self n),
        induction fun i bound => same i (Nat.lt_succ_of_lt bound)]

/-- At the end of a run the counter holds its length. -/
theorem runLength_eq_of_run {high : ℕ → Bool} {i n : ℕ}
    (starts : i = 0 ∨ high (i - 1) = false) (all : ∀ j, i ≤ j → j < i + n → high j = true) :
    runLength high 0 (i + n) = n := by
  induction n with
  | zero =>
      rcases starts with rfl | quiet
      · rfl
      · cases i with
        | zero => rfl
        | succ i =>
            rw [Nat.add_sub_cancel] at quiet
            rw [Nat.add_zero, runLength, Nat.zero_add, quiet]
            rfl
  | succ n induction =>
      have last : high (0 + (i + n)) = true := by
        rw [Nat.zero_add]
        exact all (i + n) (by omega) (by omega)
      rw [← Nat.add_assoc, runLength, if_pos last,
        induction fun j lower upper => all j lower (by omega)]

theorem Streak.base_le {high : ℕ → Bool} {consec base j : ℕ} (positive : 0 < consec)
    (streak : Streak high consec base j) : base ≤ j := by
  have := streak.1
  omega

theorem Streak.mono {high : ℕ → Bool} {consec base earlier j : ℕ} (ordered : earlier ≤ base)
    (streak : Streak high consec base j) : Streak high consec earlier j :=
  ⟨by have := streak.1; omega, streak.2⟩

/-- A streak of a stricter detector is one of a looser detector. -/
theorem Streak.loosen {strict loose : ℕ → Bool} {consec fewer base j : ℕ}
    (implies : ∀ i, strict i = true → loose i = true) (ordered : fewer ≤ consec)
    (streak : Streak strict consec base j) : Streak loose fewer base j := by
  obtain ⟨room, all⟩ := streak
  exact ⟨by omega, fun i lower upper => implies i (all i (by omega) upper)⟩

/-- The result of a search: the least index with a property, or `none` when no index has it. -/
def IsFirst (property : ℕ → Prop) : Option ℕ → Prop
  | some i => IsLeast {j | property j} i
  | none => ∀ j, ¬property j

theorem IsFirst.congr {left right : ℕ → Prop} (same : ∀ j, left j ↔ right j)
    {result : Option ℕ} (first : IsFirst left result) : IsFirst right result := by
  rwa [show right = left from funext fun j => propext (same j).symm]

theorem IsFirst.exists_le_of_holds {property : ℕ → Prop} {result : Option ℕ} {i : ℕ}
    (first : IsFirst property result) (holds : property i) : ∃ j ≤ i, result = some j := by
  cases result with
  | none => exact absurd holds (first i)
  | some j => exact ⟨j, first.2 holds, rfl⟩

/-- A weaker property is met first no later. -/
theorem IsFirst.exists_le {strict loose : ℕ → Prop} (implies : ∀ j, strict j → loose j)
    {i : ℕ} (found : IsFirst strict (some i)) {result : Option ℕ} (first : IsFirst loose result) :
    ∃ j ≤ i, result = some j :=
  first.exists_le_of_holds (implies i found.1)

/-! ## The machine -/

/-- The two fields a detector carries from one sample to the next. -/
structure State where
  /-- A disarmed detector waits for a low sample. -/
  armed : Bool
  /-- Number of consecutive high samples counted so far. -/
  run : ℕ
  deriving DecidableEq

/-- The state of a detector that has counted nothing yet. -/
def State.fresh : State := ⟨true, 0⟩

/-- Read one sample; the first component tells whether the detector fires on it. -/
def step (consec : ℕ) (state : State) (high low : Bool) : Bool × State :=
  if !state.armed then
    (false, if low then State.fresh else state)
  else if high then
    if consec ≤ state.run + 1 then (true, ⟨false, 0⟩) else (false, ⟨true, state.run + 1⟩)
  else
    (false, ⟨true, 0⟩)

/-- A detector without debounce that is armed fires on a high sample, which disarms it. -/
theorem step_one_of_armed {state : State} (armed : state.armed = true) (high low : Bool) :
    (step 1 state high low).1 = high ∧ (step 1 state high low).2.armed = !high := by
  rw [step, armed]
  cases high with
  | false => exact ⟨rfl, rfl⟩
  | true => simp

variable (consec : ℕ) (high low : ℕ → Bool)

/-- The state of a fresh detector after the samples before `n`. -/
def stateAt : ℕ → State
  | 0 => State.fresh
  | n + 1 => (step consec (stateAt n) (high n) (low n)).2

/-- A fresh detector fires on sample `n`. -/
def firesAt (n : ℕ) : Bool :=
  (step consec (stateAt consec high low n) (high n) (low n)).1

/-- The firing times of a detector, stated over the history: the first streak fires, and after a
fire at `i` re-armed at the first later low sample `m`, the first streak inside the samples after
`m` fires. -/
inductive Fires : ℕ → Prop
  | first {j : ℕ} : IsLeast {j | Streak high consec 0 j} j → Fires j
  | again {i m j : ℕ} : Fires i → IsLeast {m | i < m ∧ low m = true} m →
      IsLeast {j | Streak high consec (m + 1) j} j → Fires j

/-- What the history has led to just before sample `n`: an armed detector that has seen no streak
since `base`, or one that still waits after its last fire. -/
inductive Phase (n : ℕ) : Prop
  | armed {base : ℕ} : base ≤ n → stateAt consec high low base = State.fresh →
      (∀ j, IsLeast {j | Streak high consec base j} j → Fires consec high low j) →
      (∀ j < n, ¬Streak high consec base j) → Phase n
  | waiting {i : ℕ} : i < n → Fires consec high low i → firesAt consec high low i = true →
      (∀ m, i < m → m < n → low m = false) → Phase n

section Machine

variable {consec high low}

/-- While no streak has been completed the counter is the length of the current run. -/
theorem stateAt_of_quiet {base n : ℕ}
    (fresh : stateAt consec high low base = State.fresh)
    (quiet : ∀ j < base + n, ¬Streak high consec base j) :
    stateAt consec high low (base + n) = ⟨true, runLength high base n⟩ := by
  induction n with
  | zero => simpa [runLength, State.fresh] using fresh
  | succ n induction =>
      have current := induction fun j bound => quiet j (by omega)
      have incomplete : ¬consec ≤ runLength high base (n + 1) := by
        rw [← streak_iff_le_runLength]
        exact quiet (base + n) (by omega)
      rw [runLength] at incomplete ⊢
      rw [← Nat.add_assoc, stateAt, current, step]
      by_cases sample : high (base + n) = true
      · simp only [sample, if_true] at incomplete ⊢
        simp [incomplete]
      · simp [sample]

/-- An armed detector fires exactly where the first streak since it was armed is completed. -/
theorem firesAt_iff_of_quiet (positive : 0 < consec) {base j : ℕ} (ordered : base ≤ j)
    (fresh : stateAt consec high low base = State.fresh)
    (quiet : ∀ i < j, ¬Streak high consec base i) :
    firesAt consec high low j = true ↔ Streak high consec base j := by
  obtain ⟨n, rfl⟩ := Nat.exists_eq_add_of_le ordered
  rw [firesAt, stateAt_of_quiet fresh quiet, step,
    streak_iff_le_runLength, runLength]
  by_cases sample : high (base + n) = true
  · simp only [sample, if_true]
    by_cases complete : consec ≤ runLength high base n + 1 <;> simp [complete]
  · simp [sample]
    omega

theorem stateAt_succ_of_fires {i : ℕ} (fires : firesAt consec high low i = true) :
    stateAt consec high low (i + 1) = ⟨false, 0⟩ := by
  rw [firesAt, step] at fires
  rw [stateAt, step]
  grind

/-- A detector that has fired stays disarmed until a low sample. -/
theorem stateAt_of_disarmed {i n : ℕ} (fires : firesAt consec high low i = true)
    (waiting : ∀ m, i < m → m < i + 1 + n → low m = false) :
    stateAt consec high low (i + 1 + n) = ⟨false, 0⟩ := by
  induction n with
  | zero => exact stateAt_succ_of_fires fires
  | succ n induction =>
      have current := induction fun m lower upper => waiting m lower (by omega)
      have sample : low (i + 1 + n) = false := waiting (i + 1 + n) (by omega) (by omega)
      rw [← Nat.add_assoc, stateAt, current, step]
      simp [sample]

theorem firesAt_eq_false_of_disarmed {n : ℕ}
    (disarmed : (stateAt consec high low n).armed = false) :
    firesAt consec high low n = false := by
  simp [firesAt, step, disarmed]

/-- The first low sample after a fire leaves a detector that has counted nothing. -/
theorem stateAt_of_rearmed {i m : ℕ} (fires : firesAt consec high low i = true)
    (rearms : IsLeast {m | i < m ∧ low m = true} m) :
    stateAt consec high low (m + 1) = State.fresh := by
  obtain ⟨⟨later, sample⟩, least⟩ := rearms
  obtain ⟨n, rfl⟩ := Nat.exists_eq_add_of_le (Nat.succ_le_of_lt later)
  have waiting : ∀ k, i < k → k < i + 1 + n → low k = false := by
    intro k lower upper
    by_contra lowSample
    have := least ⟨lower, by simpa using lowSample⟩
    omega
  rw [stateAt, stateAt_of_disarmed fires waiting, step]
  simp [sample]

theorem Phase.start : Phase consec high low 0 :=
  .armed le_rfl rfl (fun _ least => .first least) (by omega)

theorem Phase.next (positive : 0 < consec) {n : ℕ}
    (phase : Phase consec high low n) :
    Phase consec high low (n + 1) := by
  cases phase with
  | @armed base ordered fresh justified quiet =>
      by_cases streak : Streak high consec base n
      · have least : IsLeast {j | Streak high consec base j} n :=
          ⟨streak, fun j other => Nat.le_of_not_lt fun earlier => quiet j earlier other⟩
        exact .waiting (Nat.lt_succ_self n) (justified n least)
          ((firesAt_iff_of_quiet positive ordered fresh quiet).mpr streak) (by omega)
      · refine .armed (Nat.le_succ_of_le ordered) fresh justified fun j bound => ?_
        rcases Nat.lt_succ_iff_lt_or_eq.mp bound with earlier | rfl
        · exact quiet j earlier
        · exact streak
  | @waiting i later isFire fires noLow =>
      by_cases sample : low n = true
      · have rearms : IsLeast {m | i < m ∧ low m = true} n := by
          refine ⟨⟨later, sample⟩, fun m other => Nat.le_of_not_lt fun earlier => ?_⟩
          have := noLow m other.1 earlier
          simp [other.2] at this
        refine .armed le_rfl (stateAt_of_rearmed fires rearms)
          (fun j least => .again isFire rearms least) fun j bound streak => ?_
        have := streak.base_le positive
        omega
      · refine .waiting (Nat.lt_succ_of_lt later) isFire fires fun m lower upper => ?_
        rcases Nat.lt_succ_iff_lt_or_eq.mp upper with earlier | rfl
        · exact noLow m lower earlier
        · simpa using sample

theorem phase_at (positive : 0 < consec) (n : ℕ) :
    Phase consec high low n := by
  induction n with
  | zero => exact .start
  | succ n induction => exact induction.next positive

theorem firesAt_of_isLeast (positive : 0 < consec) {base j : ℕ}
    (fresh : stateAt consec high low base = State.fresh)
    (least : IsLeast {j | Streak high consec base j} j) : firesAt consec high low j = true :=
  (firesAt_iff_of_quiet positive (least.1.base_le positive) fresh
    fun _ earlier streak => absurd (least.2 streak) (by omega)).mpr least.1

/-- Only a high sample fires. -/
theorem high_of_firesAt {n : ℕ} (fires : firesAt consec high low n = true) : high n = true := by
  rw [firesAt, step] at fires
  by_contra quiet
  rw [Bool.not_eq_true] at quiet
  rw [quiet] at fires
  split at fires <;> simp at fires

/-- The machine fires at exactly the times the history prescribes. -/
theorem fires_iff (positive : 0 < consec) (j : ℕ) :
    firesAt consec high low j = true ↔ Fires consec high low j := by
  constructor
  · intro fires
    cases (phase_at positive j : Phase consec high low j) with
    | @armed base ordered fresh justified quiet =>
        have streak := (firesAt_iff_of_quiet positive ordered fresh quiet).mp fires
        exact justified j
          ⟨streak, fun i other => Nat.le_of_not_lt fun earlier => quiet i earlier other⟩
    | @waiting i later isFire fired noLow =>
        obtain ⟨n, rfl⟩ := Nat.exists_eq_add_of_le (Nat.succ_le_of_lt later)
        have idle : firesAt consec high low (i + 1 + n) = false :=
          firesAt_eq_false_of_disarmed (by rw [stateAt_of_disarmed fired noLow])
        rw [idle] at fires
        contradiction
  · intro isFire
    induction isFire with
    | first least => exact firesAt_of_isLeast positive rfl least
    | again _ rearms least fired =>
        exact firesAt_of_isLeast positive (stateAt_of_rearmed fired rearms) least

/-- A low sample lies between any two fires. -/
theorem exists_low_between {i j : ℕ} (fired : firesAt consec high low i = true)
    (fires : firesAt consec high low j = true) (ordered : i < j) :
    ∃ m, i < m ∧ m < j ∧ low m = true := by
  by_contra none
  push Not at none
  obtain ⟨n, rfl⟩ := Nat.exists_eq_add_of_le (Nat.succ_le_of_lt ordered)
  have waiting : ∀ m, i < m → m < i + 1 + n → low m = false := by
    intro m lower upper
    simpa using none m lower upper
  have idle : firesAt consec high low (i + 1 + n) = false :=
    firesAt_eq_false_of_disarmed (by rw [stateAt_of_disarmed fired waiting])
  rw [idle] at fires
  contradiction

/-- A completed streak is preceded by a fire. -/
theorem exists_firesAt_of_streak (positive : 0 < consec) {i : ℕ}
    (streak : Streak high consec 0 i) : ∃ j ≤ i, firesAt consec high low j = true := by
  classical
  have found : ∃ j, Streak high consec 0 j := ⟨i, streak⟩
  refine ⟨Nat.find found, Nat.find_min' found streak, ?_⟩
  exact firesAt_of_isLeast positive rfl
    ⟨Nat.find_spec found, fun j other => Nat.find_min' found other⟩

/-- A detector fires for the first time at the first streak of the history, if there is one. -/
theorem isFirst_firesAt (positive : 0 < consec) {result : Option ℕ}
    (first : IsFirst (Streak high consec 0) result) :
    IsFirst (fun j => firesAt consec high low j = true) result := by
  have quiet_of_least : ∀ {j}, (∀ i < j, ¬Streak high consec 0 i) →
      firesAt consec high low j = true → Streak high consec 0 j := fun quiet fires =>
    (firesAt_iff_of_quiet positive (Nat.zero_le _) rfl quiet).mp fires
  cases result with
  | none => exact fun j fires => first j (quiet_of_least (fun i _ => first i) fires)
  | some i =>
      refine ⟨firesAt_of_isLeast positive rfl first, fun j fires => ?_⟩
      by_contra earlier
      have quiet : ∀ k < j, ¬Streak high consec 0 k := by
        intro k bound other
        have := first.2 other
        omega
      exact earlier (first.2 (quiet_of_least quiet fires))

end Machine

/-- Searching a delayed sequence delays the result, so it can be compared without the delay. -/
theorem IsFirst.delayed {left right : ℕ → Prop} {delay : ℕ} {result : Option ℕ}
    (transfer : ∀ {found}, IsFirst left found → IsFirst right found)
    (first : IsFirst (fun j => delay ≤ j ∧ left (j - delay)) result) :
    IsFirst (fun j => delay ≤ j ∧ right (j - delay)) result := by
  cases result with
  | none =>
      have absent : IsFirst left none := fun j holds =>
        first (j + delay) ⟨Nat.le_add_left delay j, by rwa [Nat.add_sub_cancel]⟩
      exact fun j found => transfer absent (j - delay) found.2
  | some i =>
      have least : IsFirst left (some (i - delay)) := by
        refine ⟨first.1.2, fun j holds => ?_⟩
        have delayed : delay ≤ j + delay ∧ left (j + delay - delay) :=
          ⟨Nat.le_add_left delay j, by rwa [Nat.add_sub_cancel]⟩
        have : i ≤ j + delay := first.2 delayed
        omega
      obtain ⟨holds, lower⟩ := transfer least
      refine ⟨⟨first.1.1, holds⟩, fun j found => ?_⟩
      have bound : i - delay ≤ j - delay := lower found.2
      have : delay ≤ i := first.1.1
      have : delay ≤ j := found.1
      change i ≤ j
      omega

/-! ## Comparing two detectors -/

/-- The number of times a fresh detector fires on the samples before `n`. -/
def fireCount (consec : ℕ) (high low : ℕ → Bool) (n : ℕ) : ℕ :=
  (List.range n).countP (firesAt consec high low)

/-- Every sample that is high or low for the strict detector is so for the loose one, which asks
for no more high samples in a row. -/
structure Looser (strictConsec : ℕ) (strictHigh strictLow : ℕ → Bool) (looseConsec : ℕ)
    (looseHigh looseLow : ℕ → Bool) : Prop where
  consec_le : looseConsec ≤ strictConsec
  high : ∀ j, strictHigh j = true → looseHigh j = true
  low : ∀ j, strictLow j = true → looseLow j = true
  not_high_of_low : ∀ j, strictLow j = true → looseHigh j = false

/-- The loose detector has fired at least as often; while the strict one is armed, it has fired
once more or is itself armed with a run that is no shorter. -/
def Ahead (strict loose : State) (strictCount looseCount : ℕ) : Prop :=
  strictCount ≤ looseCount ∧ (strict.armed = true →
    strictCount < looseCount ∨ (loose.armed = true ∧ strict.run ≤ loose.run))

section Comparison

variable {strictConsec looseConsec : ℕ} {strictHigh strictLow looseHigh looseLow : ℕ → Bool}

theorem fireCount_succ (consec : ℕ) (high low : ℕ → Bool) (n : ℕ) :
    fireCount consec high low (n + 1) =
      fireCount consec high low n + (firesAt consec high low n).toNat := by
  rw [fireCount, List.range_succ, List.countP_append, fireCount]
  cases fires : firesAt consec high low n <;> simp [fires]

theorem armed_of_fires {consec : ℕ} {state : State} {high low : Bool}
    (fires : (step consec state high low).1 = true) :
    (step consec state high low).2.armed = false := by
  rw [step] at fires ⊢
  grind

/-- One sample keeps the loose detector ahead. -/
theorem Ahead.next
    (looser : Looser strictConsec strictHigh strictLow looseConsec looseHigh looseLow)
    {strict loose : State} {strictCount looseCount : ℕ}
    (ahead : Ahead strict loose strictCount looseCount) (j : ℕ) :
    Ahead (step strictConsec strict (strictHigh j) (strictLow j)).2
      (step looseConsec loose (looseHigh j) (looseLow j)).2
      (strictCount + (step strictConsec strict (strictHigh j) (strictLow j)).1.toNat)
      (looseCount + (step looseConsec loose (looseHigh j) (looseLow j)).1.toNat) := by
  obtain ⟨consec_le, high, low, not_high_of_low⟩ := looser
  obtain ⟨strictArmed, strictRun⟩ := strict
  obtain ⟨looseArmed, looseRun⟩ := loose
  cases strictArmed with
  | false =>
      cases rearms : strictLow j with
      -- the strict detector keeps waiting, so a fire of the loose one only adds to its lead
      | false =>
          refine ⟨?_, by simp [step]⟩
          simpa [step] using Nat.le_add_right_of_le ahead.1
      -- both are armed with an empty run: the loose one is re-armed or sees no high sample
      | true =>
          have empty : (step looseConsec ⟨looseArmed, looseRun⟩ (looseHigh j)
              (looseLow j)).2 = State.fresh := by
            cases looseArmed <;>
              simp [step, State.fresh, low j rearms, not_high_of_low j rearms]
          refine ⟨?_, fun _ => .inr ?_⟩
          · simpa [step] using Nat.le_add_right_of_le ahead.1
          · rw [empty]
            simp [step, State.fresh]
  | true =>
      rcases ahead.2 rfl with lead | ⟨rfl, shorter⟩
      -- a fire of the strict detector uses up the lead and disarms it
      · cases fires : (step strictConsec ⟨true, strictRun⟩ (strictHigh j)
            (strictLow j)).1 with
        | false =>
            have ahead : strictCount < looseCount + (step looseConsec
              ⟨looseArmed, looseRun⟩ (looseHigh j) (looseLow j)).1.toNat := by omega
            exact ⟨ahead.le, fun _ => .inl ahead⟩
        | true =>
            have disarmed := armed_of_fires fires
            refine ⟨?_, fun armed => by simp [disarmed] at armed⟩
            rw [Bool.toNat_true]
            omega
      -- both run in step: the loose detector fires whenever the strict one does
      · change strictRun ≤ looseRun at shorter
        cases sample : strictHigh j with
        | false =>
            cases looseHigh j with
            | false => simpa [Ahead, step, sample] using ahead.1
            | true =>
                rcases Nat.lt_or_ge (looseRun + 1) looseConsec with short | full
                · simpa [Ahead, step, sample, Nat.not_le_of_lt short] using ahead.1
                · have counted : strictCount < looseCount + 1 := Nat.lt_succ_of_le ahead.1
                  simpa [Ahead, step, sample, full, counted] using counted.le
        | true =>
            rcases Nat.lt_or_ge (strictRun + 1) strictConsec with short | full
            · rcases Nat.lt_or_ge (looseRun + 1) looseConsec with looseShort | looseFull
              · simpa [Ahead, step, sample, high j sample, Nat.not_le_of_lt short,
                  Nat.not_le_of_lt looseShort, shorter] using ahead.1
              · have counted : strictCount < looseCount + 1 := Nat.lt_succ_of_le ahead.1
                simpa [Ahead, step, sample, high j sample, Nat.not_le_of_lt short,
                  looseFull, counted] using counted.le
            · have looseFull : looseConsec ≤ looseRun + 1 := by omega
              simpa [Ahead, step, sample, high j sample, full, looseFull] using ahead.1

theorem ahead_at
    (looser : Looser strictConsec strictHigh strictLow looseConsec looseHigh looseLow) (n : ℕ) :
    Ahead (stateAt strictConsec strictHigh strictLow n) (stateAt looseConsec looseHigh looseLow n)
      (fireCount strictConsec strictHigh strictLow n)
      (fireCount looseConsec looseHigh looseLow n) := by
  induction n with
  | zero => exact ⟨le_rfl, fun _ => .inr ⟨rfl, le_rfl⟩⟩
  | succ n induction =>
      rw [fireCount_succ, fireCount_succ]
      exact induction.next looser n

/-- A detector that is looser in its samples and in their number fires at least as often. -/
theorem Looser.fireCount_le
    (looser : Looser strictConsec strictHigh strictLow looseConsec looseHigh looseLow) (n : ℕ) :
    fireCount strictConsec strictHigh strictLow n ≤ fireCount looseConsec looseHigh looseLow n :=
  (ahead_at looser n).1

end Comparison

end Debounce
