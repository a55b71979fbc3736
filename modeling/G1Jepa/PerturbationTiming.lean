import G1Jepa.CollectData
import G1Jepa.Library.Debounce

/-!
# The step of the perturbation

The scheduler counts the steps for which the policy has been in a state, while `min_step` may hold
the event back and every other state resets the count. Over any sequence of policy states it fires
in the first step that is late enough and ends a long enough stay in the state, and in no other.
-/

namespace G1Jepa

variable {K E R Row : Type} [Field K] [LinearOrder K] (env : Env K E R Row)

namespace PerturbationScheduler

/-- Step `t` is not too early, and the policy was in the state at `t` and in each of the `delay`
steps before. -/
structure Due (fireState : PolicyState) (minStep delay : ℤ) (states : ℕ → PolicyState) (t : ℕ) :
    Prop where
  late : minStep ≤ t
  room : delay ≤ t
  now : states t = fireState
  before : ∀ u : ℕ, (t : ℤ) - delay ≤ u → u < t → states u = fireState

/-- The scheduler before step `n`, when step `u` presents the simulator `sims u` and the policy
state `states u` to it. -/
def schedAt (sched : PerturbationScheduler K R) (sims : ℕ → E) (states : ℕ → PolicyState) :
    ℕ → PerturbationScheduler K R
  | 0 => sched
  | n + 1 => ((schedAt sched sims states n).maybeFire env (sims n) n (states n)).2.2

/-- What the call in step `n` returns. -/
def firesAt (sched : PerturbationScheduler K R) (sims : ℕ → E) (states : ℕ → PolicyState)
    (n : ℕ) : Bool :=
  ((schedAt env sched sims states n).maybeFire env (sims n) n (states n)).1

/-- The simulator after the call in step `n`. -/
def simAfter (sched : PerturbationScheduler K R) (sims : ℕ → E) (states : ℕ → PolicyState)
    (n : ℕ) : E :=
  ((schedAt env sched sims states n).maybeFire env (sims n) n (states n)).2.1

/-- The number of steps just before step `n` for which the policy was in the state. -/
def stay (fireState : PolicyState) (states : ℕ → PolicyState) (n : ℕ) : ℕ :=
  Debounce.runLength (fun u => states u == fireState) 0 n

theorem stay_succ (fireState : PolicyState) (states : ℕ → PolicyState) (n : ℕ) :
    stay fireState states (n + 1) =
      if states n = fireState then stay fireState states n + 1 else 0 := by
  rw [stay, Debounce.runLength, Nat.zero_add]
  exact if_congr beq_iff_eq rfl rfl

/-- A step is due when it is late enough and the stay that it ends is longer than the delay. -/
theorem due_iff {fireState : PolicyState} {minStep delay : ℤ} {states : ℕ → PolicyState} {t : ℕ} :
    Due fireState minStep delay states t ↔
      minStep ≤ t ∧ states t = fireState ∧ delay < stay fireState states (t + 1) := by
  have long : delay < stay fireState states (t + 1) ↔
      (delay + 1).toNat ≤ stay fireState states (t + 1) := by omega
  rw [long, stay, Debounce.le_runLength_iff]
  simp only [Nat.zero_add, beq_iff_eq]
  constructor
  · rintro ⟨late, room, now, before⟩
    refine ⟨late, now, by omega, fun u lower upper => ?_⟩
    rcases Nat.lt_succ_iff_lt_or_eq.mp upper with earlier | rfl
    · exact before u (by omega) earlier
    · exact now
  · rintro ⟨late, now, room, stays⟩
    exact ⟨late, by omega, now, fun u lower upper => stays u (by omega) (by omega)⟩

/-- The scheduler's own conditions for its event are met in step `t`. -/
def DueAt (sched : PerturbationScheduler K R) (states : ℕ → PolicyState) : ℕ → Prop :=
  Due sched.fireState sched.minStep sched.delaySteps states

/-- What the calls before step `n` have led to: the scheduler still counts and no step was due, or
it has fired in the first step that was. -/
inductive Timed (sched : PerturbationScheduler K R) (states : ℕ → PolicyState) (n : ℕ)
    (current : PerturbationScheduler K R) : Prop
  | counting : current.fired = false → current.fireStep = none →
      current.inState = stay sched.fireState states n → (∀ t < n, ¬DueAt sched states t) →
      Timed sched states n current
  | done {t : ℕ} : current.fired = true → current.fireStep = some t → t < n →
      IsLeast {t | DueAt sched states t} t → Timed sched states n current

section Calls

variable {env} {sched current after : PerturbationScheduler K R} {s s' : E} {step : ℕ}
  {policyState : PolicyState} {fired : Bool}

/-- No call changes the settings. -/
theorem Called.settings (called : Called env sched s step policyState fired s' after) :
    after.fireState = sched.fireState ∧ after.minStep = sched.minStep ∧
      after.delaySteps = sched.delaySteps ∧ after.enabled = sched.enabled := by
  cases called <;> exact ⟨rfl, rfl, rfl, rfl⟩

/-- A call that fires teleports the object by the recorded displacement; every other call leaves
the simulator alone. -/
theorem Called.teleports (called : Called env sched s step policyState fired s' after) :
    (fired = true → ∃ delta, after.delta = some delta ∧ s' = (env.teleportObject s delta).2) ∧
      (fired = false → s' = s) := by
  cases called with
  | fires => exact ⟨fun _ => ⟨_, rfl, rfl⟩, fun absurdity => by contradiction⟩
  | idle | away | waiting => exact ⟨fun absurdity => by contradiction, fun _ => rfl⟩

end Calls

variable {env} {sched : PerturbationScheduler K R} {sims : ℕ → E} {states : ℕ → PolicyState}

variable (env sched sims states) in
theorem called_schedAt (n : ℕ) : Called env (schedAt env sched sims states n) (sims n) n (states n)
    (firesAt env sched sims states n) (simAfter env sched sims states n)
    (schedAt env sched sims states (n + 1)) :=
  called_maybeFire env (schedAt env sched sims states n) (sims n) n (states n)

variable (env sched sims states) in
theorem schedAt_settings (n : ℕ) :
    (schedAt env sched sims states n).fireState = sched.fireState ∧
      (schedAt env sched sims states n).minStep = sched.minStep ∧
      (schedAt env sched sims states n).delaySteps = sched.delaySteps ∧
      (schedAt env sched sims states n).enabled = sched.enabled := by
  induction n with
  | zero => exact ⟨rfl, rfl, rfl, rfl⟩
  | succ n induction =>
      have kept := (called_schedAt env sched sims states n).settings
      simpa only [induction] using kept

/-- A call in an enabled scheduler keeps the invariant, and fires exactly in the first due step. -/
theorem Timed.next {n : ℕ} (enabled : sched.enabled = true)
    (timed : Timed sched states n (schedAt env sched sims states n)) :
    Timed sched states (n + 1) (schedAt env sched sims states (n + 1)) ∧
      (firesAt env sched sims states n = true ↔ IsLeast {t | DueAt sched states t} n) := by
  have called := called_schedAt env sched sims states n
  obtain ⟨fireState, minStep, delaySteps, active⟩ :=
    schedAt_settings env sched sims states n
  generalize schedAt env sched sims states n = current at *
  generalize schedAt env sched sims states (n + 1) = after at *
  generalize firesAt env sched sims states n = fired at *
  generalize simAfter env sched sims states n = s' at *
  rw [enabled] at active
  cases timed with
  | done finished recorded past least =>
      cases called with
      | idle =>
          refine ⟨.done finished recorded (Nat.lt_succ_of_lt past) least, ?_⟩
          refine iff_of_false (by simp) fun also => ?_
          have := least.unique also
          omega
      | away unfired | waiting _ unfired | fires _ unfired =>
          cases finished.symm.trans unfired
  | counting unfired unrecorded counter quiet =>
      have counted := stay_succ sched.fireState states n
      have extended : ¬DueAt sched states n → ∀ t < n + 1, ¬DueAt sched states t := by
        intro early t bound
        rcases Nat.lt_succ_iff_lt_or_eq.mp bound with before | rfl
        · exact quiet t before
        · exact early
      cases called with
      | idle off =>
          rcases off with disabled | finished
          · cases active.symm.trans disabled
          · cases unfired.symm.trans finished
      | away _ other =>
          rw [fireState] at other
          rw [if_neg other] at counted
          have early : ¬DueAt sched states n := fun due => other due.now
          exact ⟨.counting unfired unrecorded counted.symm (extended early),
            iff_of_false (by simp) fun least => early least.1⟩
      | waiting _ _ stays early =>
          rw [fireState] at stays
          rw [if_pos stays, ← counter] at counted
          have early : ¬DueAt sched states n := by
            rw [DueAt, due_iff, counted]
            rintro ⟨late, -, long⟩
            rw [delaySteps, minStep] at early
            omega
          exact ⟨.counting unfired unrecorded counted.symm (extended early),
            iff_of_false (by simp) fun least => early least.1⟩
      | fires _ _ stays long late =>
          rw [fireState] at stays
          rw [if_pos stays, ← counter] at counted
          have due : DueAt sched states n := by
            rw [DueAt, due_iff, counted]
            exact ⟨minStep ▸ late, stays, delaySteps ▸ long⟩
          have least : IsLeast {t | DueAt sched states t} n :=
            ⟨due, fun t other => Nat.le_of_not_lt fun before => quiet t before other⟩
          exact ⟨.done rfl rfl (Nat.lt_succ_self n) least, iff_of_true rfl least⟩

theorem timed_schedAt (enabled : sched.enabled = true) (unfired : sched.fired = false)
    (unrecorded : sched.fireStep = none) (uncounted : sched.inState = 0) (n : ℕ) :
    Timed sched states n (schedAt env sched sims states n) := by
  induction n with
  | zero => exact .counting unfired unrecorded uncounted fun t absurdity => by contradiction
  | succ n induction => exact (induction.next enabled).1

omit [Field K] [LinearOrder K] in
/-- The recorded step is the first due one, from the step after it on. -/
theorem Timed.fireStep_eq_some_iff {n t : ℕ} {current : PerturbationScheduler K R}
    (timed : Timed sched states n current) :
    current.fireStep = some t ↔ t < n ∧ IsLeast {t | DueAt sched states t} t := by
  cases timed with
  | counting _ unrecorded _ quiet =>
      rw [unrecorded]
      exact iff_of_false (by simp) fun ⟨past, least⟩ => quiet t past least.1
  | done _ recorded past least =>
      rw [recorded, Option.some.injEq]
      constructor
      · rintro rfl
        exact ⟨past, least⟩
      · rintro ⟨-, also⟩
        exact least.unique also

variable (env sims states) in
/-- A disabled scheduler never fires. -/
theorem firesAt_of_disabled (disabled : sched.enabled = false) (n : ℕ) :
    firesAt env sched sims states n = false ∧
      (schedAt env sched sims states n).fireStep = sched.fireStep := by
  have inactive := fun n =>
    (schedAt_settings env sched sims states n).2.2.2.trans disabled
  have idle : ∀ n, firesAt env sched sims states n = false ∧
      (schedAt env sched sims states (n + 1)).fireStep =
        (schedAt env sched sims states n).fireStep := by
    intro n
    have called := called_schedAt env sched sims states n
    have inactive := inactive n
    generalize schedAt env sched sims states n = current at *
    generalize schedAt env sched sims states (n + 1) = after at *
    generalize firesAt env sched sims states n = fired at *
    generalize simAfter env sched sims states n = s' at *
    cases called with
    | fires enabled => cases enabled.symm.trans inactive
    | idle | away | waiting => exact ⟨rfl, rfl⟩
  refine ⟨(idle n).1, ?_⟩
  induction n with
  | zero => rfl
  | succ n induction => exact (idle n).2.trans induction

/-- An enabled scheduler teleports the object in the first step that is not before `min_step` and
in which the policy has been in the state for more than `delay_steps` steps, records that step,
and touches the simulator in no other; a disabled one never does. -/
theorem fires_once_when_due (env : Env K E R Row) (args : SchedulerArgs K) (rng : R)
    (sims : ℕ → E) (states : ℕ → PolicyState) :
    (∀ t, firesAt env (init env args true rng) sims states t = true ↔
        IsLeast {t | Due args.fireState args.minStep (init env args true rng).delaySteps
          states t} t) ∧
      (∀ n t, (schedAt env (init env args true rng) sims states n).fireStep = some t ↔
        t < n ∧ IsLeast {t | Due args.fireState args.minStep
          (init env args true rng).delaySteps states t} t) ∧
      (∀ t, firesAt env (init env args true rng) sims states t = true →
        ∃ delta, (schedAt env (init env args true rng) sims states (t + 1)).delta = some delta ∧
          simAfter env (init env args true rng) sims states t =
            (env.teleportObject (sims t) delta).2) ∧
      (∀ t, firesAt env (init env args true rng) sims states t = false →
        simAfter env (init env args true rng) sims states t = sims t) ∧
      ∀ t, firesAt env (init env args false rng) sims states t = false ∧
        (schedAt env (init env args false rng) sims states t).fireStep = none ∧
        simAfter env (init env args false rng) sims states t = sims t := by
  have timed : ∀ n, Timed (init env args true rng) states n
      (schedAt env (init env args true rng) sims states n) := fun n =>
    timed_schedAt rfl rfl rfl rfl n
  have called := called_schedAt env (init env args true rng) sims states
  refine ⟨fun t => ((timed t).next rfl).2, fun n t => (timed n).fireStep_eq_some_iff,
    fun t => (called t).teleports.1, fun t => (called t).teleports.2, fun t => ?_⟩
  have disabled : (init env args false rng).enabled = false := rfl
  obtain ⟨silent, unrecorded⟩ := firesAt_of_disabled env sims states disabled t
  have idle := called_schedAt env (init env args false rng) sims states t
  exact ⟨silent, unrecorded, idle.teleports.2 silent⟩

end PerturbationScheduler

end G1Jepa
