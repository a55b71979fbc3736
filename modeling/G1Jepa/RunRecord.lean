import G1Jepa.BucketAgreement
import G1Jepa.Library.Debounce

/-!
# The record of a run

`run_episode` assembles its record from the counters of the policy, the scheduler and the loop. An
invariant of the loop ties them to the list `log["replan"]`, from which all of them can be read
off.
-/

namespace G1Jepa

variable {K E R Row σ : Type} [Field K] [LinearOrder K] {env : Env K E R Row}

/-- What an iteration appends to the log and does to `trigger_step`. -/
structure Logged (t : ℕ) (perturbed : EpisodeState K E R Row) (doReplan : Bool)
    (after : EpisodeState K E R Row) : Prop where
  eef : after.log.eef.length = perturbed.log.eef.length + 1
  obj : after.log.obj.length = perturbed.log.obj.length + 1
  state : after.log.state.length = perturbed.log.state.length + 1
  action : after.log.action.length = perturbed.log.action.length + 1
  replan : after.log.replan = perturbed.log.replan ++ [doReplan]
  triggerStep : after.triggerStep =
    if doReplan && perturbed.triggerStep.isNone && perturbed.sched.fired then some t
    else perturbed.triggerStep
  t : after.t = t

theorem logged_of_advanceStage {t : ℕ} {s after : EpisodeState K E R Row} {doReplan left : Bool}
    (ran : advanceStage env t s doReplan = .ok (after, left)) :
    Logged t (perturbStage env t s).2.2 doReplan after := by
  obtain ⟨⟨action, policy⟩, -, returned⟩ := Fallible.bind_eq_ok.mp ran
  obtain ⟨rfl, rfl⟩ := Prod.mk.inj (Except.ok.inj returned)
  exact ⟨List.length_append, List.length_append, List.length_append, List.length_append, rfl, rfl,
    rfl⟩

/-- The steps at which the log says that the policy was replanned. -/
def loggedReplans (replan : List Bool) : List ℕ :=
  (List.range replan.length).filter fun u => replan[u]? == some true

theorem loggedReplans_append_singleton (replan : List Bool) (doReplan : Bool) :
    loggedReplans (replan ++ [doReplan]) =
      loggedReplans replan ++ if doReplan then [replan.length] else [] := by
  have earlier :
      (List.range replan.length).filter (fun u => (replan ++ [doReplan])[u]? == some true) =
        loggedReplans replan := by
    apply List.filter_congr
    intro u inside
    rw [List.getElem?_append_left (List.mem_range.mp inside)]
  rw [loggedReplans, List.length_append, List.length_singleton, List.range_succ,
    List.filter_append, earlier]
  cases doReplan <;> simp

theorem mem_loggedReplans {replan : List Bool} {u : ℕ} :
    u ∈ loggedReplans replan ↔ replan[u]? = some true := by
  rw [loggedReplans, List.mem_filter, List.mem_range, beq_iff_eq]
  exact and_iff_right_of_imp fun found => (List.getElem?_eq_some_iff.mp found).1

theorem loggedReplans_pairwise (replan : List Bool) : (loggedReplans replan).Pairwise (· < ·) :=
  List.pairwise_lt_range.filter _

theorem length_loggedReplans (replan : List Bool) :
    (loggedReplans replan).length = replan.count true := by
  induction replan using List.reverseRecOn with
  | nil => rfl
  | append_singleton replan doReplan induction =>
      rw [loggedReplans_append_singleton, List.length_append, induction, List.count_append]
      cases doReplan <;> rfl

/-- The first replan that does not precede the perturbation. -/
def firstReplanSince (fireStep : Option ℕ) (steps : List ℕ) : Option ℕ :=
  fireStep.bind fun p => steps.find? fun u => decide (p ≤ u)

/-- In an ascending list the search finds the least replan. -/
theorem firstReplanSince_eq_some_iff {fireStep : Option ℕ} {steps : List ℕ} {t : ℕ}
    (ascending : steps.Pairwise (· < ·)) :
    firstReplanSince fireStep steps = some t ↔
      ∃ p, fireStep = some p ∧ IsLeast {u | u ∈ steps ∧ p ≤ u} t := by
  cases fireStep with
  | none => simp [firstReplanSince]
  | some p =>
      have least_of_found : ∀ {u}, steps.find? (fun u => decide (p ≤ u)) = some u →
          IsLeast {u | u ∈ steps ∧ p ≤ u} u := by
        intro u found
        obtain ⟨since, before, after, rfl, early⟩ := List.find?_eq_some_iff_append.mp found
        refine ⟨⟨List.mem_append_right _ List.mem_cons_self, by simpa using since⟩, ?_⟩
        rintro v ⟨member, later⟩
        rcases List.mem_append.mp member with earlier | tail
        · have := early v earlier
          simp [later] at this
        · rcases List.mem_cons.mp tail with rfl | beyond
          · exact le_rfl
          · have ordered := (List.pairwise_append.mp ascending).2.1
            exact ((List.pairwise_cons.mp ordered).1 v beyond).le
      rw [firstReplanSince, Option.bind_some]
      constructor
      · exact fun found => ⟨p, rfl, least_of_found found⟩
      · rintro ⟨q, same, least⟩
        obtain rfl := Option.some.inj same
        cases found : steps.find? (fun u => decide (p ≤ u)) with
        | none =>
            have := List.find?_eq_none.mp found t least.1.1
            simp [least.1.2] at this
        | some u => exact congrArg some ((least_of_found found).unique least)

theorem firstReplanSince_eq_none_iff {fireStep : Option ℕ} {steps : List ℕ} :
    firstReplanSince fireStep steps = none ↔
      ∀ p, fireStep = some p → ¬∃ u ∈ steps, p ≤ u := by
  cases fireStep with
  | none => simp [firstReplanSince]
  | some p => simp [firstReplanSince, List.find?_eq_none]

/-- The counters of the policy, the scheduler and the loop after `t` iterations. -/
structure Recorded (condition : Condition) (t : ℕ) (s : EpisodeState K E R Row) : Prop where
  planned : s.policy.target.isSome
  eef : s.log.eef.length = t
  obj : s.log.obj.length = t
  state : s.log.state.length = t
  action : s.log.action.length = t
  replan : s.log.replan.length = t
  nReplans : s.policy.nReplans = s.policy.replanSteps.length
  replanSteps : s.policy.replanSteps = loggedReplans s.log.replan
  fired : s.sched.fired = s.sched.fireStep.isSome
  fireStep : ∀ p, s.sched.fireStep = some p → p < t
  triggerStep : s.triggerStep = firstReplanSince s.sched.fireStep s.policy.replanSteps
  oracle : condition = .oracle → s.policy.replanSteps = s.sched.fireStep.toList

/-- An iteration that may fire and may replan moves the first replan as `trigger_step` moves. -/
theorem firstReplanSince_next {fireStep fireStep' : Option ℕ} {steps : List ℕ} {t : ℕ}
    {fired : Bool} (doReplan : Bool) (past : ∀ u ∈ steps, u < t)
    (earlier : ∀ p, fireStep = some p → p < t)
    (fires : fireStep' = if fired then some t else fireStep)
    (once : fired = true → fireStep = none) :
    firstReplanSince fireStep' (steps ++ if doReplan then [t] else []) =
      if doReplan && (firstReplanSince fireStep steps).isNone && fireStep'.isSome then some t
      else firstReplanSince fireStep steps := by
  cases fired with
  | true =>
      have none_since : steps.find? (fun u => decide (t ≤ u)) = none := by
        rw [List.find?_eq_none]
        intro u member
        simpa using past u member
      obtain rfl := once rfl
      obtain rfl := fires
      cases doReplan <;> simp [firstReplanSince, none_since]
  | false =>
      obtain rfl : fireStep' = fireStep := fires
      cases fireStep' with
      | none => simp [firstReplanSince]
      | some p =>
          have since : p ≤ t := (earlier p rfl).le
          cases doReplan with
          | false => simp [firstReplanSince]
          | true =>
              cases found : steps.find? (fun u => decide (p ≤ u)) <;>
                simp [firstReplanSince, List.find?_append, found, since]

/-- The counters of the policy after an iteration. -/
theorem replans_of_advanced {t : ℕ} {perturbed after : EpisodeState K E R Row}
    {doReplan left : Bool}
    (planned : perturbed.policy.target.isSome)
    (advanced : Advanced env t perturbed doReplan after left) :
    after.policy.target.isSome ∧
      after.policy.nReplans = perturbed.policy.nReplans + doReplan.toNat ∧
      after.policy.replanSteps =
        perturbed.policy.replanSteps ++ if doReplan then [t] else [] := by
  obtain ⟨action, acts, -, -⟩ := advanced.acted
  cases doReplan with
  | false =>
      obtain ⟨nReplans, replanSteps⟩ := ScriptedPickPlace.act_replans planned acts
      refine ⟨?_, nReplans, replanSteps.trans (List.append_nil _).symm⟩
      rw [(ScriptedPickPlace.acted_of_act planned acts).target]
      exact planned
  | true =>
      have replanned := perturbed.policy.replanned env perturbed.sim (some t) true
      obtain ⟨counted, appended⟩ :=
        perturbed.policy.replan_counters env perturbed.sim (some t) true
      obtain ⟨nReplans, replanSteps⟩ := ScriptedPickPlace.act_replans replanned.planned acts
      refine ⟨?_, nReplans.trans counted, replanSteps.trans appended⟩
      rw [(ScriptedPickPlace.acted_of_act replanned.planned acts).target]
      exact replanned.planned

omit [LinearOrder K] in
/-- In the condition `oracle` the policy is replanned exactly when the scheduler fires. -/
theorem decideReplan_of_oracle {setting : ReplanSetting K E σ} {trigger after : Option σ} {t : ℕ}
    {fired doReplan : Bool} {sim : E} {policy : ScriptedPickPlace K}
    (oracle : setting.condition = .oracle)
    (decided : decideReplan setting trigger t fired sim policy = .ok (doReplan, after)) :
    doReplan = fired := by
  simp only [decideReplan, oracle] at decided
  exact (Prod.mk.inj (Except.ok.inj decided)).1.symm

theorem recorded_start (condition : Condition) (args : EpisodeArgs K) (s : E) :
    Recorded condition 0 (episodeStart env args s) := by
  obtain ⟨nReplans, replanSteps⟩ := (ScriptedPickPlace.init args.policyKwargs).replan_counters env
    (seededReset env args.seed s) none false
  have unplanned : (episodeStart env args s).policy.replanSteps = [] := replanSteps
  exact
    { planned := ((ScriptedPickPlace.init args.policyKwargs).replanned env
        (seededReset env args.seed s) none false).planned
      eef := rfl
      obj := rfl
      state := rfl
      action := rfl
      replan := rfl
      nReplans := by
        rw [unplanned]
        exact nReplans
      replanSteps := unplanned
      fired := rfl
      fireStep := fun p absurdity => by contradiction
      triggerStep := rfl
      oracle := fun _ => unplanned }

/-- One iteration keeps the counters and the log consistent. -/
theorem Recorded.next {setting : ReplanSetting K E σ} {t : ℕ} {before after : RunState K E R Row σ}
    {left : Bool} (recorded : Recorded setting.condition t before.episode)
    (ran : runStep env setting t before = .ok (after, left)) :
    Recorded setting.condition (t + 1) after.episode ∧ after.episode.t = t := by
  obtain ⟨doReplan, decided, advances⟩ := runStep_eq_ok ran
  have logged := logged_of_advanceStage advances
  have advanced := advanced_of_advanceStage advances
  have target : (perturbStage env t before.episode).2.2.policy.target.isSome := recorded.planned
  obtain ⟨planned, nReplans, replanSteps⟩ := replans_of_advanced target advanced
  have called := PerturbationScheduler.called_maybeFire env before.episode.sched
    before.episode.sim t before.episode.policy.state
  obtain ⟨fired, fireStep, once⟩ := called.fireStep_eq recorded.fired
  have sched : after.episode.sched = (before.episode.sched.maybeFire env before.episode.sim t
      before.episode.policy.state).2.2 := advanced.sched
  rw [← sched] at fired fireStep
  have replanSteps : after.episode.policy.replanSteps =
      before.episode.policy.replanSteps ++ if doReplan then [t] else [] := replanSteps
  have past : ∀ u ∈ before.episode.policy.replanSteps, u < t := by
    intro u member
    rw [recorded.replanSteps, mem_loggedReplans] at member
    have inside := (List.getElem?_eq_some_iff.mp member).1
    rwa [recorded.replan] at inside
  have moved := firstReplanSince_next doReplan past recorded.fireStep fireStep once
  refine ⟨?_, logged.t⟩
  exact
    { planned
      eef := logged.eef.trans (congrArg (· + 1) recorded.eef)
      obj := logged.obj.trans (congrArg (· + 1) recorded.obj)
      state := logged.state.trans (congrArg (· + 1) recorded.state)
      action := logged.action.trans (congrArg (· + 1) recorded.action)
      replan := by
        rw [logged.replan, List.length_append]
        exact congrArg (· + 1) recorded.replan
      nReplans := by
        rw [nReplans, replanSteps, List.length_append, ← recorded.nReplans]
        cases doReplan <;> rfl
      replanSteps := by
        rw [replanSteps, logged.replan, loggedReplans_append_singleton, recorded.replanSteps]
        exact congrArg (fun n => _ ++ if doReplan then [n] else []) recorded.replan.symm
      fired
      fireStep := by
        intro p fires
        rw [fireStep] at fires
        split at fires
        case isTrue =>
          obtain rfl := Option.some.inj fires
          exact Nat.lt_succ_self t
        case isFalse => exact Nat.lt_succ_of_lt (recorded.fireStep p fires)
      triggerStep := by
        rw [logged.triggerStep, replanSteps, moved, ← advanced.sched, fired]
        exact congrArg (fun u : Option ℕ =>
          if doReplan && u.isNone && after.episode.sched.fireStep.isSome then some t else u)
          recorded.triggerStep
      oracle := by
        intro oracle
        have fires : doReplan = (before.episode.sched.maybeFire env before.episode.sim t
            before.episode.policy.state).1 := decideReplan_of_oracle oracle decided
        rw [← fires] at fireStep once
        rw [replanSteps, recorded.oracle oracle, fireStep]
        cases doReplan with
        | false => exact List.append_nil _
        | true =>
            rw [once rfl]
            rfl }

/-- The state from which the record is assembled. -/
theorem recorded_of_runEpisode {setting : ReplanSetting K E σ} {args : EpisodeArgs K} {s sim : E}
    {result : RunResult K Row} {trigger : Option σ} (positive : 1 ≤ args.maxSteps)
    (ran : runEpisode env setting args s = .ok (result, sim, trigger)) :
    ∃ state : RunState K E R Row σ, result = runResult setting args state ∧
      Recorded setting.condition (state.episode.t + 1) state.episode := by
  obtain ⟨state, left, looped, rfl, -⟩ := exists_runLoop ran
  refine ⟨state, rfl, ?_⟩
  obtain ⟨n, steps⟩ := Nat.exists_eq_add_of_le' positive
  rw [steps] at looped
  obtain ⟨t, before, -, running, last⟩ := ForRange.exists_iteration looped
  have recorded : Recorded setting.condition t before.episode := by
    refine @ForRange.loop_invariant _ _ _ _
      (fun t state => Recorded setting.condition t state.episode) ?_ ?_ t before running
    · exact recorded_start setting.condition args s
    · intro t before after left _ recorded ran
      exact (recorded.next ran).1
  obtain ⟨final, index⟩ := recorded.next last
  rwa [index]

/-- The fields of the record agree with each other and with the log, in every run of at least one
step. -/
theorem record_consistent {setting : ReplanSetting K E σ} {args : EpisodeArgs K} {s sim : E}
    {result : RunResult K Row} {trigger : Option σ} (positive : 1 ≤ args.maxSteps)
    (ran : runEpisode env setting args s = .ok (result, sim, trigger)) :
    (result.nReplans = result.replanSteps.length ∧
        result.nReplans = result.log.replan.count true) ∧
      (result.replanSteps.Pairwise (· < ·) ∧
        ∀ t, t ∈ result.replanSteps ↔ result.log.replan[t]? = some true) ∧
      (result.log.eef.length = result.steps ∧ result.log.obj.length = result.steps ∧
        result.log.state.length = result.steps ∧ result.log.action.length = result.steps ∧
        result.log.replan.length = result.steps) ∧
      (∀ t, result.triggerStep = some t ↔ ∃ p, result.perturbStep = some p ∧
        IsLeast {u | u ∈ result.replanSteps ∧ p ≤ u} t) ∧
      (result.triggerStep = none ↔ result.perturbed = false ∨
        ∀ p, result.perturbStep = some p → ¬∃ u ∈ result.replanSteps, p ≤ u) ∧
      (∀ latency, result.triggerLatency = some latency → 0 ≤ latency) ∧
      result.perturbed = result.perturbStep.isSome ∧
      (result.condition = .oracle → result.replanSteps = result.perturbStep.toList) := by
  obtain ⟨state, rfl, recorded⟩ := recorded_of_runEpisode positive ran
  have ascending : state.episode.policy.replanSteps.Pairwise (· < ·) := by
    rw [recorded.replanSteps]
    exact loggedReplans_pairwise _
  have triggered : ∀ t, state.episode.triggerStep = some t ↔ ∃ p,
      state.episode.sched.fireStep = some p ∧
        IsLeast {u | u ∈ state.episode.policy.replanSteps ∧ p ≤ u} t := by
    intro t
    rw [recorded.triggerStep]
    exact firstReplanSince_eq_some_iff ascending
  refine ⟨⟨recorded.nReplans, ?_⟩, ⟨ascending, ?_⟩, ?_, triggered, ?_, ?_, recorded.fired,
    recorded.oracle⟩
  · have counted := recorded.nReplans
    rwa [recorded.replanSteps, length_loggedReplans] at counted
  · intro t
    have member : t ∈ loggedReplans state.episode.log.replan ↔ _ := mem_loggedReplans
    rwa [← recorded.replanSteps] at member
  · exact ⟨recorded.eef, recorded.obj, recorded.state, recorded.action, recorded.replan⟩
  · have untriggered := @firstReplanSince_eq_none_iff state.episode.sched.fireStep
      state.episode.policy.replanSteps
    rw [← recorded.triggerStep] at untriggered
    refine untriggered.trans (or_iff_right_of_imp fun unfired p fires => ?_).symm
    have fired := recorded.fired
    rw [show state.episode.sched.fired = false from unfired, fires] at fired
    contradiction
  · intro latency computed
    obtain ⟨t, trigger, rest⟩ := Option.bind_eq_some_iff.mp computed
    obtain ⟨p, fires, difference⟩ := Option.bind_eq_some_iff.mp rest
    obtain ⟨q, same, least⟩ := (triggered t).mp trigger
    obtain rfl := Option.some.inj (fires.symm.trans same)
    have since : p ≤ t := least.1.2
    have difference := Option.some.inj difference
    omega

/-- On the descent the scheduler fires once and the policy is replanned in that step. -/
theorem record_consistent_oracle :
    ∃ result sim trigger,
      runEpisode glidingEnv { glidingSetting with condition := .oracle } { maxSteps := 26 } 0 =
        .ok (result, sim, trigger) ∧
        result.perturbStep = some 24 ∧ result.replanSteps = result.perturbStep.toList := by
  have runs : Fallible.Returns
      (runEpisode glidingEnv { glidingSetting with condition := .oracle } { maxSteps := 26 } 0)
      fun outcome => outcome.1.perturbStep = some 24 ∧ outcome.1.condition = .oracle := by
    decide +kernel
  obtain ⟨⟨result, sim, trigger⟩, ran, fires, oracle⟩ := runs.exists_eq_ok
  obtain ⟨-, -, -, -, -, -, -, replans⟩ := record_consistent (by decide) ran
  exact ⟨result, sim, trigger, ran, fires, replans oracle⟩

end G1Jepa
