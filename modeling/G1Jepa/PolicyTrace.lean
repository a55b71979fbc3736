import G1Jepa.ScriptedPickPlace
import G1Jepa.Library.Debounce
import G1Jepa.Library.Fallible

/-!
# Grasps and lifts of the scripted policy

The calls of `act` in any interleaving with `replan`. The counter of the grasp is never reset when
`GRASP` is entered, and the height of the lift is set only when it is left; an invariant over the
calls so far shows that every visit to `GRASP` still has the full length and that every lift
starts from the height of the last grasp.
-/

namespace G1Jepa

variable {K E R Row : Type}

/-- One call of `act`: the state whose branch it executed, the action it issued, the gripper
height it read and the height that a lift compares with. -/
structure ActCall (K : Type) where
  executed : PolicyState
  action : Fin 7 → K
  eefHeight : K
  liftFrom : Option K

/-! ## Visits -/

/-- Call `j` executes `GRASP`. -/
def inGrasp (calls : List (ActCall K)) (j : ℕ) : Bool :=
  calls[j]?.any fun call => call.executed == .grasp

/-- The number of calls at the end that execute `GRASP`. -/
def dwell (calls : List (ActCall K)) : ℕ :=
  Debounce.runLength (inGrasp calls) 0 calls.length

/-- The last of the calls that execute `GRASP`. -/
def lastGrasp (calls : List (ActCall K)) : Option (ActCall K) :=
  (calls.filter fun call => call.executed == .grasp).getLast?

/-- The `n` calls from `i` on are a visit to `GRASP`: they execute it and their neighbours do
not. -/
structure GraspVisit (calls : List (ActCall K)) (i n : ℕ) : Prop where
  nonempty : 0 < n
  grasps : ∀ j, i ≤ j → j < i + n → inGrasp calls j = true
  starts : i = 0 ∨ inGrasp calls (i - 1) = false
  ends : inGrasp calls (i + n) = false

section Calls

variable {calls : List (ActCall K)} {call : ActCall K}

theorem dwell_append_singleton (calls : List (ActCall K)) (call : ActCall K) :
    dwell (calls ++ [call]) = if call.executed = .grasp then dwell calls + 1 else 0 := by
  have earlier : Debounce.runLength (inGrasp (calls ++ [call])) 0 calls.length = dwell calls := by
    apply Debounce.runLength_congr
    intro i bound
    rw [Nat.zero_add, inGrasp, inGrasp, List.getElem?_append_left bound]
  have last : inGrasp (calls ++ [call]) (0 + calls.length) = (call.executed == .grasp) := by
    rw [inGrasp, Nat.zero_add, List.getElem?_concat_length, Option.any_some]
  rw [dwell, List.length_append, List.length_singleton, Debounce.runLength, earlier, last]
  exact if_congr beq_iff_eq rfl rfl

theorem lastGrasp_append_of_grasp (calls : List (ActCall K)) (grasps : call.executed = .grasp) :
    lastGrasp (calls ++ [call]) = some call := by
  simp [lastGrasp, List.filter_append, grasps]

theorem lastGrasp_append_of_ne (calls : List (ActCall K)) (other : call.executed ≠ .grasp) :
    lastGrasp (calls ++ [call]) = lastGrasp calls := by
  simp [lastGrasp, List.filter_append, other]

/-- The visit at the end of the first `m` calls. -/
theorem dwell_take {m : ℕ} (inside : m ≤ calls.length) :
    dwell (calls.take m) = Debounce.runLength (inGrasp calls) 0 m := by
  rw [dwell, List.length_take_of_le inside]
  apply Debounce.runLength_congr
  intro i bound
  rw [Nat.zero_add, inGrasp, inGrasp, List.getElem?_take_of_lt bound]

theorem inGrasp_of_getElem? {j : ℕ} (found : calls[j]? = some call) :
    inGrasp calls j = (call.executed == .grasp) := by
  rw [inGrasp, found, Option.any_some]

theorem exists_call_of_inGrasp {j : ℕ} (grasps : inGrasp calls j = true) :
    ∃ call, calls[j]? = some call ∧ call.executed = .grasp := by
  rw [inGrasp, Option.any_eq_true] at grasps
  obtain ⟨call, found, executed⟩ := grasps
  exact ⟨call, found, beq_iff_eq.mp executed⟩

theorem GraspVisit.end_le {i n : ℕ} (visit : GraspVisit calls i n) : i + n ≤ calls.length := by
  have positive := visit.nonempty
  obtain ⟨call, found, -⟩ := exists_call_of_inGrasp (visit.grasps (i + n - 1) (by omega) (by omega))
  have := (List.getElem?_eq_some_iff.mp found).1
  omega

theorem GraspVisit.dwell_eq {i n : ℕ} (visit : GraspVisit calls i n) :
    dwell (calls.take (i + n)) = n := by
  rw [dwell_take visit.end_le]
  exact Debounce.runLength_eq_of_run visit.starts visit.grasps

/-- The calls counted before a call that does not execute `GRASP` are a visit. -/
theorem exists_graspVisit {m : ℕ} (inside : m ≤ calls.length)
    (counted : dwell (calls.take m) ≠ 0) (ends : inGrasp calls m = false) :
    ∃ i n, GraspVisit calls i n ∧ i + n = m := by
  obtain ⟨bound, grasps, starts⟩ := Debounce.run_of_runLength (inGrasp calls) m
  rw [← dwell_take inside] at bound grasps starts
  have covers : m - dwell (calls.take m) + dwell (calls.take m) = m := Nat.sub_add_cancel bound
  refine ⟨_, _, ⟨Nat.pos_of_ne_zero counted, ?_, starts, ?_⟩, covers⟩
  · rwa [covers]
  · rwa [covers]

/-- A property of every call and the calls before it is extended by one call. -/
theorem history_append {Proper : List (ActCall K) → ActCall K → Prop}
    (history : ∀ j call, calls[j]? = some call → Proper (calls.take j) call)
    (last : Proper calls call) :
    ∀ j other, (calls ++ [call])[j]? = some other → Proper ((calls ++ [call]).take j) other := by
  intro j other found
  rcases Nat.lt_or_ge j calls.length with earlier | late
  · rw [List.getElem?_append_left earlier] at found
    rw [List.take_append_of_le_length earlier.le]
    exact history j other found
  · rw [List.getElem?_append_right late, List.getElem?_singleton] at found
    obtain ⟨position, same⟩ := Option.ite_none_right_eq_some.mp found
    obtain rfl : j = calls.length := by omega
    obtain rfl := Option.some.inj same
    rw [List.take_left]
    exact last

end Calls

/-! ## Operations -/

/-- An operation on the policy and the simulator state that it reads. -/
inductive PolicyOp (E : Type)
  | act (s : E)
  | replan (s : E) (step : Option ℕ) (count : Bool)

variable [Field K]

/-- The action of every grasp: no motion and a closed gripper. -/
def graspAction : Fin 7 → K := ![0, 0, 0, 0, 0, 0, 1]

section Perform

variable [LinearOrder K] (env : Env K E R Row)

/-- The record of a call of `act` and the policy after it. -/
def ScriptedPickPlace.actCall (policy : ScriptedPickPlace K) (s : E) :
    Except PyError (ActCall K × ScriptedPickPlace K) := do
  let (action, after) ← policy.act env s
  .ok ({ executed := policy.executedState env s, action, eefHeight := env.getEefPos s 2
         liftFrom := policy.liftFrom }, after)

variable {env} in
theorem ScriptedPickPlace.actCall_of_act {policy after : ScriptedPickPlace K} {s : E}
    {action : Fin 7 → K} (acts : policy.act env s = .ok (action, after)) :
    policy.actCall env s = .ok (⟨policy.executedState env s, action, env.getEefPos s 2,
      policy.liftFrom⟩, after) := by
  rw [actCall, acts]
  rfl

/-- The action of a call of `act`, or zero when it raises. -/
def issuedAction : Except PyError (ActCall K × ScriptedPickPlace K) → Fin 7 → K
  | .ok (call, _) => call.action
  | .error _ => 0

/-- The calls of `act` that an operation makes, and the policy after it. -/
def perform (policy : ScriptedPickPlace K) :
    PolicyOp E → Except PyError (List (ActCall K) × ScriptedPickPlace K)
  | .act s => do
      let (call, after) ← policy.actCall env s
      .ok ([call], after)
  | .replan s step count => .ok ([], policy.replan env s step count)

/-- The calls of `act` among a sequence of operations, and the policy after them. -/
def performAll : ScriptedPickPlace K → List (PolicyOp E) →
    Except PyError (List (ActCall K) × ScriptedPickPlace K)
  | policy, [] => .ok ([], policy)
  | policy, op :: ops => do
      let (calls, between) ← perform env policy op
      let (rest, after) ← performAll between ops
      .ok (calls ++ rest, after)

end Perform

/-! ## The invariant -/

/-- What holds of a call after the calls `earlier`. -/
structure ProperCall (graspSteps : ℤ) (earlier : List (ActCall K)) (call : ActCall K) : Prop where
  grasps : call.executed = .grasp →
    call.action = graspAction ∧ (dwell earlier + 1 : ℕ) ≤ max 1 graspSteps
  leaves : call.executed ≠ .grasp → dwell earlier = 0 ∨ (dwell earlier : ℤ) = max 1 graspSteps
  lifts : call.executed = .lift → call.liftFrom.isSome ∧
    call.liftFrom = (lastGrasp earlier).map ActCall.eefHeight
  enters : call.executed = .lift → dwell earlier = 0 →
    earlier.getLast?.map ActCall.executed = some .lift

/-- The invariant of the counter and of the lift height, `calls` being the calls so far. -/
structure Dwelling (kwargs : PolicyKwargs K) (policy : ScriptedPickPlace K)
    (calls : List (ActCall K)) : Prop where
  planned : policy.target.isSome
  keywords : policy.toPolicyKwargs = kwargs
  reaching : policy.state = .approach ∨ policy.state = .descend → policy.graspCounter = 0
  grasping : policy.state = .grasp → policy.graspCounter = dwell calls ∧
    (dwell calls = 0 ∨ (dwell calls : ℤ) < kwargs.graspSteps)
  elsewhere : policy.state ≠ .grasp →
    dwell calls = 0 ∨ (dwell calls : ℤ) = max 1 kwargs.graspSteps
  lifting : policy.state = .lift ∨ policy.state = .done → policy.liftFrom.isSome ∧
    policy.liftFrom = (lastGrasp calls).map ActCall.eefHeight
  entered : policy.state = .lift → dwell calls = 0 →
    calls.getLast?.map ActCall.executed = some .lift
  history : ∀ j call, calls[j]? = some call → ProperCall kwargs.graspSteps (calls.take j) call

variable [LinearOrder K] {env : Env K E R Row} {kwargs : PolicyKwargs K}
  {policy after : ScriptedPickPlace K} {calls : List (ActCall K)} {s : E}

theorem dwelling_init (s : E) (step : Option ℕ) (count : Bool) :
    Dwelling kwargs ((ScriptedPickPlace.init kwargs).replan env s step count) [] := by
  obtain ⟨planned, keywords, -, -⟩ := (ScriptedPickPlace.init kwargs).replanned env s step count
  obtain ⟨state, counter⟩ := ScriptedPickPlace.init_replan_approach env kwargs s step count
  exact
    { planned
      keywords
      reaching := fun _ => counter
      grasping := fun grasp => by simp [state] at grasp
      elsewhere := fun _ => .inl rfl
      lifting := fun lifts => by simp [state] at lifts
      entered := fun lift => by simp [state] at lift
      history := fun j call found => by simp at found }

omit [LinearOrder K] in
/-- A replan only ever sends an approach back to its start. -/
theorem Dwelling.replan (dwelling : Dwelling kwargs policy calls)
    (replanned : ScriptedPickPlace.Replanned policy after) : Dwelling kwargs after calls := by
  obtain ⟨planned, keywords, liftFrom, state⟩ := replanned
  have keywords := keywords.trans dwelling.keywords
  rcases state with ⟨state, counter⟩ | ⟨reaches, state, counter⟩
  · exact
      { planned
        keywords
        reaching := by
          rw [state, counter]
          exact dwelling.reaching
        grasping := by
          rw [state, counter]
          exact dwelling.grasping
        elsewhere := by
          rw [state]
          exact dwelling.elsewhere
        lifting := by
          rw [state, liftFrom]
          exact dwelling.lifting
        entered := by
          rw [state]
          exact dwelling.entered
        history := dwelling.history }
  · have moving : policy.state ≠ .grasp := by
      rcases reaches with approach | descend
      · simp [approach]
      · simp [descend]
    exact
      { planned
        keywords
        reaching := fun _ => counter
        grasping := fun grasp => by simp [state] at grasp
        elsewhere := fun _ => dwelling.elsewhere moving
        lifting := fun lifts => by simp [state] at lifts
        entered := fun lift => by simp [state] at lift
        history := dwelling.history }

/-- An aborted lift approaches again with an empty counter. -/
theorem Dwelling.abort (dwelling : Dwelling kwargs policy calls) (s : E) :
    Dwelling kwargs (policy.abortFailedLift env s).countPhaseStep calls := by
  have planned := @ScriptedPickPlace.planned_countPhaseStep K E R Row _ _ env policy s
    dwelling.planned
  rcases policy.abortFailedLift_cases env s with kept | ⟨lifts, aborted⟩
  · rw [kept] at planned ⊢
    exact ⟨planned, dwelling.keywords, dwelling.reaching, dwelling.grasping, dwelling.elsewhere,
      dwelling.lifting, dwelling.entered, dwelling.history⟩
  · have moving : policy.state ≠ .grasp := by
      rcases lifts with lift | done
      · simp [lift]
      · simp [done]
    rw [aborted] at planned ⊢
    exact
      { planned
        keywords := dwelling.keywords
        reaching := fun _ => rfl
        grasping := fun grasp => by simp [ScriptedPickPlace.countPhaseStep] at grasp
        elsewhere := fun _ => dwelling.elsewhere moving
        lifting := fun lifts => by simp [ScriptedPickPlace.countPhaseStep] at lifts
        entered := fun lift => by simp [ScriptedPickPlace.countPhaseStep] at lift
        history := dwelling.history }

/-- The record of a branch that executes the current state of the policy. -/
def branchCall (env : Env K E R Row) (policy : ScriptedPickPlace K) (s : E)
    (action : Fin 7 → K) : ActCall K where
  executed := policy.state
  action
  eefHeight := env.getEefPos s 2
  liftFrom := policy.liftFrom

/-- A branch that does not grasp ends the visit before it. -/
theorem Dwelling.properCall (dwelling : Dwelling kwargs policy calls)
    (other : policy.state ≠ .grasp) (action : Fin 7 → K) :
    ProperCall kwargs.graspSteps calls (branchCall env policy s action) where
  grasps grasp := absurd grasp other
  leaves _ := dwelling.elsewhere other
  lifts lift := dwelling.lifting (.inl lift)
  enters lift := dwelling.entered lift

theorem Dwelling.properCall_grasp (dwelling : Dwelling kwargs policy calls)
    (grasp : policy.state = .grasp) :
    ProperCall kwargs.graspSteps calls (branchCall env policy s graspAction) := by
  have bound := (dwelling.grasping grasp).2
  refine ⟨fun _ => ⟨rfl, by omega⟩, fun other => absurd grasp other, ?_, ?_⟩ <;>
    intro lift <;> cases grasp.symm.trans lift

theorem Dwelling.branch_reach (dwelling : Dwelling kwargs policy calls) (action : Fin 7 → K)
    {state : PolicyState} (reaches : policy.state = .approach ∨ policy.state = .descend)
    (follows : state = policy.state ∨ state = policy.state.next) :
    Dwelling kwargs { policy with state } (calls ++ [branchCall env policy s action]) := by
  have other : policy.state ≠ .grasp := by
    rcases reaches with approach | descend
    · simp [approach]
    · simp [descend]
  have counter := dwelling.reaching reaches
  have counted : dwell (calls ++ [branchCall env policy s action]) = 0 :=
    (dwell_append_singleton calls _).trans (if_neg other)
  have unlifted : ¬(state = .lift ∨ state = .done) := by
    rcases reaches with equality | equality <;> rcases follows with rfl | rfl <;>
      simp [equality, PolicyState.next]
  exact
    { planned := dwelling.planned
      keywords := dwelling.keywords
      reaching := fun _ => counter
      grasping := fun _ => ⟨counter.trans counted.symm, .inl counted⟩
      elsewhere := fun _ => .inl counted
      lifting := fun lifts => absurd lifts unlifted
      entered := fun lift => absurd (.inl lift) unlifted
      history := history_append dwelling.history (dwelling.properCall other action) }

theorem Dwelling.branch_dwell (dwelling : Dwelling kwargs policy calls)
    (grasp : policy.state = .grasp) (short : (policy.graspCounter + 1 : ℕ) < policy.graspSteps) :
    Dwelling kwargs { policy with graspCounter := policy.graspCounter + 1 }
      (calls ++ [branchCall env policy s graspAction]) := by
  obtain ⟨counter, bound⟩ := dwelling.grasping grasp
  have counted : dwell (calls ++ [branchCall env policy s graspAction]) = dwell calls + 1 :=
    (dwell_append_singleton calls _).trans (if_pos grasp)
  rw [dwelling.keywords, counter] at short
  exact
    { planned := dwelling.planned
      keywords := dwelling.keywords
      reaching := fun reaches => by simp [grasp] at reaches
      grasping := fun _ => ⟨by rw [counted, counter], .inr (by rwa [counted])⟩
      elsewhere := fun other => absurd grasp other
      lifting := fun lifts => by simp [grasp] at lifts
      entered := fun lift => by simp [grasp] at lift
      history := history_append dwelling.history (dwelling.properCall_grasp grasp) }

/-- The visit that ends here has lasted its steps, and the lift starts from where it is. -/
theorem Dwelling.branch_lift (dwelling : Dwelling kwargs policy calls)
    (grasp : policy.state = .grasp) (full : policy.graspSteps ≤ (policy.graspCounter + 1 : ℕ)) :
    Dwelling kwargs
      { policy with
        graspCounter := policy.graspCounter + 1, state := .lift
        liftFrom := some (env.getEefPos s 2) }
      (calls ++ [branchCall env policy s graspAction]) := by
  obtain ⟨counter, bound⟩ := dwelling.grasping grasp
  have counted : dwell (calls ++ [branchCall env policy s graspAction]) = dwell calls + 1 :=
    (dwell_append_singleton calls _).trans (if_pos grasp)
  have recorded : lastGrasp (calls ++ [branchCall env policy s graspAction]) =
      some (branchCall env policy s graspAction) := lastGrasp_append_of_grasp calls grasp
  rw [dwelling.keywords, counter] at full
  exact
    { planned := dwelling.planned
      keywords := dwelling.keywords
      reaching := fun reaches => by simp at reaches
      grasping := fun grasp => by simp at grasp
      elsewhere := fun _ => .inr (by rw [counted]; omega)
      lifting := fun _ => ⟨rfl, (congrArg (Option.map ActCall.eefHeight) recorded).symm⟩
      entered := fun _ empty => by omega
      history := history_append dwelling.history (dwelling.properCall_grasp grasp) }

theorem Dwelling.branch_carry (dwelling : Dwelling kwargs policy calls) (action : Fin 7 → K)
    {state : PolicyState} (lift : policy.state = .lift)
    (follows : state = policy.state ∨ state = policy.state.next) :
    Dwelling kwargs { policy with state } (calls ++ [branchCall env policy s action]) := by
  have other : policy.state ≠ .grasp := by simp [lift]
  have counted : dwell (calls ++ [branchCall env policy s action]) = 0 :=
    (dwell_append_singleton calls _).trans (if_neg other)
  have kept : lastGrasp (calls ++ [branchCall env policy s action]) = lastGrasp calls :=
    lastGrasp_append_of_ne calls other
  have lifts : state = .lift ∨ state = .done := by
    rcases follows with rfl | rfl <;> simp [lift, PolicyState.next]
  exact
    { planned := dwelling.planned
      keywords := dwelling.keywords
      reaching := fun reaches => by rcases lifts with rfl | rfl <;> simp at reaches
      grasping := fun grasp => by rcases lifts with rfl | rfl <;> simp at grasp
      elsewhere := fun _ => .inl counted
      lifting := fun _ => by
        rw [kept]
        exact dwelling.lifting (.inl lift)
      entered := fun _ _ => by simp [branchCall, lift]
      history := history_append dwelling.history (dwelling.properCall other action) }

theorem Dwelling.branch_hold (dwelling : Dwelling kwargs policy calls) (action : Fin 7 → K)
    (done : policy.state = .done) :
    Dwelling kwargs policy (calls ++ [branchCall env policy s action]) := by
  have other : policy.state ≠ .grasp := by simp [done]
  have counted : dwell (calls ++ [branchCall env policy s action]) = 0 :=
    (dwell_append_singleton calls _).trans (if_neg other)
  have kept : lastGrasp (calls ++ [branchCall env policy s action]) = lastGrasp calls :=
    lastGrasp_append_of_ne calls other
  exact
    { planned := dwelling.planned
      keywords := dwelling.keywords
      reaching := dwelling.reaching
      grasping := fun grasp => absurd grasp other
      elsewhere := fun _ => .inl counted
      lifting := by
        rw [kept]
        exact dwelling.lifting
      entered := fun lift => by simp [done] at lift
      history := history_append dwelling.history (dwelling.properCall other action) }

/-- The branch of the current state keeps the invariant, its call being appended. -/
theorem Dwelling.branch (dwelling : Dwelling kwargs policy calls) {action : Fin 7 → K}
    (branch : ScriptedPickPlace.ActBranch env policy s action after) :
    Dwelling kwargs after (calls ++ [branchCall env policy s action]) := by
  cases branch with
  | reach reaches opens follows => exact dwelling.branch_reach action reaches follows
  | dwell grasp short => exact dwelling.branch_dwell grasp short
  | lift grasp full => exact dwelling.branch_lift grasp full
  | carry lift lifted follows => exact dwelling.branch_carry action lift follows
  | hold done => exact dwelling.branch_hold action done

/-! ## Runs -/

/-- A call of `act` executes a branch of the policy whose failed lift has been aborted. -/
theorem branch_of_actCall {call : ActCall K} (planned : policy.target.isSome)
    (called : policy.actCall env s = .ok (call, after)) :
    ∃ action, call = branchCall env (policy.abortFailedLift env s).countPhaseStep s action ∧
      ScriptedPickPlace.ActBranch env (policy.abortFailedLift env s).countPhaseStep s action
        after := by
  obtain ⟨⟨action, next⟩, acts, returned⟩ := Fallible.bind_eq_ok.mp called
  obtain ⟨rfl, rfl⟩ := Prod.mk.inj (Except.ok.inj returned)
  refine ⟨action, ?_, ScriptedPickPlace.actBranch_of_act planned acts⟩
  have kept : (policy.abortFailedLift env s).liftFrom = policy.liftFrom := by
    rcases policy.abortFailedLift_cases env s with same | ⟨-, aborted⟩
    · rw [same]
    · rw [aborted]
  rw [branchCall, ScriptedPickPlace.countPhaseStep, kept]
  rfl

theorem acted_of_actCall {call : ActCall K} (planned : policy.target.isSome)
    (called : policy.actCall env s = .ok (call, after)) :
    call.executed = policy.executedState env s ∧ ScriptedPickPlace.Acted env policy s after := by
  obtain ⟨⟨action, next⟩, acts, returned⟩ := Fallible.bind_eq_ok.mp called
  obtain ⟨rfl, rfl⟩ := Prod.mk.inj (Except.ok.inj returned)
  exact ⟨rfl, ScriptedPickPlace.acted_of_act planned acts⟩

theorem Dwelling.perform {op : PolicyOp E} {new : List (ActCall K)}
    (dwelling : Dwelling kwargs policy calls)
    (performed : perform env policy op = .ok (new, after)) :
    Dwelling kwargs after (calls ++ new) := by
  cases op with
  | act s =>
      obtain ⟨⟨call, next⟩, called, returned⟩ := Fallible.bind_eq_ok.mp performed
      obtain ⟨rfl, rfl⟩ := Prod.mk.inj (Except.ok.inj returned)
      obtain ⟨action, rfl, branch⟩ := branch_of_actCall dwelling.planned called
      exact (dwelling.abort s).branch branch
  | replan s step count =>
      obtain ⟨rfl, rfl⟩ := Prod.mk.inj (Except.ok.inj performed)
      rw [List.append_nil]
      exact dwelling.replan (policy.replanned env s step count)

variable (env) in
/-- No operation raises: a lift always finds the height that it compares with. -/
theorem Dwelling.exists_perform (dwelling : Dwelling kwargs policy calls) (op : PolicyOp E) :
    ∃ new after, G1Jepa.perform env policy op = .ok (new, after) := by
  cases op with
  | act s =>
      have aborted : Dwelling kwargs (policy.abortFailedLift env s).countPhaseStep calls :=
        dwelling.abort s
      obtain ⟨action, after, acts⟩ := ScriptedPickPlace.exists_actInState env s aborted.planned
        (fun lift => (aborted.lifting (.inl lift)).1)
      refine ⟨[⟨policy.executedState env s, action, env.getEefPos s 2, policy.liftFrom⟩], after, ?_⟩
      rw [G1Jepa.perform, ScriptedPickPlace.actCall_of_act acts]
      rfl
  | replan s step count => exact ⟨_, _, rfl⟩

variable (env) in
theorem Dwelling.exists_performAll (dwelling : Dwelling kwargs policy calls)
    (ops : List (PolicyOp E)) :
    ∃ rest after, performAll env policy ops = .ok (rest, after) ∧
      Dwelling kwargs after (calls ++ rest) := by
  induction ops generalizing policy calls with
  | nil => exact ⟨[], policy, rfl, by rwa [List.append_nil]⟩
  | cons op ops induction =>
      obtain ⟨new, between, performed⟩ := dwelling.exists_perform env op
      obtain ⟨rest, after, followed, final⟩ := induction (dwelling.perform performed)
      refine ⟨new ++ rest, after, ?_, by rwa [← List.append_assoc]⟩
      rw [performAll, performed, Fallible.ok_bind]
      dsimp only
      rw [followed, Fallible.ok_bind]

/-- `LIFT` is entered only by a call that executes `GRASP`. -/
theorem exists_grasp_of_enters_lift {op : PolicyOp E} {new : List (ActCall K)}
    (planned : policy.target.isSome) (performed : perform env policy op = .ok (new, after))
    (outside : policy.state ≠ .lift) (enters : after.state = .lift) :
    ∃ call, new = [call] ∧ call.executed = .grasp := by
  cases op with
  | act s =>
      obtain ⟨⟨call, next⟩, called, returned⟩ := Fallible.bind_eq_ok.mp performed
      obtain ⟨rfl, rfl⟩ := Prod.mk.inj (Except.ok.inj returned)
      obtain ⟨action, rfl, branch⟩ := branch_of_actCall planned called
      refine ⟨_, rfl, ?_⟩
      cases branch with
      | lift grasp | dwell grasp => exact grasp
      | reach reaches _ follows =>
          have enters : _ = PolicyState.lift := enters
          rcases reaches with equality | equality <;> rw [equality] at follows <;>
            rcases follows with rfl | rfl <;> cases enters
      | carry lift =>
          have lift : policy.executedState env s = .lift := lift
          exact absurd (ScriptedPickPlace.state_of_executedState lift (by simp)) outside
      | hold done => cases done.symm.trans enters
  | replan s step count =>
      obtain ⟨rfl, rfl⟩ := Prod.mk.inj (Except.ok.inj performed)
      rcases (policy.replanned env s step count).state with ⟨kept, -⟩ | ⟨-, approach, -⟩
      · exact absurd (kept.symm.trans enters) outside
      · cases approach.symm.trans enters

omit [LinearOrder K] in
/-- A visit that is over has its full length. -/
theorem Dwelling.visit_eq (dwelling : Dwelling kwargs policy calls) {i n : ℕ}
    (visit : GraspVisit calls i n) (finished : i + n < calls.length ∨ policy.state ≠ .grasp) :
    (n : ℤ) = max 1 kwargs.graspSteps := by
  have positive := visit.nonempty
  have counted := visit.dwell_eq
  rcases Nat.lt_or_eq_of_le visit.end_le with inside | ended
  · obtain ⟨call, found⟩ : ∃ call, calls[i + n]? = some call :=
      ⟨calls[i + n], List.getElem?_eq_getElem inside⟩
    have other : call.executed ≠ .grasp := by
      have ends := visit.ends
      rw [inGrasp_of_getElem? found] at ends
      simpa using ends
    have complete := (dwelling.history (i + n) call found).leaves other
    rw [counted] at complete
    omega
  · have left : policy.state ≠ .grasp := finished.resolve_left (by omega)
    have complete := dwelling.elsewhere left
    rw [ended, List.take_length] at counted
    rw [counted] at complete
    omega

omit [LinearOrder K] in
theorem Dwelling.visit_le (dwelling : Dwelling kwargs policy calls) {i n : ℕ}
    (visit : GraspVisit calls i n) : (n : ℤ) ≤ max 1 kwargs.graspSteps := by
  rcases Nat.lt_or_eq_of_le visit.end_le with inside | ended
  · exact (dwelling.visit_eq visit (.inl inside)).le
  · cases Decidable.em (policy.state = .grasp) with
    | inl grasp =>
        have positive := visit.nonempty
        have counted := visit.dwell_eq
        have bound := (dwelling.grasping grasp).2
        rw [ended, List.take_length] at counted
        rw [counted] at bound
        omega
    | inr left => exact (dwelling.visit_eq visit (.inr left)).le

/-- In every interleaving of `act` and `replan` no call raises; every visit to `GRASP` that is over
has `max(1, grasp_steps)` calls, all with the closed gripper at rest; and every lift follows such a
visit and starts from the height of its last call. -/
theorem grasp_visits_and_lifts (env : Env K E R Row) (kwargs : PolicyKwargs K) (s₀ : E)
    (step₀ : Option ℕ) (count₀ : Bool) (ops : List (PolicyOp E)) :
    ∃ calls policy,
      performAll env ((ScriptedPickPlace.init kwargs).replan env s₀ step₀ count₀) ops =
        .ok (calls, policy) ∧
      (∀ i n, GraspVisit calls i n →
        (∀ j call, i ≤ j → j < i + n → calls[j]? = some call → call.action = graspAction) ∧
          (n : ℤ) ≤ max 1 kwargs.graspSteps ∧
          (i + n < calls.length ∨ policy.state ≠ .grasp → (n : ℤ) = max 1 kwargs.graspSteps)) ∧
      (∀ j call, calls[j]? = some call → call.executed = .lift →
        ((calls.take j).getLast?.map ActCall.executed = some .lift ∨
            ∃ i n, GraspVisit calls i n ∧ i + n = j) ∧
          call.liftFrom.isSome ∧
          call.liftFrom = (lastGrasp (calls.take j)).map ActCall.eefHeight) ∧
      ∀ op new after, perform env policy op = .ok (new, after) → policy.state ≠ .lift →
        after.state = .lift →
        ∃ i n, GraspVisit (calls ++ new) i n ∧ i + n = (calls ++ new).length ∧
          (n : ℤ) = max 1 kwargs.graspSteps := by
  obtain ⟨calls, policy, performed, dwelling⟩ :=
    (dwelling_init s₀ step₀ count₀ : Dwelling kwargs
      ((ScriptedPickPlace.init kwargs).replan env s₀ step₀ count₀) []).exists_performAll env ops
  rw [List.nil_append] at dwelling
  refine ⟨calls, policy, performed, ?_, ?_, ?_⟩
  · intro i n visit
    refine ⟨?_, dwelling.visit_le visit, dwelling.visit_eq visit⟩
    intro j call lower upper found
    have grasps := visit.grasps j lower upper
    rw [inGrasp_of_getElem? found, beq_iff_eq] at grasps
    exact ((dwelling.history j call found).grasps grasps).1
  · intro j call found lift
    have proper := dwelling.history j call found
    refine ⟨?_, proper.lifts lift⟩
    have inside : j ≤ calls.length := (List.getElem?_eq_some_iff.mp found).1.le
    have ends : inGrasp calls j = false := by
      rw [inGrasp_of_getElem? found, lift]
      rfl
    cases Nat.eq_zero_or_pos (dwell (calls.take j)) with
    | inl empty => exact .inl (proper.enters lift empty)
    | inr positive => exact .inr (exists_graspVisit inside positive.ne' ends)
  · intro op new after performed outside enters
    have final := dwelling.perform performed
    obtain ⟨call, rfl, grasp⟩ :=
      exists_grasp_of_enters_lift dwelling.planned performed outside enters
    have counted : dwell ((calls ++ [call]).take (calls ++ [call]).length) ≠ 0 := by
      rw [List.take_length, dwell_append_singleton, if_pos grasp]
      exact Nat.succ_ne_zero _
    have ends : inGrasp (calls ++ [call]) (calls ++ [call]).length = false := by
      rw [inGrasp, List.getElem?_eq_none le_rfl, Option.any_none]
    obtain ⟨i, n, visit, covers⟩ := exists_graspVisit le_rfl counted ends
    exact ⟨i, n, visit, covers, final.visit_eq visit (.inr (by simp [enters]))⟩

end G1Jepa
