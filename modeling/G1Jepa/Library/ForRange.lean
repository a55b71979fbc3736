import Mathlib.Data.Nat.Notation
import Mathlib.Tactic.Common

/-!
# Counted loops with early exit

`ForRange.loop body start n` is the state of `for t in range(n)` whose body may fail and may
break. The second component records that the loop was left early, so a prefix of a loop is again
a loop and an invariant can be read at the start of every iteration.
-/

namespace ForRange

variable {ε σ τ : Type*}

/-- The first `n` iterations of a loop; `true` marks a loop that a `break` has left. -/
def loop (body : ℕ → σ → Except ε (σ × Bool)) (start : σ) : ℕ → Except ε (σ × Bool)
  | 0 => .ok (start, false)
  | n + 1 => do
      let (state, left) ← loop body start n
      if left then .ok (state, true) else body n state

@[simp] theorem loop_zero (body : ℕ → σ → Except ε (σ × Bool)) (start : σ) :
    loop body start 0 = .ok (start, false) := rfl

theorem loop_succ_of_left {body : ℕ → σ → Except ε (σ × Bool)} {start state : σ} {n : ℕ}
    (reached : loop body start n = .ok (state, true)) :
    loop body start (n + 1) = .ok (state, true) := by
  rw [loop, reached]
  rfl

theorem loop_succ_of_running {body : ℕ → σ → Except ε (σ × Bool)} {start state : σ} {n : ℕ}
    (reached : loop body start n = .ok (state, false)) :
    loop body start (n + 1) = body n state := by
  rw [loop, reached]
  rfl

theorem loop_of_error {body : ℕ → σ → Except ε (σ × Bool)} {start : σ} {failure : ε} {n : ℕ}
    (raises : body 0 start = .error failure) (positive : 0 < n) :
    loop body start n = .error failure := by
  induction n with
  | zero => contradiction
  | succ n induction =>
      rcases Nat.eq_zero_or_pos n with rfl | earlier
      · exact raises
      · rw [loop, induction earlier]
        rfl

theorem loop_succ_eq_ok {body : ℕ → σ → Except ε (σ × Bool)} {start after : σ} {n : ℕ}
    {left : Bool} (reached : loop body start (n + 1) = .ok (after, left)) :
    (loop body start n = .ok (after, true) ∧ left = true) ∨
      ∃ before, loop body start n = .ok (before, false) ∧ body n before = .ok (after, left) := by
  cases previous : loop body start n with
  | error failure =>
      rw [loop, previous] at reached
      contradiction
  | ok outcome =>
      obtain ⟨before, leftBefore⟩ := outcome
      cases leftBefore with
      | true =>
          rw [loop_succ_of_left previous] at reached
          obtain ⟨rfl, rfl⟩ := Prod.mk.inj (Except.ok.inj reached)
          exact .inl ⟨rfl, rfl⟩
      | false =>
          rw [loop_succ_of_running previous] at reached
          exact .inr ⟨before, rfl, reached⟩

theorem loop_succ_running {body : ℕ → σ → Except ε (σ × Bool)} {start after : σ} {n : ℕ}
    (reached : loop body start (n + 1) = .ok (after, false)) :
    ∃ before, loop body start n = .ok (before, false) ∧ body n before = .ok (after, false) := by
  rcases loop_succ_eq_ok reached with ⟨-, absurdity⟩ | step
  · contradiction
  · exact step

theorem exists_earlier {body : ℕ → σ → Except ε (σ × Bool)} {start state : σ} {m n : ℕ}
    (bound : m ≤ n) (reached : loop body start n = .ok (state, false)) :
    ∃ before, loop body start m = .ok (before, false) := by
  induction n generalizing state with
  | zero =>
      obtain rfl : m = 0 := Nat.le_zero.mp bound
      exact ⟨start, rfl⟩
  | succ n induction =>
      rcases Nat.le_succ_iff.mp bound with earlier | rfl
      · obtain ⟨before, previous, -⟩ := loop_succ_running reached
        exact induction earlier previous
      · exact ⟨state, reached⟩

/-- The state at the start of an iteration satisfies every invariant the body keeps. -/
theorem loop_invariant {body : ℕ → σ → Except ε (σ × Bool)} {start : σ}
    {Holds : ℕ → σ → Prop} (initial : Holds 0 start)
    (step : ∀ t before after left, loop body start t = .ok (before, false) → Holds t before →
      body t before = .ok (after, left) → Holds (t + 1) after)
    {n : ℕ} {state : σ} (reached : loop body start n = .ok (state, false)) : Holds n state := by
  induction n generalizing state with
  | zero =>
      obtain ⟨rfl, -⟩ := Prod.mk.inj (Except.ok.inj reached)
      exact initial
  | succ n induction =>
      obtain ⟨before, previous, ran⟩ := loop_succ_running reached
      exact step n before state false previous (induction previous) ran

/-- The state of a loop satisfies every invariant the body keeps at the number of iterations that
have run. -/
theorem exists_invariant {body : ℕ → σ → Except ε (σ × Bool)} {start : σ}
    {Holds : ℕ → σ → Prop} (initial : Holds 0 start)
    (step : ∀ t before after left, loop body start t = .ok (before, false) → Holds t before →
      body t before = .ok (after, left) → Holds (t + 1) after)
    {n : ℕ} {state : σ} {left : Bool} (reached : loop body start n = .ok (state, left)) :
    ∃ t ≤ n, Holds t state := by
  induction n generalizing left with
  | zero =>
      obtain ⟨rfl, -⟩ := Prod.mk.inj (Except.ok.inj reached)
      exact ⟨0, Nat.le_refl 0, initial⟩
  | succ n induction =>
      rcases loop_succ_eq_ok reached with ⟨earlier, -⟩ | ⟨before, running, ran⟩
      · obtain ⟨t, bound, holds⟩ := induction earlier
        exact ⟨t, Nat.le_succ_of_le bound, holds⟩
      · have holds : Holds n before := loop_invariant initial step running
        exact ⟨n + 1, Nat.le_refl _, step n before state left running holds ran⟩

theorem loop_preserves {body : ℕ → σ → Except ε (σ × Bool)} {start : σ} {Holds : σ → Prop}
    (initial : Holds start)
    (step : ∀ t before after left, Holds before → body t before = .ok (after, left) → Holds after)
    {n : ℕ} {state : σ} {left : Bool} (reached : loop body start n = .ok (state, left)) :
    Holds state := by
  induction n generalizing state left with
  | zero =>
      obtain ⟨rfl, -⟩ := Prod.mk.inj (Except.ok.inj reached)
      exact initial
  | succ n induction =>
      rcases loop_succ_eq_ok reached with ⟨earlier, -⟩ | ⟨before, running, ran⟩
      · exact induction earlier
      · exact step n before state left (induction running) ran

theorem exists_iteration {body : ℕ → σ → Except ε (σ × Bool)} {start state : σ} {n : ℕ}
    {left : Bool} (reached : loop body start (n + 1) = .ok (state, left)) :
    ∃ t before, t < n + 1 ∧ loop body start t = .ok (before, false) ∧
      body t before = .ok (state, left) := by
  induction n generalizing left with
  | zero =>
      rcases loop_succ_eq_ok reached with ⟨earlier, -⟩ | ⟨before, running, ran⟩
      · cases earlier
      · exact ⟨0, before, Nat.zero_lt_one, running, ran⟩
  | succ n induction =>
      rcases loop_succ_eq_ok reached with ⟨earlier, rfl⟩ | ⟨before, running, ran⟩
      · obtain ⟨t, before, bound, running, ran⟩ := induction earlier
        exact ⟨t, before, Nat.lt_succ_of_lt bound, running, ran⟩
      · exact ⟨n + 1, before, Nat.lt_succ_self _, running, ran⟩

theorem exists_ran {body : ℕ → σ → Except ε (σ × Bool)} {start state before : σ} {n t : ℕ}
    {left : Bool} (reached : loop body start n = .ok (state, left)) (bound : t < n)
    (running : loop body start t = .ok (before, false)) :
    ∃ after exit, body t before = .ok (after, exit) := by
  induction n generalizing state left with
  | zero => contradiction
  | succ n induction =>
      rcases loop_succ_eq_ok reached with ⟨earlier, -⟩ | ⟨last, earlier, ran⟩
      · rcases Nat.lt_succ_iff_lt_or_eq.mp bound with inside | rfl
        · exact induction earlier inside
        · cases running.symm.trans earlier
      · rcases Nat.lt_succ_iff_lt_or_eq.mp bound with inside | rfl
        · exact induction earlier inside
        · obtain ⟨rfl, -⟩ := Prod.mk.inj (Except.ok.inj (running.symm.trans earlier))
          exact ⟨state, left, ran⟩

/-- A loop whose body never fails on the states that it keeps to returns. -/
theorem exists_loop {body : ℕ → σ → Except ε (σ × Bool)} {start : σ} {Holds : σ → Prop}
    (initial : Holds start)
    (step : ∀ t before, Holds before → ∃ after left, body t before = .ok (after, left) ∧
      Holds after)
    (n : ℕ) : ∃ state left, loop body start n = .ok (state, left) ∧ Holds state := by
  induction n with
  | zero => exact ⟨start, false, rfl, initial⟩
  | succ n induction =>
      obtain ⟨before, left, reached, holds⟩ := induction
      cases left with
      | true => exact ⟨before, true, loop_succ_of_left reached, holds⟩
      | false =>
          obtain ⟨after, left, ran, kept⟩ := step n before holds
          exact ⟨after, left, (loop_succ_of_running reached).trans ran, kept⟩

theorem exists_loop_of_le {body : ℕ → σ → Except ε (σ × Bool)} {start state : σ} {m n : ℕ}
    {left : Bool} (bound : m ≤ n) (reached : loop body start n = .ok (state, left)) :
    ∃ earlier exit, loop body start m = .ok (earlier, exit) := by
  induction n generalizing state left with
  | zero =>
      obtain rfl : m = 0 := Nat.le_zero.mp bound
      exact ⟨start, false, rfl⟩
  | succ n induction =>
      rcases Nat.lt_or_eq_of_le bound with below | rfl
      · have within := Nat.le_of_lt_succ below
        rcases loop_succ_eq_ok reached with ⟨earlier, -⟩ | ⟨before, running, -⟩
        · exact induction within earlier
        · exact induction within running
      · exact ⟨state, left, reached⟩

/-- A property that one iteration establishes and every later one keeps holds at the end. -/
theorem loop_holds_after {body : ℕ → σ → Except ε (σ × Bool)} {start before state : σ}
    {Holds : σ → Prop} {m n : ℕ} {left : Bool} (bound : m < n)
    (running : loop body start m = .ok (before, false))
    (establishes : ∀ after exit, body m before = .ok (after, exit) → Holds after)
    (keeps : ∀ t before after exit, Holds before → body t before = .ok (after, exit) → Holds after)
    (reached : loop body start n = .ok (state, left)) : Holds state := by
  induction n generalizing state left with
  | zero => contradiction
  | succ n induction =>
      rcases Nat.lt_or_eq_of_le (Nat.le_of_lt_succ bound) with below | rfl
      · rcases loop_succ_eq_ok reached with ⟨earlier, -⟩ | ⟨previous, earlier, ran⟩
        · exact induction below earlier
        · exact keeps n previous state left (induction below earlier) ran
      · rw [loop_succ_of_running running] at reached
        exact establishes state left reached

/-- A translation of the states that commutes with the bodies commutes with the loops. -/
theorem loop_map {bodyL : ℕ → σ → Except ε (σ × Bool)} {bodyR : ℕ → τ → Except ε (τ × Bool)}
    (f : σ → τ)
    (commutes : ∀ t state, bodyR t (f state) = (bodyL t state).map (Prod.map f id))
    (start : σ) (n : ℕ) :
    loop bodyR (f start) n = (loop bodyL start n).map (Prod.map f id) := by
  induction n with
  | zero => rfl
  | succ n induction =>
      rw [loop, loop, induction]
      cases loop bodyL start n with
      | error failure => rfl
      | ok outcome =>
          obtain ⟨state, left⟩ := outcome
          cases left with
          | true => rfl
          | false => exact commutes n state

/-- Two loops whose bodies keep a relation, and break together, stay related. -/
theorem loop_related {bodyL : ℕ → σ → Except ε (σ × Bool)}
    {bodyR : ℕ → τ → Except ε (τ × Bool)} {startL : σ} {startR : τ} {Related : σ → τ → Prop}
    {n : ℕ} (initial : Related startL startR)
    (step : ∀ t < n, ∀ left right left' right' exitL exitR,
      loop bodyL startL t = .ok (left, false) → loop bodyR startR t = .ok (right, false) →
      Related left right → bodyL t left = .ok (left', exitL) →
      bodyR t right = .ok (right', exitR) → Related left' right' ∧ exitL = exitR)
    {left : σ} {right : τ} {exitL exitR : Bool}
    (reachedL : loop bodyL startL n = .ok (left, exitL))
    (reachedR : loop bodyR startR n = .ok (right, exitR)) :
    Related left right ∧ exitL = exitR := by
  induction n generalizing left right exitL exitR with
  | zero =>
      obtain ⟨rfl, rfl⟩ := Prod.mk.inj (Except.ok.inj reachedL)
      obtain ⟨rfl, rfl⟩ := Prod.mk.inj (Except.ok.inj reachedR)
      exact ⟨initial, rfl⟩
  | succ n induction =>
      have earlier : ∀ {left right exitL exitR}, loop bodyL startL n = .ok (left, exitL) →
          loop bodyR startR n = .ok (right, exitR) → Related left right ∧ exitL = exitR :=
        induction fun t bound => step t (by omega)
      rcases loop_succ_eq_ok reachedL with ⟨previousL, rfl⟩ | ⟨beforeL, previousL, ranL⟩ <;>
        rcases loop_succ_eq_ok reachedR with ⟨previousR, rfl⟩ | ⟨beforeR, previousR, ranR⟩
      · exact earlier previousL previousR
      · exact absurd (earlier previousL previousR).2 (by simp)
      · exact absurd (earlier previousL previousR).2 (by simp)
      · exact step n (by omega) beforeL beforeR left right exitL exitR previousL previousR
          (earlier previousL previousR).1 ranL ranR

theorem running_related {bodyL : ℕ → σ → Except ε (σ × Bool)}
    {bodyR : ℕ → τ → Except ε (τ × Bool)} {startL : σ} {startR : τ} {Related : σ → τ → Prop}
    {n : ℕ} (initial : Related startL startR)
    (step : ∀ t < n, ∀ left right left' right',
      loop bodyL startL t = .ok (left, false) → loop bodyR startR t = .ok (right, false) →
      Related left right → bodyL t left = .ok (left', false) →
      bodyR t right = .ok (right', false) → Related left' right')
    {left : σ} {right : τ} (reachedL : loop bodyL startL n = .ok (left, false))
    (reachedR : loop bodyR startR n = .ok (right, false)) : Related left right := by
  induction n generalizing left right with
  | zero =>
      obtain ⟨rfl, -⟩ := Prod.mk.inj (Except.ok.inj reachedL)
      obtain ⟨rfl, -⟩ := Prod.mk.inj (Except.ok.inj reachedR)
      exact initial
  | succ n induction =>
      obtain ⟨beforeL, previousL, ranL⟩ := loop_succ_running reachedL
      obtain ⟨beforeR, previousR, ranR⟩ := loop_succ_running reachedR
      have related := induction (fun t bound => step t (by omega)) previousL previousR
      exact step n (by omega) beforeL beforeR left right previousL previousR related ranL ranR

section Log

variable {α : Type*} {body : ℕ → σ → Except ε (σ × Bool)} {start : σ} {log : σ → List α}
  {entry : ℕ → σ → α}

theorem length_log (initial : log start = [])
    (appends : ∀ t before after left, body t before = .ok (after, left) →
      log after = log before ++ [entry t before])
    {n : ℕ} {state : σ} (reached : loop body start n = .ok (state, false)) :
    (log state).length = n := by
  refine @loop_invariant _ _ body start (fun n state => (log state).length = n) ?_ ?_ n state
    reached
  · exact congrArg List.length initial
  · intro t before after left _ length ran
    have appended := congrArg List.length (appends t before after left ran)
    rwa [List.length_append, length] at appended

theorem exists_iteration_of_log (initial : log start = [])
    (appends : ∀ t before after left, body t before = .ok (after, left) →
      log after = log before ++ [entry t before])
    {n : ℕ} {state : σ} {left : Bool} (reached : loop body start n = .ok (state, left)) {t : ℕ}
    {value : α} (found : (log state)[t]? = some value) :
    ∃ before, t < n ∧ loop body start t = .ok (before, false) ∧ entry t before = value := by
  induction n generalizing state left with
  | zero =>
      obtain ⟨rfl, rfl⟩ := Prod.mk.inj (Except.ok.inj reached)
      rw [initial] at found
      contradiction
  | succ n induction =>
      rcases loop_succ_eq_ok reached with ⟨earlier, -⟩ | ⟨before, running, ran⟩
      · obtain ⟨before, bound, iteration⟩ := induction earlier found
        exact ⟨before, Nat.lt_succ_of_lt bound, iteration⟩
      · have length := length_log initial appends running
        rw [appends n before state left ran] at found
        rcases Nat.lt_or_ge t n with earlier | late
        · rw [List.getElem?_append_left (by omega)] at found
          obtain ⟨before, bound, iteration⟩ := induction running found
          exact ⟨before, Nat.lt_succ_of_lt bound, iteration⟩
        · rw [List.getElem?_append_right (by omega), List.getElem?_singleton] at found
          obtain ⟨last, appended⟩ := Option.ite_none_right_eq_some.mp found
          obtain rfl : t = n := by omega
          exact ⟨before, Nat.lt_succ_self t, running, Option.some.inj appended⟩

theorem getElem?_log (initial : log start = [])
    (appends : ∀ t before after left, body t before = .ok (after, left) →
      log after = log before ++ [entry t before])
    {n : ℕ} {state : σ} {left : Bool} (reached : loop body start n = .ok (state, left)) {t : ℕ}
    {before : σ} (bound : t < n) (running : loop body start t = .ok (before, false)) :
    (log state)[t]? = some (entry t before) := by
  induction n generalizing state left with
  | zero => contradiction
  | succ n induction =>
      rcases loop_succ_eq_ok reached with ⟨earlier, -⟩ | ⟨last, earlier, ran⟩
      · rcases Nat.lt_succ_iff_lt_or_eq.mp bound with inside | rfl
        · exact induction earlier inside
        · cases running.symm.trans earlier
      · rw [appends n last state left ran]
        have length := length_log initial appends earlier
        rcases Nat.lt_succ_iff_lt_or_eq.mp bound with inside | rfl
        · rw [List.getElem?_append_left (by omega)]
          exact induction earlier inside
        · obtain ⟨rfl, -⟩ := Prod.mk.inj (Except.ok.inj (running.symm.trans earlier))
          rw [← length]
          exact List.getElem?_concat_length

end Log

end ForRange
