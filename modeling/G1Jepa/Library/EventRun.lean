import Mathlib.Data.List.Induction
import Mathlib.Tactic.Common

/-!
# Runs of event-driven systems

A system is a partial step function: an event either is not enabled in a state or leads to one
next state. `EventRun.run` performs a list of events, so a statement about every list of events is
a statement about every interleaving of the parties of the system.
-/

namespace EventRun

variable {σ ε : Type*} {step : σ → ε → Option σ}

/-- The state after some events, or `none` when one of them was not enabled. -/
def run (step : σ → ε → Option σ) (start : σ) : List ε → Option σ
  | [] => some start
  | event :: events => (step start event).bind fun next => run step next events

@[simp] theorem run_nil (start : σ) : run step start [] = some start := rfl

theorem run_cons_eq_some {start after : σ} {event : ε} {events : List ε} :
    run step start (event :: events) = some after ↔
      ∃ next, step start event = some next ∧ run step next events = some after :=
  Option.bind_eq_some_iff

theorem run_append (start : σ) (left right : List ε) :
    run step start (left ++ right) =
      (run step start left).bind fun next => run step next right := by
  induction left generalizing start with
  | nil => rfl
  | cons event events induction =>
      rw [List.cons_append, run, run]
      cases step start event with
      | none => rfl
      | some next => exact induction next

theorem run_append_singleton_eq_some {start after : σ} {events : List ε} {event : ε} :
    run step start (events ++ [event]) = some after ↔
      ∃ before, run step start events = some before ∧ step before event = some after := by
  rw [run_append, Option.bind_eq_some_iff]
  refine exists_congr fun before => and_congr_right fun _ => ?_
  rw [run_cons_eq_some]
  simp

/-- A run stops at its first event that is not enabled. -/
theorem run_eq_none_iff {start : σ} {events : List ε} :
    run step start events = none ↔
      ∃ earlier event later before, events = earlier ++ event :: later ∧
        run step start earlier = some before ∧ step before event = none := by
  induction events generalizing start with
  | nil => simp
  | cons event events induction =>
      rw [run]
      constructor
      · intro stopped
        cases stepped : step start event with
        | none => exact ⟨[], event, events, start, rfl, rfl, stepped⟩
        | some next =>
            rw [stepped, Option.bind_some] at stopped
            obtain ⟨earlier, last, later, before, rfl, ran, stuck⟩ := induction.mp stopped
            refine ⟨event :: earlier, last, later, before, rfl, ?_, stuck⟩
            exact run_cons_eq_some.mpr ⟨next, stepped, ran⟩
      · rintro ⟨earlier, last, later, before, append, ran, stuck⟩
        cases earlier with
        | nil =>
            obtain ⟨rfl, rfl⟩ := List.cons.inj append
            obtain rfl := Option.some.inj ran
            rw [stuck]
            rfl
        | cons first earlier =>
            obtain ⟨rfl, rfl⟩ := List.cons.inj append
            obtain ⟨next, stepped, ran⟩ := run_cons_eq_some.mp ran
            rw [stepped, Option.bind_some]
            exact induction.mpr ⟨earlier, last, later, before, rfl, ran, stuck⟩

/-- A property of the events so far and the state they lead to, kept by every enabled event. -/
theorem invariant_traced {Holds : List ε → σ → Prop} {start : σ} (initial : Holds [] start)
    (keeps : ∀ events before event next, run step start events = some before →
      Holds events before → step before event = some next → Holds (events ++ [event]) next)
    {events : List ε} {after : σ} (ran : run step start events = some after) :
    Holds events after := by
  induction events using List.reverseRecOn generalizing after with
  | nil =>
      obtain rfl := Option.some.inj ran
      exact initial
  | append_singleton events event induction =>
      obtain ⟨before, earlier, stepped⟩ := run_append_singleton_eq_some.mp ran
      exact keeps events before event after earlier (induction earlier) stepped

/-- A property that every enabled event keeps holds after every run. -/
theorem invariant {Holds : σ → Prop} {start after : σ} {events : List ε} (initial : Holds start)
    (keeps : ∀ before event next, Holds before → step before event = some next → Holds next)
    (ran : run step start events = some after) : Holds after :=
  @invariant_traced _ _ step (fun _ => Holds) start initial
    (fun _ before event next _ => keeps before event next) events after ran

/-- Every event of a run is allowed in the state in which it happens. -/
def Along (step : σ → ε → Option σ) (Allowed : σ → ε → Prop) (start : σ) : List ε → Prop
  | [] => True
  | event :: events =>
      Allowed start event ∧ ∀ next ∈ step start event, Along step Allowed next events

instance decidableAlong (Allowed : σ → ε → Prop) [∀ s event, Decidable (Allowed s event)] :
    ∀ (start : σ) (events : List ε), Decidable (Along step Allowed start events)
  | _, [] => .isTrue trivial
  | start, event :: events =>
      have _ (next : σ) := decidableAlong Allowed next events
      inferInstanceAs (Decidable
        (Allowed start event ∧ ∀ next ∈ step start event, Along step Allowed next events))

/-- A property that every allowed event keeps holds after every run of allowed events. -/
theorem invariant_along {Holds : σ → Prop} {Allowed : σ → ε → Prop} {start after : σ}
    {events : List ε} (initial : Holds start)
    (keeps : ∀ before event next, Holds before → Allowed before event →
      step before event = some next → Holds next)
    (ran : run step start events = some after) (allowed : Along step Allowed start events) :
    Holds after := by
  induction events generalizing start with
  | nil =>
      obtain rfl := Option.some.inj ran
      exact initial
  | cons event events induction =>
      obtain ⟨next, stepped, rest⟩ := run_cons_eq_some.mp ran
      exact induction (keeps start event next initial allowed.1 stepped) rest
        (allowed.2 next stepped)

/-- A view of a system under which every event is some events of another system is a run of that
system after every run. -/
theorem simulated {τ ζ : Type*} {other : τ → ζ → Option τ} {view : σ → τ} {Holds : σ → Prop}
    {start after : σ} {events : List ε} (initial : Holds start)
    (keeps : ∀ before event next, Holds before → step before event = some next →
      Holds next ∧ ∃ steps, run other (view before) steps = some (view next))
    (ran : run step start events = some after) :
    Holds after ∧ ∃ steps, run other (view start) steps = some (view after) := by
  refine @invariant _ _ step
    (fun s => Holds s ∧ ∃ steps, run other (view start) steps = some (view s)) start after events
    ⟨initial, [], rfl⟩ ?_ ran
  rintro before event next ⟨holds, steps, reached⟩ stepped
  obtain ⟨kept, more, extended⟩ := keeps before event next holds stepped
  exact ⟨kept, steps ++ more, by rw [run_append, reached]; exact extended⟩

/-- The events are enabled one after the other and lead to a state with a property. -/
def Reaches (step : σ → ε → Option σ) (start : σ) (events : List ε) (P : σ → Prop) : Prop :=
  ∃ after, run step start events = some after ∧ P after

instance (start : σ) (events : List ε) (P : σ → Prop) [DecidablePred P] :
    Decidable (Reaches step start events P) :=
  match ended : run step start events with
  | none => .isFalse fun ⟨after, ran, _⟩ => by simp [ended] at ran
  | some after =>
      decidable_of_iff (P after)
        ⟨fun holds => ⟨after, ended, holds⟩, fun ⟨other, ran, holds⟩ => by
          obtain rfl := Option.some.inj (ended.symm.trans ran)
          exact holds⟩

end EventRun
