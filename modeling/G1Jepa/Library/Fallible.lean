import Mathlib.Data.List.Forall2
import Mathlib.Tactic.Common

/-!
# Fallible computations

The exceptions of Python, and what a computation in `Except` has done when it returns a value.
-/

/-- The exceptions of Python that the modelled code raises. -/
inductive PyError
  | indexError
  | valueError (message : String)
  | zeroDivisionError
  | attributeError (name : String)
  | fileNotFoundError (message : String)
  deriving DecidableEq, Repr

namespace Fallible

universe u v

variable {ε : Type v} {α β : Type u}

/-- A bind that returns has run both of its parts. -/
theorem bind_eq_ok {action : Except ε α} {next : α → Except ε β} {result : β} :
    action >>= next = .ok result ↔ ∃ value, action = .ok value ∧ next value = .ok result := by
  cases action with
  | error failure =>
      constructor
      · intro absurdity
        contradiction
      · rintro ⟨value, absurdity, -⟩
        contradiction
  | ok value =>
      constructor
      · intro returned
        exact ⟨value, rfl, returned⟩
      · rintro ⟨found, equality, returned⟩
        obtain rfl := Except.ok.inj equality
        exact returned

theorem map_eq_ok {action : Except ε α} {f : α → β} {result : β} :
    action.map f = .ok result ↔ ∃ value, action = .ok value ∧ f value = result := by
  cases action <;> simp [Except.map]

@[simp] theorem ok_bind (value : α) (next : α → Except ε β) :
    Except.ok value >>= next = next value := rfl

theorem exists_eq_ok {action : Except ε α} (returns : action.isOk = true) :
    ∃ value, action = .ok value := by
  cases action with
  | error failure => contradiction
  | ok value => exact ⟨value, rfl⟩

/-- A computation returns a value with a property. -/
def Returns (action : Except ε α) (Holds : α → Prop) : Prop :=
  match action with
  | .ok value => Holds value
  | .error _ => False

instance (action : Except ε α) (Holds : α → Prop) [DecidablePred Holds] :
    Decidable (Returns action Holds) :=
  match action with
  | .ok value => inferInstanceAs (Decidable (Holds value))
  | .error _ => inferInstanceAs (Decidable False)

theorem Returns.exists_eq_ok {action : Except ε α} {Holds : α → Prop}
    (returns : Returns action Holds) : ∃ value, action = .ok value ∧ Holds value := by
  cases action with
  | error failure => contradiction
  | ok value => exact ⟨value, rfl, returns⟩

/-- Read an optional value, or raise. -/
def orRaise (failure : ε) : Option α → Except ε α
  | some value => .ok value
  | none => .error failure

@[simp] theorem orRaise_eq_ok {failure : ε} {found : Option α} {value : α} :
    orRaise failure found = .ok value ↔ found = some value := by
  cases found <;> simp [orRaise]

/-- A traversal returns when every item does, and collects the values in order. -/
theorem mapM_eq_ok_iff {f : α → Except ε β} {inputs : List α} {outputs : List β} :
    inputs.mapM f = .ok outputs ↔
      List.Forall₂ (fun input output => f input = .ok output) inputs outputs := by
  induction inputs generalizing outputs with
  | nil =>
      rw [List.mapM_nil, List.forall₂_nil_left_iff]
      constructor
      · intro returned
        exact (Except.ok.inj returned).symm
      · rintro rfl
        rfl
  | cons input inputs induction =>
      rw [List.mapM_cons, bind_eq_ok]
      constructor
      · rintro ⟨first, ran, rest⟩
        obtain ⟨others, traversed, collected⟩ := bind_eq_ok.mp rest
        obtain rfl := Except.ok.inj collected
        exact .cons ran (induction.mp traversed)
      · intro related
        cases related with
        | cons ran rest => exact ⟨_, ran, bind_eq_ok.mpr ⟨_, induction.mpr rest, rfl⟩⟩

theorem exists_of_mapM_eq_ok {f : α → Except ε β} {inputs : List α} {outputs : List β}
    (traversed : inputs.mapM f = .ok outputs) {input : α} (member : input ∈ inputs) :
    ∃ output, f input = .ok output := by
  induction mapM_eq_ok_iff.mp traversed with
  | nil => contradiction
  | @cons first output rest outputs ran related induction =>
      rcases List.mem_cons.mp member with rfl | later
      · exact ⟨output, ran⟩
      · exact induction (mapM_eq_ok_iff.mpr related) later

theorem mapM_congr {f g : α → Except ε β} {inputs : List α}
    (same : ∀ input ∈ inputs, f input = g input) : inputs.mapM f = inputs.mapM g := by
  induction inputs with
  | nil => rfl
  | cons input inputs induction =>
      rw [List.forall_mem_cons] at same
      rw [List.mapM_cons, List.mapM_cons, same.1, induction same.2]

/-- A traversal of a range collects one value for each index. -/
theorem mapM_range_eq_ok_iff {ι : Type u} {f : ι → Except ε β} {g : ℕ → ι} {n : ℕ}
    {outputs : List β} :
    ((List.range n).map g).mapM f = .ok outputs ↔
      outputs.length = n ∧ ∀ i < n, ∃ output, outputs[i]? = some output ∧ f (g i) = .ok output := by
  rw [mapM_eq_ok_iff, List.forall₂_map_left_iff, List.forall₂_iff_get]
  constructor
  · rintro ⟨length, related⟩
    rw [List.length_range] at length
    refine ⟨length.symm, fun i bound => ⟨outputs[i], List.getElem?_eq_getElem (by omega), ?_⟩⟩
    simpa using related i (by rwa [List.length_range]) (by omega)
  · rintro ⟨rfl, related⟩
    refine ⟨List.length_range, fun i inside bound => ?_⟩
    obtain ⟨output, found, ran⟩ := related i bound
    obtain rfl := Option.some.inj ((List.getElem?_eq_getElem bound).symm.trans found)
    simpa using ran

theorem mapM_eq_map {f : α → Except ε β} {g : α → β} {inputs : List α}
    (returns : ∀ input ∈ inputs, f input = .ok (g input)) :
    inputs.mapM f = .ok (inputs.map g) := by
  rw [mapM_eq_ok_iff, List.forall₂_map_right_iff, List.forall₂_same]
  exact returns

theorem exists_mapM_eq_ok {f : α → Except ε β} {inputs : List α}
    (returns : ∀ input ∈ inputs, ∃ output, f input = .ok output) :
    ∃ outputs, inputs.mapM f = .ok outputs := by
  induction inputs with
  | nil => exact ⟨[], rfl⟩
  | cons input inputs induction =>
      rw [List.forall_mem_cons] at returns
      obtain ⟨⟨first, ran⟩, others⟩ := returns
      obtain ⟨rest, traversed⟩ := induction others
      exact ⟨first :: rest, by rw [List.mapM_cons, ran, ok_bind, traversed, ok_bind]; rfl⟩

/-- A traversal of a prefix returns a prefix. -/
theorem mapM_take {f : α → Except ε β} {inputs : List α} {outputs : List β} (n : ℕ)
    (traversed : inputs.mapM f = .ok outputs) :
    (inputs.take n).mapM f = .ok (outputs.take n) :=
  mapM_eq_ok_iff.mpr (List.forall₂_take n (mapM_eq_ok_iff.mp traversed))

/-- Two traversals whose items are related return related lists. -/
theorem exists_mapM_related {f g : α → Except ε β} {Related : β → β → Prop} {inputs : List α}
    {outputs : List β}
    (related : ∀ input output, f input = .ok output →
      ∃ output', g input = .ok output' ∧ Related output' output)
    (traversed : inputs.mapM f = .ok outputs) :
    ∃ outputs', inputs.mapM g = .ok outputs' ∧ List.Forall₂ Related outputs' outputs := by
  induction mapM_eq_ok_iff.mp traversed with
  | nil => exact ⟨[], rfl, .nil⟩
  | @cons input output inputs outputs ran rest induction =>
      obtain ⟨first, ran', holds⟩ := related input output ran
      obtain ⟨others, traversed', pairs⟩ := induction (mapM_eq_ok_iff.mpr rest)
      exact ⟨first :: others, by rw [List.mapM_cons, ran', ok_bind, traversed', ok_bind]; rfl,
        .cons holds pairs⟩

end Fallible
