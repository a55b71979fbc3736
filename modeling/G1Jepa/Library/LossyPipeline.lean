import Mathlib.Algebra.Order.BigOperators.Group.Multiset
import Mathlib.Data.Fintype.BigOperators
import Mathlib.Tactic.Abel

/-!
# Pipelines that lose items

Items arrive at a common queue and go on to the lane of their class, from which they are handled in
order. The common queue refuses new items when it is full and a full lane drops one of its items,
so items are lost; what is handled keeps the order of its class, and every item is accounted for.
-/

namespace LossyPipeline

variable {α κ : Type*}

/-- Where the items are; the last three fields are histories. -/
@[ext] structure Pipeline (α κ : Type*) where
  front : List α
  lanes : κ → List α
  arrived : List α
  handled : List α
  lost : List α

variable [DecidableEq κ] {classOf : α → κ} {room : ℕ} {capacity : κ → ℕ}
  {p q : Pipeline α κ}

/-- Nothing has arrived. -/
def Pipeline.empty : Pipeline α κ where
  front := []
  lanes _ := []
  arrived := []
  handled := []
  lost := []

/-- What can happen next to the items. -/
inductive Moves (classOf : α → κ) (room : ℕ) (capacity : κ → ℕ) (p : Pipeline α κ) :
    Pipeline α κ → Prop
  | idle : Moves classOf room capacity p p
  | accepted (x : α) : Moves classOf room capacity p
      { p with
        front := p.front ++ [x]
        arrived := p.arrived ++ [x] }
  | refused (x : α) : room ≤ p.front.length → Moves classOf room capacity p
      { p with
        arrived := p.arrived ++ [x]
        lost := p.lost ++ [x] }
  | passed {x : α} {rest : List α} : p.front = x :: rest → Moves classOf room capacity p
      { p with
        front := rest
        lanes := Function.update p.lanes (classOf x) (p.lanes (classOf x) ++ [x]) }
  | replaced {x old : α} {rest before after : List α} : p.front = x :: rest →
      p.lanes (classOf x) = before ++ old :: after →
      capacity (classOf x) ≤ (p.lanes (classOf x)).length → Moves classOf room capacity p
      { p with
        front := rest
        lanes := Function.update p.lanes (classOf x) (before ++ after ++ [x])
        lost := p.lost ++ [old] }
  | finished {k : κ} {x : α} {rest : List α} : p.lanes k = x :: rest →
      Moves classOf room capacity p
      { p with
        lanes := Function.update p.lanes k rest
        handled := p.handled ++ [x] }

/-- A pipeline with the fields that a move leads to. -/
theorem Moves.congr {next : Pipeline α κ} (moves : Moves classOf room capacity p q)
    (front : next.front = q.front) (lanes : next.lanes = q.lanes)
    (arrived : next.arrived = q.arrived) (handled : next.handled = q.handled)
    (lost : next.lost = q.lost) : Moves classOf room capacity p next := by
  obtain rfl : next = q := Pipeline.ext front lanes arrived handled lost
  exact moves

/-- The items of a class. -/
def ofClass (classOf : α → κ) (k : κ) (items : List α) : List α :=
  items.filter fun x => decide (classOf x = k)

@[simp] theorem ofClass_append (k : κ) (left right : List α) :
    ofClass classOf k (left ++ right) = ofClass classOf k left ++ ofClass classOf k right :=
  List.filter_append ..

@[simp] theorem ofClass_nil (k : κ) : ofClass classOf k [] = [] := rfl

theorem ofClass_cons_self (x : α) (items : List α) :
    ofClass classOf (classOf x) (x :: items) = x :: ofClass classOf (classOf x) items := by
  simp [ofClass]

theorem ofClass_cons_of_ne {k : κ} {x : α} (other : classOf x ≠ k) (items : List α) :
    ofClass classOf k (x :: items) = ofClass classOf k items := by
  simp [ofClass, other]

/-- The items of a class that have not been lost, in the order of their arrival. -/
def kept (classOf : α → κ) (p : Pipeline α κ) (k : κ) : List α :=
  ofClass classOf k p.handled ++ p.lanes k ++ ofClass classOf k p.front

/-- A lane has the items of its class, and what is kept of a class is in order. -/
structure Ordered (classOf : α → κ) (p : Pipeline α κ) : Prop where
  lanes : ∀ k, ∀ x ∈ p.lanes k, classOf x = k
  kept : ∀ k, (kept classOf p k).Sublist (ofClass classOf k p.arrived)

omit [DecidableEq κ] in
theorem ordered_empty [DecidableEq κ] : Ordered classOf (Pipeline.empty : Pipeline α κ) where
  lanes _ _ member := absurd member List.not_mem_nil
  kept _ := List.Sublist.refl []

theorem mem_lanes_update {k : κ} {items : List α} (lanes : ∀ k, ∀ x ∈ p.lanes k, classOf x = k)
    (own : ∀ x ∈ items, classOf x = k) :
    ∀ j, ∀ x ∈ Function.update p.lanes k items j, classOf x = j := by
  intro j x member
  by_cases same : j = k
  · subst same
    rw [Function.update_self] at member
    exact own x member
  · rw [Function.update_of_ne same] at member
    exact lanes j x member

/-- No move lets items of a class pass each other. -/
theorem Ordered.moves (ordered : Ordered classOf p)
    (moves : Moves classOf room capacity p q) : Ordered classOf q := by
  cases moves with
  | idle => exact ordered
  | accepted x =>
      refine ⟨ordered.lanes, fun k => ?_⟩
      have before := ordered.kept k
      rw [LossyPipeline.kept] at before ⊢
      rw [ofClass_append, ofClass_append, ← List.append_assoc]
      exact before.append (List.Sublist.refl _)
  | refused x full =>
      refine ⟨ordered.lanes, fun k => ?_⟩
      have before := ordered.kept k
      rw [LossyPipeline.kept] at before ⊢
      rw [ofClass_append]
      exact before.trans (List.sublist_append_left _ _)
  | @passed x rest first =>
      refine ⟨mem_lanes_update ordered.lanes ?_, fun k => ?_⟩
      · intro y member
        rcases List.mem_append.mp member with old | new
        · exact ordered.lanes _ y old
        · rw [List.mem_singleton.mp new]
      · have before := ordered.kept k
        rw [LossyPipeline.kept, first] at before
        rw [LossyPipeline.kept]
        by_cases same : k = classOf x
        · subst same
          rw [ofClass_cons_self] at before
          simpa using before
        · rw [ofClass_cons_of_ne (Ne.symm same)] at before
          simpa [Function.update_of_ne same] using before
  | @replaced x old rest earlier later first lane full =>
      have fewer : (earlier ++ later).Sublist (p.lanes (classOf x)) := by
        rw [lane]
        exact (List.Sublist.refl _).append (List.sublist_cons_self _ _)
      refine ⟨mem_lanes_update ordered.lanes ?_, fun k => ?_⟩
      · intro y member
        rcases List.mem_append.mp member with remaining | new
        · exact ordered.lanes _ y (fewer.subset remaining)
        · rw [List.mem_singleton.mp new]
      · have before := ordered.kept k
        rw [LossyPipeline.kept, first] at before
        rw [LossyPipeline.kept]
        by_cases same : k = classOf x
        · subst same
          rw [ofClass_cons_self] at before
          refine List.Sublist.trans ?_ before
          simp only [Function.update_self, List.append_assoc, List.singleton_append]
          rw [← List.append_assoc earlier]
          exact (List.Sublist.refl _).append (fewer.append (List.Sublist.refl _))
        · rw [ofClass_cons_of_ne (Ne.symm same)] at before
          simpa [Function.update_of_ne same] using before
  | @finished k x rest lane =>
      have own : ∀ y ∈ x :: rest, classOf y = k := lane ▸ ordered.lanes k
      refine ⟨mem_lanes_update ordered.lanes fun y member => own y (List.mem_cons_of_mem _ member),
        fun j => ?_⟩
      have before := ordered.kept j
      rw [LossyPipeline.kept] at before ⊢
      rw [ofClass_append]
      by_cases same : j = k
      · subst same
        have single : ofClass classOf j [x] = [x] := by simp [ofClass, own]
        rw [lane] at before
        simpa [single] using before
      · have other : ofClass classOf j [x] = [] := by
          simp [ofClass, own x List.mem_cons_self, Ne.symm same]
        simpa [other, Function.update_of_ne same] using before

/-! ## Every item is accounted for -/

section Conserved

variable [Fintype κ]

/-- An item is handled, lost or still on its way. -/
def Conserved (p : Pipeline α κ) : Prop :=
  (p.arrived : Multiset α) =
    (p.handled : Multiset α) + ∑ k, (p.lanes k : Multiset α) + (p.front : Multiset α) +
      (p.lost : Multiset α)

omit [DecidableEq κ] [Fintype κ] in
theorem coe_cons (x : α) (items : List α) :
    ((x :: items : List α) : Multiset α) = {x} + (items : Multiset α) := by
  rw [← Multiset.cons_coe, Multiset.singleton_add]

omit [DecidableEq κ] in
theorem conserved_empty : Conserved (Pipeline.empty : Pipeline α κ) := by
  simp [Conserved, Pipeline.empty]

theorem sum_lanes_update (p : Pipeline α κ) (k : κ) (items : List α) :
    ∑ j, (Function.update p.lanes k items j : Multiset α) + (p.lanes k : Multiset α) =
      ∑ j, (p.lanes j : Multiset α) + (items : Multiset α) := by
  rw [← Finset.add_sum_erase _ _ (Finset.mem_univ k),
    ← Finset.add_sum_erase _ (fun j => (p.lanes j : Multiset α)) (Finset.mem_univ k),
    Function.update_self]
  have others : ∑ j ∈ Finset.univ.erase k, (Function.update p.lanes k items j : Multiset α) =
      ∑ j ∈ Finset.univ.erase k, (p.lanes j : Multiset α) := by
    refine Finset.sum_congr rfl fun j member => ?_
    rw [Function.update_of_ne (Finset.ne_of_mem_erase member)]
  rw [others]
  abel

/-- A lane that gains `more` and loses `fewer`. -/
theorem sum_lanes_update_eq {k : κ} {items : List α} {more fewer : Multiset α}
    (changed : (items : Multiset α) + fewer = (p.lanes k : Multiset α) + more) :
    ∑ j, (Function.update p.lanes k items j : Multiset α) + fewer =
      ∑ j, (p.lanes j : Multiset α) + more := by
  have total := sum_lanes_update p k items
  apply add_right_cancel (b := (p.lanes k : Multiset α))
  calc ∑ j, (Function.update p.lanes k items j : Multiset α) + fewer + (p.lanes k : Multiset α)
      = ∑ j, (Function.update p.lanes k items j : Multiset α) + (p.lanes k : Multiset α) +
          fewer := by abel
    _ = ∑ j, (p.lanes j : Multiset α) + ((items : Multiset α) + fewer) := by rw [total]; abel
    _ = ∑ j, (p.lanes j : Multiset α) + more + (p.lanes k : Multiset α) := by rw [changed]; abel

theorem Conserved.moves (conserved : Conserved p) (moves : Moves classOf room capacity p q) :
    Conserved q := by
  rw [Conserved] at conserved
  cases moves with
  | idle => exact conserved
  | accepted x =>
      rw [Conserved]
      dsimp only
      rw [← Multiset.coe_add, ← Multiset.coe_add, conserved]
      abel
  | refused x full =>
      rw [Conserved]
      dsimp only
      rw [← Multiset.coe_add, ← Multiset.coe_add, conserved]
      abel
  | @passed x rest first =>
      have sums := @sum_lanes_update_eq _ _ _ p _ (classOf x) (p.lanes (classOf x) ++ [x]) {x} 0
        (by rw [← Multiset.coe_add, Multiset.coe_singleton, add_zero])
      rw [add_zero] at sums
      have head : (p.front : Multiset α) = {x} + (rest : Multiset α) := by rw [first, coe_cons]
      rw [Conserved]
      dsimp only
      rw [conserved, sums, head]
      abel
  | @replaced x old rest earlier later first lane full =>
      have sums := @sum_lanes_update_eq _ _ _ p _ (classOf x) (earlier ++ later ++ [x]) {x} {old}
        (by
          rw [lane, ← Multiset.coe_add, ← Multiset.coe_add, ← Multiset.coe_add, coe_cons old later,
            Multiset.coe_singleton]
          abel)
      have head : (p.front : Multiset α) = {x} + (rest : Multiset α) := by rw [first, coe_cons]
      rw [Conserved]
      dsimp only
      rw [conserved, head, ← Multiset.coe_add, Multiset.coe_singleton]
      calc (p.handled : Multiset α) + ∑ k, (p.lanes k : Multiset α) + ({x} + (rest : Multiset α)) +
            (p.lost : Multiset α)
          = (p.handled : Multiset α) + (∑ k, (p.lanes k : Multiset α) + {x}) +
              (rest : Multiset α) + (p.lost : Multiset α) := by abel
        _ = _ := by rw [← sums]; abel
  | @finished k x rest lane =>
      have sums := @sum_lanes_update_eq _ _ _ p _ k rest 0 {x}
        (by rw [lane, coe_cons]; abel)
      rw [add_zero] at sums
      rw [Conserved]
      dsimp only
      rw [conserved, ← sums, ← Multiset.coe_add, Multiset.coe_singleton]
      abel

/-! ## When nothing is lost -/

omit [DecidableEq κ] in
theorem length_front_le (conserved : Conserved p) :
    p.handled.length + p.front.length ≤ p.arrived.length := by
  have total := congrArg Multiset.card conserved
  simp only [Multiset.card_add, Multiset.coe_card] at total
  omega

/-- An item is lost only when too many items are on their way, in all or in its class. -/
theorem lost_eq (ordered : Ordered classOf p) (conserved : Conserved p)
    (moves : Moves classOf room capacity p q)
    (few : q.arrived.length ≤ q.handled.length + room)
    (fewOfClass : ∀ k, (ofClass classOf k p.arrived).length ≤
      (ofClass classOf k p.handled).length + capacity k) : q.lost = p.lost := by
  cases moves with
  | idle => rfl
  | accepted x => rfl
  | refused x full =>
      have lengths := length_front_le conserved
      have few : (p.arrived ++ [x]).length ≤ p.handled.length + room := few
      rw [List.length_append, List.length_singleton] at few
      omega
  | passed => rfl
  | @replaced x old rest earlier later first lane full =>
      have lengths := (ordered.kept (classOf x)).length_le
      have bound := fewOfClass (classOf x)
      rw [kept, first, ofClass_cons_self, List.length_append, List.length_append,
        List.length_cons] at lengths
      omega
  | finished => rfl

end Conserved

end LossyPipeline
