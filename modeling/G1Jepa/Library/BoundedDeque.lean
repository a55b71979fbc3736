import Mathlib.Data.List.Basic
import Mathlib.Tactic.Common

/-!
# Double-ended queues of bounded length

A `BoundedDeque α maxlen` keeps at most `maxlen` items and drops from the front when an append
exceeds the bound. `Recalls` says that a deque holds exactly the most recent items of a history,
and `Recalls.lag` reads an old item of the history back out of the deque.
-/

/-- A queue that never holds more than `maxlen` items. -/
structure BoundedDeque (α : Type*) (maxlen : ℕ) where
  /-- The items, oldest first. -/
  items : List α
  /-- The bound on the number of items. -/
  length_le : items.length ≤ maxlen

namespace BoundedDeque

variable {α : Type*} {maxlen : ℕ}

/-- The queue without items. -/
def empty : BoundedDeque α maxlen := ⟨[], Nat.zero_le maxlen⟩

/-- Add an item at the back, dropping the oldest items beyond the bound. -/
def append (deque : BoundedDeque α maxlen) (item : α) : BoundedDeque α maxlen where
  items := (deque.items ++ [item]).drop (deque.items.length + 1 - maxlen)
  length_le := by
    simp only [List.length_drop, List.length_append, List.length_singleton]
    omega

@[simp] theorem items_empty : (empty : BoundedDeque α maxlen).items = [] := rfl

/-- The deque holds exactly the last `maxlen` items of a history. -/
def Recalls (deque : BoundedDeque α maxlen) (history : List α) : Prop :=
  deque.items = history.drop (history.length - maxlen)

theorem recalls_empty : (empty : BoundedDeque α maxlen).Recalls [] := by
  simp [Recalls]

theorem Recalls.length {deque : BoundedDeque α maxlen} {history : List α}
    (recalls : deque.Recalls history) : deque.items.length = min history.length maxlen := by
  rw [recalls, List.length_drop]
  omega

theorem Recalls.append {deque : BoundedDeque α maxlen} {history : List α}
    (recalls : deque.Recalls history) (item : α) :
    (deque.append item).Recalls (history ++ [item]) := by
  have kept : deque.items.length = min history.length maxlen := recalls.length
  have dropped : history.length - maxlen ≤ history.length := Nat.sub_le _ _
  change (deque.items ++ [item]).drop (deque.items.length + 1 - maxlen) = _
  rw [kept, recalls, ← List.drop_append_of_le_length dropped, List.drop_drop,
    List.length_append, List.length_singleton]
  congr 1
  omega

/-- The item appended `lag` appends before the last one is still at distance `lag` from the back. -/
theorem Recalls.lag {deque : BoundedDeque α maxlen} {history : List α}
    (recalls : deque.Recalls history) {lag : ℕ} (within : lag < deque.items.length) :
    deque.items[deque.items.length - 1 - lag]? = history[history.length - 1 - lag]? := by
  have kept := recalls.length
  rw [kept, recalls, List.getElem?_drop]
  congr 1
  omega

end BoundedDeque
