import Mathlib

/-!
# Search trees

A search tree is represented by the list of its nodes in the order of their keys, whatever the
shape of the tree. A key splits the list into the nodes up to it and the nodes above it; every
query and every update acts where the list is split.
-/

namespace SearchTree

variable {ν κ : Type*} [LinearOrder κ] (key : ν → κ)

/-- The keys of the nodes ascend. -/
def Ascending (tree : List ν) : Prop :=
  tree.Pairwise fun x y => key x < key y

/-- The node with the key `k`. -/
def lookup (tree : List ν) (k : κ) : Option ν :=
  tree.find? fun x => decide (key x = k)

/-- The node with the greatest key up to `k`. -/
def lookupPredEq (tree : List ν) (k : κ) : Option ν :=
  (tree.filter fun x => decide (key x ≤ k)).getLast?

/-- The node with the greatest key below `k`. -/
def findPred (tree : List ν) (k : κ) : Option ν :=
  (tree.filter fun x => decide (key x < k)).getLast?

/-- The nodes with keys above `k`, in their order. -/
def above (tree : List ν) (k : κ) : List ν :=
  tree.filter fun x => decide (k < key x)

/-- The tree with a node whose key it does not have. -/
def insert (tree : List ν) (node : ν) : List ν :=
  (tree.filter fun x => decide (key x < key node)) ++ node :: above key tree (key node)

/-- The tree without the node with the key `k`. -/
def delete (tree : List ν) (k : κ) : List ν :=
  tree.filter fun x => decide (key x ≠ k)

/-- The tree after a change of the node with the key `k` in its place. -/
def modify (tree : List ν) (k : κ) (f : ν → ν) : List ν :=
  tree.map fun x => if key x = k then f x else x

/-- A tree, split at a key. -/
structure SplitAt (k : κ) (tree before after : List ν) : Prop where
  append : tree = before ++ after
  low : ∀ x ∈ before, key x ≤ k
  high : ∀ x ∈ after, k < key x

variable {key} {k : κ} {tree before after : List ν}

theorem exists_splitAt (ascending : Ascending key tree) (k : κ) :
    ∃ before after, SplitAt key k tree before after := by
  induction tree with
  | nil => exact ⟨[], [], rfl, by simp, by simp⟩
  | cons x rest induction =>
      obtain ⟨first, ascending⟩ := List.pairwise_cons.mp ascending
      rcases le_or_gt (key x) k with low | high
      · obtain ⟨before, after, rfl, lows, highs⟩ := induction ascending
        exact ⟨x :: before, after, rfl, List.forall_mem_cons.mpr ⟨low, lows⟩, highs⟩
      · refine ⟨[], x :: rest, rfl, by simp, List.forall_mem_cons.mpr ⟨high, ?_⟩⟩
        exact fun y member => high.trans (first y member)

/-- An ascending tree is split at the key of any of its nodes, which is the last one up to it. -/
theorem splitAt_key {node : ν} (ascending : Ascending key (before ++ node :: after)) :
    SplitAt key (key node) (before ++ node :: after) (before ++ [node]) after := by
  obtain ⟨-, later, earlier⟩ := List.pairwise_append.mp ascending
  refine ⟨by simp, ?_, fun x member => (List.pairwise_cons.mp later).1 x member⟩
  intro x member
  rcases List.mem_append.mp member with inside | last
  · exact (earlier x inside node List.mem_cons_self).le
  · rw [List.mem_singleton.mp last]

namespace SplitAt

variable (split : SplitAt key k tree before after)
include split

theorem filter_le : (tree.filter fun x => decide (key x ≤ k)) = before := by
  rw [split.append, List.filter_append, List.filter_eq_self.mpr (by simpa using split.low),
    List.filter_eq_nil_iff.mpr (by simpa using split.high), List.append_nil]

theorem above_eq : above key tree k = after := by
  rw [above, split.append, List.filter_append,
    List.filter_eq_nil_iff.mpr (by simpa using split.low),
    List.filter_eq_self.mpr (by simpa using split.high), List.nil_append]

theorem lookupPredEq_eq : lookupPredEq key tree k = before.getLast? := by
  rw [lookupPredEq, split.filter_le]

/-- No key is between `k` and the next one. -/
theorem lookup_next {next : κ} (larger : k < next) (least : ∀ x ∈ after, next ≤ key x)
    (ascending : Ascending key tree) :
    lookup key tree next = after.head?.filter fun x => decide (key x = next) := by
  have early : before.find? (fun x => decide (key x = next)) = none := by
    rw [List.find?_eq_none]
    intro x member
    simpa using ((split.low x member).trans_lt larger).ne
  rw [lookup, split.append, List.find?_append, early, Option.none_or]
  cases after with
  | nil => rfl
  | cons x rest =>
      rw [List.find?_cons, List.head?_cons, Option.filter_some]
      cases same : decide (key x = next) with
      | true => rfl
      | false =>
          have differs : key x ≠ next := by simpa using same
          have bound := (least x List.mem_cons_self).lt_of_ne differs.symm
          rw [split.append] at ascending
          have later := (List.pairwise_cons.mp (List.pairwise_append.mp ascending).2.1).1
          rw [List.find?_eq_none.mpr]
          · rfl
          · intro y member
            simpa using (bound.trans (later y member)).ne'

theorem lookup_eq_none (absent : ∀ x ∈ before, key x ≠ k) : lookup key tree k = none := by
  rw [lookup, split.append, List.find?_eq_none]
  intro x member
  rcases List.mem_append.mp member with early | late
  · simpa using absent x early
  · simpa using (split.high x late).ne'

/-- A node whose key the tree does not have comes between the two parts. -/
theorem insert_eq {node : ν} (own : key node = k) (absent : ∀ x ∈ before, key x ≠ k) :
    insert key tree node = before ++ node :: after := by
  have lows : (tree.filter fun x => decide (key x < key node)) = before := by
    rw [split.append, List.filter_append, List.filter_eq_self.mpr, List.filter_eq_nil_iff.mpr,
      List.append_nil]
    · intro x member
      simpa [own] using (split.high x member).le
    · intro x member
      simpa [own] using (split.low x member).lt_of_ne (absent x member)
  rw [insert, lows, own, split.above_eq]

end SplitAt

/-! ## Changes of a node -/

section Node

variable {node : ν} (ascending : Ascending key (before ++ node :: after))
include ascending

theorem ne_key_of_ascending : (∀ x ∈ before, key x ≠ key node) ∧ ∀ x ∈ after, key x ≠ key node := by
  obtain ⟨-, later, earlier⟩ := List.pairwise_append.mp ascending
  exact ⟨fun x member => (earlier x member node List.mem_cons_self).ne,
    fun x member => ((List.pairwise_cons.mp later).1 x member).ne'⟩

theorem lookup_key : lookup key (before ++ node :: after) (key node) = some node := by
  rw [lookup, List.find?_append, List.find?_eq_none.mpr, Option.none_or, List.find?_cons]
  · simp
  · intro x member
    simpa using (ne_key_of_ascending ascending).1 x member

theorem delete_key : delete key (before ++ node :: after) (key node) = before ++ after := by
  obtain ⟨earlier, later⟩ := ne_key_of_ascending ascending
  rw [delete, List.filter_append, List.filter_cons_of_neg (by simp),
    List.filter_eq_self.mpr (by simpa using earlier),
    List.filter_eq_self.mpr (by simpa using later)]

theorem modify_key (f : ν → ν) :
    modify key (before ++ node :: after) (key node) f = before ++ f node :: after := by
  obtain ⟨earlier, later⟩ := ne_key_of_ascending ascending
  rw [modify, List.map_append, List.map_cons, if_pos rfl]
  congr 1
  · exact (List.map_congr_left fun x member => if_neg (earlier x member)).trans
      (List.map_id' before)
  · congr 1
    exact (List.map_congr_left fun x member => if_neg (later x member)).trans (List.map_id' after)

theorem filter_lt_key :
    ((before ++ node :: after).filter fun x => decide (key x < key node)) = before := by
  obtain ⟨-, later, earlier⟩ := List.pairwise_append.mp ascending
  rw [List.filter_append, List.filter_eq_self.mpr, List.filter_eq_nil_iff.mpr, List.append_nil]
  · intro x member
    rcases List.mem_cons.mp member with rfl | inside
    · simp
    · simpa using ((List.pairwise_cons.mp later).1 x inside).le
  · intro x member
    simpa using earlier x member node List.mem_cons_self

theorem findPred_key : findPred key (before ++ node :: after) (key node) = before.getLast? := by
  rw [findPred, filter_lt_key ascending]

theorem above_key : above key (before ++ node :: after) (key node) = after :=
  (splitAt_key ascending).above_eq

end Node

end SearchTree
