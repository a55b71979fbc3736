import Mathlib.Algebra.BigOperators.Field
import Mathlib.Algebra.BigOperators.Group.Finset.Basic
import Mathlib.Tactic.Common

/-!
# Arrays in row-major order

An array is a shape and the flat list of its entries, the last index varying fastest. Reshaping
keeps the list and changes the reading of it; `ravel` and `unravel` convert between the two. A mean
over some axes is taken entry by entry over the indices that the other axes leave open.
-/

namespace RowMajor

/-! ## Indices -/

/-- The position of an index in the flat list of an array. -/
def ravel : List ℕ → List ℕ → ℕ
  | _ :: shape, i :: index => i * shape.prod + ravel shape index
  | _, _ => 0

/-- The index of a position in the flat list. -/
def unravel : List ℕ → ℕ → List ℕ
  | [], _ => []
  | _ :: shape, position => position / shape.prod :: unravel shape (position % shape.prod)

/-- The index names an entry of an array with this shape. -/
def Inside (shape index : List ℕ) : Prop :=
  List.Forall₂ (· < ·) index shape

@[simp] theorem inside_nil : Inside [] [] := .nil

@[simp] theorem inside_cons {n i : ℕ} {shape index : List ℕ} :
    Inside (n :: shape) (i :: index) ↔ i < n ∧ Inside shape index :=
  List.forall₂_cons

theorem ravel_lt {shape index : List ℕ} (inside : Inside shape index) :
    ravel shape index < shape.prod := by
  induction inside with
  | nil => exact Nat.zero_lt_one
  | @cons i n index shape bound _ induction =>
      rw [ravel, List.prod_cons]
      calc
        i * shape.prod + ravel shape index < (i + 1) * shape.prod := by
          rw [Nat.add_mul, Nat.one_mul]
          exact Nat.add_lt_add_left induction _
        _ ≤ n * shape.prod := Nat.mul_le_mul_right _ bound

/-- The two conversions are inverse. -/
theorem unravel_ravel {shape index : List ℕ} (inside : Inside shape index) :
    unravel shape (ravel shape index) = index := by
  induction inside with
  | nil => rfl
  | @cons i n index shape _ rest induction =>
      have bound : ravel shape index < shape.prod := ravel_lt rest
      have quotient : (i * shape.prod + ravel shape index) / shape.prod = i := by
        rw [Nat.add_comm, Nat.add_mul_div_right _ _ (by omega), Nat.div_eq_of_lt bound,
          Nat.zero_add]
      rw [ravel, unravel, quotient, Nat.mul_add_mod_of_lt bound, induction]

/-! ## Arrays -/

/-- An array whose flat list fits its shape. -/
structure NdArray (α : Type*) where
  shape : List ℕ
  data : List α
  size_eq : data.length = shape.prod

namespace NdArray

variable {α : Type*}

/-- The entry with a given index. -/
def entry [Zero α] (a : NdArray α) (index : List ℕ) : α :=
  a.data.getD (ravel a.shape index) 0

/-- The array with given entries. -/
def ofFn (shape : List ℕ) (f : List ℕ → α) : NdArray α where
  shape
  data := (List.range shape.prod).map fun position => f (unravel shape position)
  size_eq := by rw [List.length_map, List.length_range]

/-- The same entries under another shape, if it has as many. -/
def reshape? (a : NdArray α) (shape : List ℕ) : Option (NdArray α) :=
  if same : a.shape.prod = shape.prod then some ⟨shape, a.data, a.size_eq.trans same⟩ else none

/-- The sub-array at a position of the first axis, for an array that has one. -/
def sub (a : NdArray α) (i : ℕ) : Option (NdArray α) :=
  match a with
  | ⟨n :: shape, data, size_eq⟩ =>
      if inside : i < n then
        some
          { shape
            data := (data.drop (i * shape.prod)).take shape.prod
            size_eq := by
              have bound : (i + 1) * shape.prod ≤ n * shape.prod :=
                Nat.mul_le_mul_right _ inside
              rw [List.prod_cons] at size_eq
              rw [List.length_take, List.length_drop, size_eq]
              rw [Nat.add_mul, Nat.one_mul] at bound
              omega }
      else none
  | ⟨[], _, _⟩ => none

@[simp] theorem shape_ofFn (shape : List ℕ) (f : List ℕ → α) : (ofFn shape f).shape = shape := rfl

section Entries

variable [Zero α]

theorem entry_ofFn {shape index : List ℕ} (f : List ℕ → α) (inside : Inside shape index) :
    (ofFn shape f).entry index = f index := by
  have position : (List.range shape.prod)[ravel shape index]? = some (ravel shape index) :=
    List.getElem?_range (ravel_lt inside)
  rw [entry, ofFn, List.getD_eq_getElem?_getD, List.getElem?_map, position, Option.map_some,
    Option.getD_some, unravel_ravel inside]

/-- Reshaping keeps the entry at every position of the flat list. -/
theorem exists_reshape? {a : NdArray α} {shape : List ℕ} (same : a.shape.prod = shape.prod) :
    ∃ reshaped, a.reshape? shape = some reshaped ∧ reshaped.shape = shape ∧
      ∀ index index', ravel shape index = ravel a.shape index' →
        reshaped.entry index = a.entry index' := by
  refine ⟨_, dif_pos same, rfl, fun index index' position => ?_⟩
  rw [entry, entry, position]

theorem exists_sub {a : NdArray α} {n i : ℕ} {shape : List ℕ} (shaped : a.shape = n :: shape)
    (bound : i < n) :
    ∃ part, a.sub i = some part ∧ part.shape = shape ∧
      ∀ index, Inside shape index → part.entry index = a.entry (i :: index) := by
  obtain ⟨_, data, size_eq⟩ := a
  obtain rfl : _ = n :: shape := shaped
  refine ⟨_, dif_pos bound, rfl, fun index inside => ?_⟩
  have position := ravel_lt inside
  rw [entry, entry, List.getD_eq_getElem?_getD, List.getD_eq_getElem?_getD,
    List.getElem?_take_of_lt position, List.getElem?_drop]
  rfl

end Entries

end NdArray

/-! ## Means over axes -/

/-- The lengths of the axes that a mask marks, or of the others. -/
def dims (marked : Bool) (mask : List Bool) (shape : List ℕ) : List ℕ :=
  (mask.zip shape).filterMap fun axis => if axis.1 = marked then some axis.2 else none

section Means

variable {K : Type*}

/-- The sum over the marked axes of the entries at an index of the other axes. -/
def sumOver [AddCommMonoid K] : List Bool → List ℕ → (List ℕ → K) → List ℕ → K
  | true :: mask, n :: shape, f, index =>
      ∑ i ∈ Finset.range n, sumOver mask shape (fun rest => f (i :: rest)) index
  | false :: mask, _ :: shape, f, i :: index =>
      sumOver mask shape (fun rest => f (i :: rest)) index
  | _, _, f, _ => f []

/-- The mask of a list of axis numbers. -/
def axisMask (axes : List ℕ) (rank : ℕ) : List Bool :=
  (List.range rank).map fun axis => axes.contains axis

/-- The mean over the axes with the given numbers. -/
def NdArray.mean [DivisionRing K] (a : NdArray K) (axes : List ℕ) : NdArray K :=
  let mask := axisMask axes a.shape.length
  .ofFn (dims false mask a.shape) fun index =>
    sumOver mask a.shape a.entry index / ((dims true mask a.shape).prod : ℕ)

theorem NdArray.entry_mean [DivisionRing K] {a : NdArray K} {shape index : List ℕ}
    (shaped : a.shape = shape) (axes : List ℕ)
    (inside : Inside (dims false (axisMask axes shape.length) shape) index) :
    (a.mean axes).entry index = sumOver (axisMask axes shape.length) shape a.entry index /
      ((dims true (axisMask axes shape.length) shape).prod : ℕ) := by
  rw [← shaped] at inside ⊢
  exact entry_ofFn _ inside

end Means

/-- A sum over the positions of two axes, row by row. -/
theorem sum_range_mul {M : Type*} [AddCommMonoid M] (f : ℕ → M) (m n : ℕ) :
    ∑ position ∈ Finset.range (m * n), f position =
      ∑ i ∈ Finset.range m, ∑ j ∈ Finset.range n, f (i * n + j) := by
  induction m with
  | zero => simp
  | succ m induction =>
      rw [Nat.add_mul, Nat.one_mul, Finset.sum_range_add, induction, Finset.sum_range_succ]

end RowMajor
