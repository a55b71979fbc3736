import Mathlib.Algebra.Order.BigOperators.Group.Finset
import Mathlib.Algebra.Order.Field.Rat
import Mathlib.Data.Fintype.Basic
import Mathlib.Data.List.Sort
import Mathlib.Data.Matrix.Mul
import Mathlib.Data.Rat.Sqrt
import Mathlib.Tactic.Common
import G1Jepa.Library.Fallible

/-!
# Numbers and array routines

The pipeline computes with `numpy` arrays of floats. Here a float is an element of an ordered
field `K`, computed exactly, and `NanOr K` adds the value NaN wherever the source can produce it.
The routines that leave the field (`sqrt`, `cos`, `sin`, `pi`) are a parameter.
-/

namespace G1Jepa

/-! The numerals of the source, each with one named instance, so that a numeral is the same term
in every module. -/

instance two_atLeastTwo : Nat.AtLeastTwo 2 := inferInstance
instance four_atLeastTwo : Nat.AtLeastTwo 4 := inferInstance
instance five_atLeastTwo : Nat.AtLeastTwo 5 := inferInstance
instance eight_atLeastTwo : Nat.AtLeastTwo 8 := inferInstance
instance ten_atLeastTwo : Nat.AtLeastTwo 10 := inferInstance
instance twentyFive_atLeastTwo : Nat.AtLeastTwo 25 := inferInstance
instance thirtyFive_atLeastTwo : Nat.AtLeastTwo 35 := inferInstance
instance hundred_atLeastTwo : Nat.AtLeastTwo 100 := inferInstance
instance thousand_atLeastTwo : Nat.AtLeastTwo 1000 := inferInstance
instance three_neZero : NeZero 3 := inferInstance
instance seven_neZero : NeZero 7 := inferInstance

/-- A float that may be NaN, which is `none`. -/
abbrev NanOr (K : Type) := Option K

namespace NanOr

variable {K : Type} [LinearOrder K]

/-- `value > bound`, false for NaN. -/
def exceeds (value : NanOr K) (bound : K) : Bool :=
  value.any fun number => decide (bound < number)

/-- `value < bound`, false for NaN. -/
def below (value : NanOr K) (bound : K) : Bool :=
  value.any fun number => decide (number < bound)

@[simp] theorem exceeds_none (bound : K) : exceeds (none : NanOr K) bound = false := rfl

@[simp] theorem exceeds_some (number bound : K) :
    exceeds (some number) bound = decide (bound < number) := rfl

@[simp] theorem below_none (bound : K) : below (none : NanOr K) bound = false := rfl

@[simp] theorem below_some (number bound : K) :
    below (some number) bound = decide (number < bound) := rfl

theorem exceeds_mono {lower higher : K} (ordered : lower ≤ higher) {value : NanOr K}
    (above : value.exceeds higher = true) : value.exceeds lower = true := by
  cases value with
  | none => exact above
  | some number =>
      rw [exceeds_some, decide_eq_true_eq] at above ⊢
      exact ordered.trans_lt above

theorem below_mono {lower higher : K} (ordered : lower ≤ higher) {value : NanOr K}
    (under : value.below lower = true) : value.below higher = true := by
  cases value with
  | none => exact under
  | some number =>
      rw [below_some, decide_eq_true_eq] at under ⊢
      exact under.trans_le ordered

theorem exceeds_eq_false_of_below {lower higher : K} (ordered : lower ≤ higher)
    {value : NanOr K} (under : value.below lower = true) : value.exceeds higher = false := by
  cases value with
  | none => rfl
  | some number =>
      rw [below_some, decide_eq_true_eq] at under
      rw [exceeds_some, decide_eq_false_iff_not]
      exact (under.trans_le ordered).not_gt

end NanOr

/-- The `numpy` functions that are not field operations. -/
structure Numpy (K : Type) [Zero K] [LE K] where
  /-- `np.sqrt`. -/
  sqrt : K → K
  /-- The square root is the non-negative one. -/
  sqrt_nonneg : ∀ x, 0 ≤ sqrt x
  /-- Only the square root of zero is zero. -/
  sqrt_eq_zero : ∀ x, 0 ≤ x → (sqrt x = 0 ↔ x = 0)
  /-- `np.cos`. -/
  cos : K → K
  /-- `np.sin`. -/
  sin : K → K
  /-- `np.pi`. -/
  pi : K

namespace Numpy

variable {K : Type} [Field K] [LinearOrder K] {ι : Type} [Fintype ι]

/-- `np.linalg.norm` of a vector. -/
def norm (np : Numpy K) (v : ι → K) : K :=
  np.sqrt (∑ i, v i * v i)

/-- `np.clip` of a vector, coordinate by coordinate. -/
def clip (v : ι → K) (low high : K) : ι → K :=
  fun i => min (max (v i) low) high

/-- `np.mean`, which is NaN for an empty array. -/
def mean (values : List K) : NanOr K :=
  if values = [] then none else some (values.sum / values.length)

/-- `np.std`, the root of the mean squared deviation from the mean. -/
def std (np : Numpy K) (values : List K) : NanOr K := do
  let centre ← mean values
  let variance ← mean (values.map fun x => (x - centre) * (x - centre))
  some (np.sqrt variance)

/-- `np.median`: the middle of the sorted values, or the mean of the two in the middle. -/
def median (values : List K) : NanOr K :=
  let part := values.insertionSort (· ≤ ·)
  if part.length % 2 = 1 then part[part.length / 2]?
  else do
    let low ← part[part.length / 2 - 1]?
    let high ← part[part.length / 2]?
    some ((low + high) / 2)

/-- `np.percentile`, which interpolates between two neighbours of the sorted values. -/
def percentile (values : List K) (q : ℕ) : NanOr K := do
  let part := values.insertionSort (· ≤ ·)
  let position := (values.length - 1) * q
  let low ← part[position / 100]?
  let high := part[position / 100 + 1]?.getD low
  some (low + ((position % 100 : ℕ) : K) / 100 * (high - low))

/-- `np.mean` of a condition: the share of the items that meet it. -/
def share {α : Type} (items : List α) (meets : α → Bool) : NanOr K :=
  mean (items.map fun item => if meets item then 1 else 0)

/-- `np.searchsorted` of an ascending array: the number of entries before the first that reaches
the value. -/
def searchsorted (ts : List ℕ) (value : ℤ) : ℕ :=
  (ts.takeWhile fun t : ℕ => decide ((t : ℤ) < value)).length

theorem le_of_getElem? {ts : List ℕ} (ascending : ts.Pairwise (· ≤ ·)) {i j s t : ℕ}
    (left : ts[i]? = some s) (right : ts[j]? = some t) (ordered : i ≤ j) : s ≤ t := by
  obtain ⟨inside, rfl⟩ := List.getElem?_eq_some_iff.mp left
  obtain ⟨inside', rfl⟩ := List.getElem?_eq_some_iff.mp right
  rcases ordered.lt_or_eq with before | rfl
  · exact List.pairwise_iff_getElem.mp ascending i j inside inside' before
  · exact le_rfl

/-- In an ascending array the entries before the insertion point are those below the value. -/
theorem searchsorted_le_iff {ts : List ℕ} (ascending : ts.Pairwise (· ≤ ·)) {value : ℤ} {i t : ℕ}
    (found : ts[i]? = some t) : searchsorted ts value ≤ i ↔ value ≤ t := by
  induction ts generalizing i with
  | nil => contradiction
  | cons first rest induction =>
      obtain ⟨least, tail⟩ := List.pairwise_cons.mp ascending
      rw [searchsorted, List.takeWhile_cons]
      by_cases before : (first : ℤ) < value
      · rw [if_pos (decide_eq_true before), List.length_cons]
        cases i with
        | zero =>
            obtain rfl : first = t := Option.some.inj found
            omega
        | succ i =>
            rw [Nat.succ_le_succ_iff]
            exact induction tail found
      · rw [if_neg (by simpa using before)]
        have bound : first ≤ t := by
          cases i with
          | zero => exact (Option.some.inj found).le
          | succ i => exact least t (List.mem_of_getElem? found)
        apply iff_of_true i.zero_le
        omega

theorem norm_nonneg (np : Numpy K) (v : ι → K) : 0 ≤ np.norm v :=
  np.sqrt_nonneg _

/-- Only the zero vector has norm zero. -/
theorem norm_eq_zero [IsStrictOrderedRing K] (np : Numpy K) {v : ι → K} :
    np.norm v = 0 ↔ v = 0 := by
  have squares : ∀ i ∈ Finset.univ, 0 ≤ v i * v i := fun i _ => mul_self_nonneg (v i)
  rw [norm, np.sqrt_eq_zero _ (Finset.sum_nonneg squares),
    Finset.sum_eq_zero_iff_of_nonneg squares]
  simp [funext_iff]

omit [LinearOrder K] in
theorem mean_of_ne_nil {values : List K} (nonempty : values ≠ []) :
    mean values = some (values.sum / values.length) := if_neg nonempty

omit [LinearOrder K] in
theorem mean_perm {left right : List K} (perm : left.Perm right) : mean left = mean right := by
  have empty : left = [] ↔ right = [] := by
    rw [← List.length_eq_zero_iff, ← List.length_eq_zero_iff, perm.length_eq]
  simp only [mean, empty, perm.sum_eq, perm.length_eq]

omit [LinearOrder K] in
/-- A share is a count over a length. -/
theorem share_eq {α : Type} (items : List α) (meets : α → Bool) :
    (share items meets : NanOr K) =
      if items = [] then none else some ((items.countP meets : K) / items.length) := by
  have total : (items.map fun item => if meets item then (1 : K) else 0).sum =
      items.countP meets := by
    induction items with
    | nil => simp
    | cons item items induction =>
        rw [List.map_cons, List.sum_cons, induction, List.countP_cons]
        cases meets item <;> simp [add_comm]
  rw [share, mean, total, List.length_map]
  exact if_congr List.map_eq_nil_iff rfl rfl

omit [LinearOrder K] in
theorem share_congr {α : Type} {items : List α} {p q : α → Bool}
    (same : ∀ item ∈ items, p item = q item) : (share items p : NanOr K) = share items q := by
  refine congrArg mean (List.map_congr_left fun item member => ?_)
  rw [same item member]

theorem std_perm (np : Numpy K) {left right : List K} (perm : left.Perm right) :
    np.std left = np.std right := by
  simp only [std, mean_perm perm]
  congr 1
  funext centre
  rw [mean_perm (perm.map _)]

/-- The standard deviation of at least one sample is a non-negative number. -/
theorem std_of_ne_nil (np : Numpy K) {values : List K} (nonempty : values ≠ []) :
    ∃ deviation, np.std values = some deviation ∧ 0 ≤ deviation := by
  rw [std, mean_of_ne_nil nonempty]
  simp only [Option.bind_eq_bind, Option.bind_some]
  rw [mean_of_ne_nil (by simpa using nonempty)]
  exact ⟨_, rfl, np.sqrt_nonneg _⟩

/-- The routines on rational numbers: roots of squares and the angle zero are exact. -/
def rational : Numpy ℚ where
  sqrt := Rat.sqrt
  sqrt_nonneg := Rat.sqrt_nonneg
  sqrt_eq_zero x nonneg := by
    have positive : Nat.sqrt x.den ≠ 0 := (Nat.sqrt_pos.mpr x.den_pos).ne'
    have numerator : 0 ≤ x.num := Rat.num_nonneg.mpr nonneg
    rw [Rat.sqrt, Rat.mkRat_eq_zero positive, Int.sqrt, Int.natCast_eq_zero, Nat.sqrt_eq_zero,
      ← Rat.num_eq_zero]
    omega
  cos _ := 1
  sin _ := 0
  pi := 22 / 7

end Numpy

end G1Jepa
