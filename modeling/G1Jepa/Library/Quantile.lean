import Mathlib.Algebra.Order.Field.Basic
import Mathlib.Data.List.Sort
import Mathlib.Tactic.Common
import Mathlib.Tactic.FieldSimp
import Mathlib.Tactic.Linarith
import Mathlib.Tactic.Positivity
import Mathlib.Tactic.Ring

/-!
# Interpolated order statistics

A list, read as a function of its index that is linear between two neighbours, has a value at every
fraction of an index. On an ascending list these values ascend, so that all of them lie between the
first and the last item.
-/

namespace Quantile

variable {K : Type*} [Field K]

/-- The value of a list at the index `position / scale`. -/
def interpolate (scale : ℕ) (values : List K) (position : ℕ) : Option K := do
  let low ← values[position / scale]?
  let high := values[position / scale + 1]?.getD low
  some (low + ((position % scale : ℕ) : K) / scale * (high - low))

theorem interpolate_eq_some {scale : ℕ} {values : List K} {position : ℕ} {x : K} :
    interpolate scale values position = some x ↔
      ∃ low, values[position / scale]? = some low ∧
        low + ((position % scale : ℕ) : K) / scale *
          (values[position / scale + 1]?.getD low - low) = x := by
  simp only [interpolate, Option.bind_eq_bind, Option.bind_eq_some_iff, Option.some.injEq]

theorem exists_interpolate {scale : ℕ} {values : List K} {position : ℕ}
    (inside : position / scale < values.length) :
    ∃ x, interpolate scale values position = some x :=
  ⟨_, interpolate_eq_some.mpr ⟨_, List.getElem?_eq_getElem inside, rfl⟩⟩

/-- At a whole index the value is the item. -/
theorem interpolate_mul {scale : ℕ} (positive : 0 < scale) (values : List K) (i : ℕ) :
    interpolate scale values (scale * i) = values[i]? := by
  rw [interpolate, Nat.mul_div_cancel_left i positive, Nat.mul_mod_right]
  cases values[i]? <;> simp

/-- Between two whole indices in the middle the value is the mean of the neighbours. -/
theorem interpolate_half [CharZero K] {scale : ℕ} (positive : 0 < scale) {values : List K}
    {i : ℕ} {low high : K} (left : values[i]? = some low) (right : values[i + 1]? = some high) :
    interpolate (2 * scale) values (2 * scale * i + scale) = some ((low + high) / 2) := by
  have quotient : (2 * scale * i + scale) / (2 * scale) = i := by
    rw [Nat.mul_add_div (by omega), Nat.div_eq_of_lt (by omega), Nat.add_zero]
  have remainder : (2 * scale * i + scale) % (2 * scale) = scale := by
    rw [Nat.mul_add_mod, Nat.mod_eq_of_lt (by omega)]
  rw [interpolate_eq_some, quotient, remainder]
  refine ⟨low, left, ?_⟩
  have nonzero : (scale : K) ≠ 0 := Nat.cast_ne_zero.mpr positive.ne'
  rw [right, Option.getD_some, Nat.cast_mul, Nat.cast_ofNat]
  field_simp
  ring

section Order

variable [LinearOrder K] [IsStrictOrderedRing K] {scale : ℕ} {values : List K}

/-- A value lies between its two neighbours. -/
theorem bounds_of_interpolate (ascending : values.Pairwise (· ≤ ·)) {position : ℕ} {x low : K}
    (found : interpolate scale values position = some x)
    (left : values[position / scale]? = some low) :
    low ≤ x ∧ x ≤ values[position / scale + 1]?.getD low := by
  obtain ⟨low', left', rfl⟩ := interpolate_eq_some.mp found
  obtain rfl := Option.some.inj (left.symm.trans left')
  have rise : low ≤ values[position / scale + 1]?.getD low := by
    cases right : values[position / scale + 1]? with
    | none => exact le_rfl
    | some high =>
        obtain ⟨inside, rfl⟩ := List.getElem?_eq_some_iff.mp left
        obtain ⟨inside', rfl⟩ := List.getElem?_eq_some_iff.mp right
        exact List.pairwise_iff_getElem.mp ascending _ _ inside inside' (Nat.lt_succ_self _)
  have nonneg : (0 : K) ≤ ((position % scale : ℕ) : K) / scale := by positivity
  have atMost : ((position % scale : ℕ) : K) / scale ≤ 1 := by
    rcases Nat.eq_zero_or_pos scale with rfl | positive
    · simp
    · rw [div_le_one (Nat.cast_pos.mpr positive), Nat.cast_le]
      exact (Nat.mod_lt _ positive).le
  constructor
  · exact le_add_of_nonneg_right (mul_nonneg nonneg (sub_nonneg.mpr rise))
  · have := mul_le_of_le_one_left (sub_nonneg.mpr rise) atMost
    linarith

/-- The values of an ascending list ascend. -/
theorem interpolate_mono (ascending : values.Pairwise (· ≤ ·)) {p q : ℕ} (ordered : p ≤ q)
    {x y : K} (foundL : interpolate scale values p = some x)
    (foundR : interpolate scale values q = some y) : x ≤ y := by
  obtain ⟨low, left, lower⟩ := interpolate_eq_some.mp foundL
  obtain ⟨low', left', upper⟩ := interpolate_eq_some.mp foundR
  have boundsL := bounds_of_interpolate ascending foundL left
  have boundsR := bounds_of_interpolate ascending foundR left'
  rcases (Nat.div_le_div_right (c := scale) ordered).lt_or_eq with before | same
  · obtain ⟨inside', rfl⟩ := List.getElem?_eq_some_iff.mp left'
    have length : p / scale + 1 < values.length := by omega
    have next : values[p / scale + 1]? = some values[p / scale + 1] :=
      List.getElem?_eq_getElem length
    rw [next, Option.getD_some] at boundsL
    refine boundsL.2.trans (le_trans ?_ boundsR.1)
    rcases (Nat.succ_le_of_lt before).lt_or_eq with apart | adjacent
    · exact List.pairwise_iff_getElem.mp ascending _ _ _ inside' apart
    · exact le_of_eq (by congr 1)
  · rw [← same] at left' upper
    obtain rfl := Option.some.inj (left.symm.trans left')
    have rise := boundsL.1.trans boundsL.2
    have remainder : p % scale ≤ q % scale := by
      have := Nat.div_add_mod p scale
      have := Nat.div_add_mod q scale
      rw [same] at *
      omega
    have fraction : ((p % scale : ℕ) : K) / scale ≤ ((q % scale : ℕ) : K) / scale := by
      gcongr
    have := mul_le_mul_of_nonneg_right fraction (sub_nonneg.mpr rise)
    linarith

end Order

end Quantile
