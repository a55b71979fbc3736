import Mathlib.Algebra.Order.Archimedean.Basic
import Mathlib.Algebra.Order.Field.Basic
import Mathlib.Logic.Function.Iterate
import Mathlib.Data.Finset.Lattice.Fold
import Mathlib.Tactic.Linarith
import Mathlib.Tactic.Positivity

/-!
# Saturated proportional steps

A proportional controller with a bounded output moves its error towards zero, by a constant while it
is saturated and by a factor afterwards. If the gain is not too high the error keeps its sign, never
grows, and falls below every positive bound, on finitely many axes at a common time.
-/

namespace SaturatedStep

variable {K : Type*} [Field K] [LinearOrder K]

/-- The output of the controller for an input `x`. -/
def saturate (x : K) : K := min (max x (-1)) 1

/-- The error that is left after one step: an output of one moves the plant by `scale`. -/
def next (scale gain error : K) : K := error - scale * saturate (gain * error)

/-- The second error lies between zero and the first. -/
def Towards (before after : K) : Prop :=
  (0 ≤ after ∧ after ≤ before) ∨ (before ≤ after ∧ after ≤ 0)

theorem Towards.refl (error : K) : Towards error error :=
  (le_total 0 error).imp (fun positive => ⟨positive, le_rfl⟩) fun negative => ⟨le_rfl, negative⟩

theorem Towards.trans {first second third : K} (before : Towards first second)
    (after : Towards second third) : Towards first third := by
  grind [Towards]

variable [IsStrictOrderedRing K]

theorem abs_saturate_le (x : K) : |saturate x| ≤ 1 := by
  rw [saturate, abs_le]
  exact ⟨le_min (le_max_right _ _) (by linarith), min_le_right _ _⟩

/-- Saturating again changes nothing. -/
theorem saturate_saturate (x : K) : saturate (saturate x) = saturate x := by
  obtain ⟨lower, upper⟩ := abs_le.mp (abs_saturate_le x)
  rw [saturate, max_eq_left lower, min_eq_left upper]

@[simp] theorem saturate_neg (x : K) : saturate (-x) = -saturate x := by
  have small : ∀ y : K, saturate y = if y < -1 then -1 else if 1 < y then 1 else y := by
    intro y
    rw [saturate]
    split_ifs with low high
    · rw [max_eq_right low.le, min_eq_left (by linarith)]
    · rw [max_eq_left (by linarith), min_eq_right high.le]
    · rw [max_eq_left (not_lt.mp low), min_eq_left (not_lt.mp high)]
  rw [small, small]
  split_ifs <;> linarith

theorem saturate_of_nonneg {x : K} (nonneg : 0 ≤ x) : saturate x = min x 1 := by
  rw [saturate, max_eq_left (by linarith)]

/-- The controller is odd, so it is enough to look at errors that are not negative. -/
@[simp] theorem next_neg (scale gain error : K) :
    next scale gain (-error) = -next scale gain error := by
  rw [next, next, mul_neg, saturate_neg]
  ring

theorem Towards.neg {before after : K} (towards : Towards before after) :
    Towards (-before) (-after) := by
  rcases towards with ⟨nonneg, less⟩ | ⟨less, nonpos⟩
  · exact .inr ⟨neg_le_neg less, neg_nonpos.mpr nonneg⟩
  · exact .inl ⟨neg_nonneg.mpr nonpos, neg_le_neg less⟩

/-- The error keeps its sign. -/
theorem Towards.sign {before after : K} (towards : Towards before after) : 0 ≤ before * after := by
  rcases towards with ⟨nonneg, less⟩ | ⟨less, nonpos⟩
  · exact mul_nonneg (nonneg.trans less) nonneg
  · exact mul_nonneg_of_nonpos_of_nonpos (less.trans nonpos) nonpos

/-- The error does not grow. -/
theorem Towards.abs_le {before after : K} (towards : Towards before after) :
    |after| ≤ |before| := by
  rcases towards with ⟨nonneg, less⟩ | ⟨less, nonpos⟩
  · exact abs_le_abs_of_nonneg nonneg less
  · exact abs_le_abs_of_nonpos nonpos less

section Step

variable {scale gain : K} (scale_pos : 0 < scale) (gain_pos : 0 < gain)
  (moderate : gain * scale ≤ 1)
include scale_pos gain_pos moderate

theorem towards_next (error : K) : Towards error (next scale gain error) := by
  have positive : ∀ e, 0 ≤ e → Towards e (next scale gain e) := by
    intro e nonneg
    have input : 0 ≤ gain * e := mul_nonneg gain_pos.le nonneg
    have output : 0 ≤ min (gain * e) 1 := le_min input zero_le_one
    refine .inl ?_
    rw [next, saturate_of_nonneg input]
    constructor
    · have short : scale * min (gain * e) 1 ≤ e :=
        calc
          scale * min (gain * e) 1 ≤ scale * (gain * e) :=
            mul_le_mul_of_nonneg_left (min_le_left _ _) scale_pos.le
          _ = gain * scale * e := by ring
          _ ≤ 1 * e := mul_le_mul_of_nonneg_right moderate nonneg
          _ = e := one_mul e
      exact sub_nonneg.mpr short
    · exact sub_le_self e (mul_nonneg scale_pos.le output)
  rcases le_total 0 error with nonneg | nonpos
  · exact positive error nonneg
  · have mirrored := (positive (-error) (neg_nonneg.mpr nonpos)).neg
    rwa [neg_neg, next_neg, neg_neg] at mirrored

theorem towards_iterate (error : K) {m n : ℕ} (ordered : m ≤ n) :
    Towards ((next scale gain)^[m] error) ((next scale gain)^[n] error) := by
  induction n, ordered using Nat.le_induction with
  | base => exact .refl _
  | succ n _ induction =>
      rw [Function.iterate_succ_apply']
      exact induction.trans (towards_next scale_pos gain_pos moderate _)

/-- An error that is not yet small shrinks by a constant. -/
theorem abs_next_le {bound error : K} (bound_pos : 0 < bound) (large : bound ≤ |error|) :
    |next scale gain error| ≤ |error| - scale * min (gain * bound) 1 := by
  have positive : ∀ e, bound ≤ e → |next scale gain e| ≤ e - scale * min (gain * bound) 1 := by
    intro e large
    have nonneg : 0 ≤ e := bound_pos.le.trans large
    have towards := towards_next scale_pos gain_pos moderate e
    have kept : 0 ≤ next scale gain e := by
      rcases towards with ⟨kept, -⟩ | ⟨less, nonpos⟩
      · exact kept
      · exact nonneg.trans less
    rw [abs_of_nonneg kept, next, saturate_of_nonneg (mul_nonneg gain_pos.le nonneg)]
    have output : min (gain * bound) 1 ≤ min (gain * e) 1 :=
      min_le_min_right 1 (mul_le_mul_of_nonneg_left large gain_pos.le)
    exact sub_le_sub_left (mul_le_mul_of_nonneg_left output scale_pos.le) e
  rcases abs_cases error with ⟨same, -⟩ | ⟨mirrored, -⟩
  · rw [same] at large ⊢
    exact positive error large
  · rw [mirrored] at large ⊢
    have shrinks := positive (-error) large
    rwa [next_neg, abs_neg] at shrinks

variable [Archimedean K]

/-- The error falls below every bound. -/
theorem exists_abs_lt {bound : K} (bound_pos : 0 < bound) (error : K) :
    ∃ n, |(next scale gain)^[n] error| < bound := by
  by_contra! never
  have decrease : 0 < scale * min (gain * bound) 1 :=
    mul_pos scale_pos (lt_min (mul_pos gain_pos bound_pos) zero_lt_one)
  have falls : ∀ n : ℕ, |(next scale gain)^[n] error| ≤
      |error| - n * (scale * min (gain * bound) 1) := by
    intro n
    induction n with
    | zero => simp
    | succ n induction =>
        rw [Function.iterate_succ_apply']
        have step := abs_next_le scale_pos gain_pos moderate bound_pos (never n)
        push_cast
        linarith
  obtain ⟨n, exhausted⟩ := Archimedean.arch |error| decrease
  rw [nsmul_eq_mul] at exhausted
  have small := falls n
  have large := never n
  linarith

/-- On finitely many axes the errors are below the bound at a common time. -/
theorem exists_forall_abs_lt {ι : Type*} [Fintype ι] {bound : K} (bound_pos : 0 < bound)
    (errors : ι → K) : ∃ n, ∀ i, |(next scale gain)^[n] (errors i)| < bound := by
  choose times small using fun i =>
    exists_abs_lt scale_pos gain_pos moderate bound_pos (errors i)
  refine ⟨Finset.univ.sup times, fun i => lt_of_le_of_lt ?_ (small i)⟩
  exact (towards_iterate scale_pos gain_pos moderate (errors i)
    (Finset.le_sup (Finset.mem_univ i))).abs_le

end Step

end SaturatedStep
