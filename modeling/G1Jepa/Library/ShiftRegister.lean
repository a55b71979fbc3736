import Mathlib

/-!
# Feedback shift registers

A register is shifted once for each bit of a message, and a polynomial is added to it whenever the
bit that falls out differs from the bit of the message. What is left in the register is the checksum
of the message. If the polynomial has a constant term, two messages of one length with the same
checksum are equal or differ in two bits that are at least the width of the register apart.
-/

namespace ShiftRegister

variable {w : ℕ} {polynomial : BitVec w} {r r' : BitVec w} {bit bit' : Bool}

/-- One bit of the message. -/
def feed (polynomial r : BitVec w) (bit : Bool) : BitVec w :=
  if r.msb ^^ bit then (r <<< 1) ^^^ polynomial else r <<< 1

/-- The register after a message. -/
def run (polynomial r : BitVec w) (bits : List Bool) : BitVec w :=
  bits.foldl (feed polynomial) r

@[simp] theorem run_nil : run polynomial r [] = r := rfl

@[simp] theorem run_cons (bits : List Bool) :
    run polynomial r (bit :: bits) = run polynomial (feed polynomial r bit) bits := rfl

theorem run_append (bits more : List Bool) :
    run polynomial r (bits ++ more) = run polynomial (run polynomial r bits) more :=
  List.foldl_append

theorem getLsbD_feed_zero (odd : polynomial.getLsbD 0 = true) :
    (feed polynomial r bit).getLsbD 0 = (r.msb ^^ bit) := by
  rw [feed]
  split
  · next out => simp [odd, out]
  · next out => simpa using out

theorem getLsbD_feed_succ {i : ℕ} (inside : i + 1 < w) :
    (feed polynomial r bit).getLsbD (i + 1) =
      (r.getLsbD i ^^ ((r.msb ^^ bit) && polynomial.getLsbD (i + 1))) := by
  have bit_lt : i < w := by omega
  rw [feed]
  split
  · next out => simp [out, inside, BitVec.getLsbD_eq_getElem bit_lt]
  · next out => simp [Bool.not_eq_true _ ▸ out, inside, BitVec.getLsbD_eq_getElem bit_lt]

/-- Two registers differ in one of the lowest `k` bits. -/
def Apart (k : ℕ) (r r' : BitVec w) : Prop :=
  ∃ i < k, r.getLsbD i ≠ r'.getLsbD i

theorem Apart.ne {k : ℕ} (apart : Apart k r r') : r ≠ r' := by
  obtain ⟨i, -, differ⟩ := apart
  rintro rfl
  exact differ rfl

/-- The lowest bit shows whether the polynomial has been added to one register only. -/
theorem apart_of_out (odd : polynomial.getLsbD 0 = true)
    (differ : (r.msb ^^ bit) ≠ (r'.msb ^^ bit')) (k : ℕ) :
    Apart (k + 1) (feed polynomial r bit) (feed polynomial r' bit') := by
  refine ⟨0, k.succ_pos, ?_⟩
  rw [getLsbD_feed_zero odd, getLsbD_feed_zero odd]
  exact differ

/-- A difference moves up by one bit, and one that falls out is seen in the lowest bit. -/
theorem Apart.feed (odd : polynomial.getLsbD 0 = true) {k : ℕ} (apart : Apart k r r')
    (early : bit ≠ bit' → k < w) :
    Apart (k + 1) (feed polynomial r bit) (feed polynomial r' bit') := by
  by_cases out : (r.msb ^^ bit) = (r'.msb ^^ bit')
  · obtain ⟨i, below, differ⟩ := apart
    have width : i < w := by
      by_contra beyond
      rw [BitVec.getLsbD_of_ge r i (by omega), BitVec.getLsbD_of_ge r' i (by omega)] at differ
      exact differ rfl
    have inside : i + 1 < w := by
      by_contra top
      have last : w - 1 = i := by omega
      have tops : r.msb ≠ r'.msb := by
        rw [BitVec.msb_eq_getLsbD_last, BitVec.msb_eq_getLsbD_last, last]
        exact differ
      have bits : bit ≠ bit' := by
        rintro rfl
        exact tops ((Bool.xor_left_inj).mp out)
      have := early bits
      omega
    refine ⟨i + 1, by omega, ?_⟩
    rw [getLsbD_feed_succ inside, getLsbD_feed_succ inside, out]
    exact fun same => differ ((Bool.xor_left_inj).mp same)
  · exact apart_of_out odd out k

theorem Apart.run (odd : polynomial.getLsbD 0 = true) {k : ℕ} (apart : Apart k r r')
    {bits bits' : List Bool} (length : bits.length = bits'.length)
    (early : ∀ j, bits[j]? ≠ bits'[j]? → k + j < w) :
    Apart (k + bits.length) (run polynomial r bits) (run polynomial r' bits') := by
  induction bits generalizing k r r' bits' with
  | nil =>
      obtain rfl := List.length_eq_zero_iff.mp length.symm
      exact apart
  | cons bit bits induction =>
      obtain ⟨bit', rest, rfl⟩ := List.exists_cons_of_length_eq_add_one length.symm
      have moved : Apart (k + 1) (ShiftRegister.feed polynomial r bit)
          (ShiftRegister.feed polynomial r' bit') :=
        apart.feed odd fun differ => early 0 (by simpa using differ)
      have tail := induction moved (Nat.succ.inj length) fun j differ => by
        have := early (j + 1) (by simpa using differ)
        omega
      rw [List.length_cons, ← Nat.add_assoc, Nat.add_right_comm]
      exact tail

/-- Messages of one length with the same checksum are equal or differ in two bits that are at least
the width of the register apart. -/
theorem eq_or_far_of_run_eq (odd : polynomial.getLsbD 0 = true) {bits bits' : List Bool}
    (length : bits.length = bits'.length)
    (same : run polynomial r bits = run polynomial r bits') :
    bits = bits' ∨ ∃ i j, i + w ≤ j ∧ bits[i]? ≠ bits'[i]? ∧ bits[j]? ≠ bits'[j]? := by
  induction bits generalizing r bits' with
  | nil => exact .inl (List.length_eq_zero_iff.mp length.symm).symm
  | cons bit bits induction =>
      obtain ⟨bit', rest, rfl⟩ := List.exists_cons_of_length_eq_add_one length.symm
      by_cases first : bit = bit'
      · subst first
        rcases induction (Nat.succ.inj length) same with rfl | ⟨i, j, far, low, high⟩
        · exact .inl rfl
        · exact .inr ⟨i + 1, j + 1, by omega, by simpa using low, by simpa using high⟩
      · have moved : Apart 1 (feed polynomial r bit) (feed polynomial r bit') :=
          apart_of_out odd (fun out => first ((Bool.xor_right_inj).mp out)) 0
        by_cases early : ∀ j, bits[j]? ≠ rest[j]? → 1 + j < w
        · exact absurd same (moved.run odd (Nat.succ.inj length) early).ne
        · obtain ⟨j, rest_differ⟩ := not_forall.mp early
          obtain ⟨differ, late⟩ := Classical.not_imp.mp rest_differ
          exact .inr ⟨0, j + 1, by omega, by simpa using first, by simpa using differ⟩

end ShiftRegister
