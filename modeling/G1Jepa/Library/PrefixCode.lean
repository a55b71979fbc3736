import Mathlib

/-!
# Prefix codes

Encodings as lists whose end can be told from what follows them. Encodings of one length are prefix
codes if they are injective, and an array of fixed length has a prefix code if its entries have one.
-/

variable {α β : Type*} {encode : α → List β} {s s' : List β}

/-- From an encoding with anything behind it both can be recovered. -/
def PrefixCode (encode : α → List β) : Prop :=
  ∀ ⦃a a' : α⦄ ⦃s s' : List β⦄, encode a ++ s = encode a' ++ s' → a = a' ∧ s = s'

namespace PrefixCode

theorem append_iff (code : PrefixCode encode) {a a' : α} :
    encode a ++ s = encode a' ++ s' ↔ a = a' ∧ s = s' := by
  refine ⟨fun same => code same, ?_⟩
  rintro ⟨rfl, rfl⟩
  rfl

theorem of_length {n : ℕ} (length : ∀ a, (encode a).length = n)
    (injective : Function.Injective encode) : PrefixCode encode := by
  intro a a' s s' same
  obtain ⟨front, back⟩ := List.append_inj same ((length a).trans (length a').symm)
  exact ⟨injective front, back⟩

theorem flatMap (code : PrefixCode encode) {xs ys : List α} (length : xs.length = ys.length)
    (same : xs.flatMap encode ++ s = ys.flatMap encode ++ s') : xs = ys ∧ s = s' := by
  induction xs generalizing ys with
  | nil =>
      obtain rfl := List.length_eq_zero_iff.mp length.symm
      exact ⟨rfl, same⟩
  | cons x xs induction =>
      obtain ⟨y, ys, rfl⟩ := List.exists_cons_of_length_eq_add_one length.symm
      rw [List.flatMap_cons, List.flatMap_cons, List.append_assoc, List.append_assoc] at same
      obtain ⟨rfl, rest⟩ := code same
      obtain ⟨rfl, tail⟩ := induction (Nat.succ.inj length) rest
      exact ⟨rfl, tail⟩

theorem vector (code : PrefixCode encode) (n : ℕ) :
    PrefixCode fun v : Vector α n => v.toList.flatMap encode := by
  intro v v' s s' same
  obtain ⟨entries, rest⟩ := code.flatMap (by simp) same
  exact ⟨Vector.toList_inj.mp entries, rest⟩

end PrefixCode
