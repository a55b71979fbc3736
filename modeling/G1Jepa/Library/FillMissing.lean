import Mathlib.Data.Nat.Notation
import Mathlib.Logic.Function.Basic
import Mathlib.Tactic.Common

/-!
# Caches that are filled where they are empty

`FillMissing.fill compute cache n` computes the entries below `n` that a cache does not have yet
and stops at the first one whose computation fails. Entries that are there already are never
computed again, so a fill agrees with a fill of the empty cache exactly when they do.
-/

namespace FillMissing

variable {ε α : Type*} {compute : ℕ → Except ε α} {cache : ℕ → Option α} {n i : ℕ} {value : α}

/-- Compute the missing entries below `n`, and report the failure that stops the loop. -/
def fill (compute : ℕ → Except ε α) (cache : ℕ → Option α) :
    ℕ → (ℕ → Option α) × Except ε Unit
  | 0 => (cache, .ok ())
  | n + 1 =>
      match fill compute cache n with
      | (entries, .error failure) => (entries, .error failure)
      | (entries, .ok ()) =>
          match entries n with
          | some _ => (entries, .ok ())
          | none =>
              match compute n with
              | .ok value => (Function.update entries n (some value), .ok ())
              | .error failure => (entries, .error failure)

/-- No missing entry below `n` fails to be computed. -/
def Completes (compute : ℕ → Except ε α) (cache : ℕ → Option α) (n : ℕ) : Prop :=
  ∀ i < n, cache i = none → ∃ value, compute i = .ok value

theorem Completes.mono {m : ℕ} (completes : Completes compute cache n) (le : m ≤ n) :
    Completes compute cache m :=
  fun i below missing => completes i (Nat.lt_of_lt_of_le below le) missing

theorem completes_succ :
    Completes compute cache (n + 1) ↔
      Completes compute cache n ∧ (cache n = none → ∃ value, compute n = .ok value) := by
  constructor
  · intro completes
    exact ⟨completes.mono n.le_succ, completes n n.lt_succ_self⟩
  · rintro ⟨earlier, last⟩ i below missing
    rcases Nat.lt_succ_iff_lt_or_eq.mp below with before | rfl
    · exact earlier i before missing
    · exact last missing

/-- What a fill leaves at an index: the entry of the cache, or the one that it computed. -/
structure Filled (compute : ℕ → Except ε α) (cache : ℕ → Option α) (n : ℕ)
    (entries : ℕ → Option α) : Prop where
  kept : ∀ i value, cache i = some value → entries i = some value
  computed : ∀ i, cache i = none → ∀ value, entries i = some value ↔
    i < n ∧ Completes compute cache i ∧ compute i = .ok value

/-- The index after the last iteration is missing exactly when the cache does not have it. -/
theorem Filled.eq_none_iff {entries : ℕ → Option α} (filled : Filled compute cache n entries) :
    entries n = none ↔ cache n = none := by
  constructor
  · intro absent
    cases cached : cache n with
    | none => rfl
    | some value =>
        rw [filled.kept n value cached] at absent
        contradiction
  · intro missing
    cases entry : entries n with
    | none => rfl
    | some value =>
        exact absurd ((filled.computed n missing value).mp entry).1 (Nat.lt_irrefl n)

/-- An entry that is not computed in the last iteration is decided by the earlier ones. -/
theorem Filled.succ_of_idle {entries : ℕ → Option α} (filled : Filled compute cache n entries)
    (idle : cache n = none → Completes compute cache n → ∀ value, compute n ≠ .ok value) :
    Filled compute cache (n + 1) entries := by
  refine ⟨filled.kept, fun i missing value => ?_⟩
  rw [filled.computed i missing value, Nat.lt_succ_iff_lt_or_eq]
  constructor
  · rintro ⟨below, rest⟩
    exact ⟨.inl below, rest⟩
  · rintro ⟨below | rfl, completes, computed⟩
    · exact ⟨below, completes, computed⟩
    · exact absurd computed (idle missing completes value)

theorem Filled.succ_of_computed {entries : ℕ → Option α} (filled : Filled compute cache n entries)
    (missing : cache n = none) (completes : Completes compute cache n)
    (computed : compute n = .ok value) :
    Filled compute cache (n + 1) (Function.update entries n (some value)) := by
  constructor
  · intro i found cached
    have apart : i ≠ n := by
      rintro rfl
      rw [missing] at cached
      contradiction
    rw [Function.update_of_ne apart]
    exact filled.kept i found cached
  · intro i absent found
    by_cases last : i = n
    · subst last
      rw [Function.update_self, computed, Option.some.injEq, Except.ok.injEq]
      constructor
      · intro same
        exact ⟨i.lt_succ_self, completes, same⟩
      · rintro ⟨-, -, same⟩
        exact same
    · rw [Function.update_of_ne last, filled.computed i absent found]
      have : i < n + 1 ↔ i < n := by omega
      rw [this]

/-- A fill leaves what it should, and returns exactly when every missing entry can be computed. -/
theorem filled_fill (compute : ℕ → Except ε α) (cache : ℕ → Option α) (n : ℕ) :
    Filled compute cache n (fill compute cache n).1 ∧
      ((fill compute cache n).2 = .ok () ↔ Completes compute cache n) := by
  induction n with
  | zero =>
      refine ⟨⟨fun i value cached => cached, fun i missing value => ?_⟩, ?_⟩
      · simp [fill, missing]
      · exact iff_of_true rfl fun i below => absurd below i.not_lt_zero
  | succ n induction =>
      obtain ⟨filled, returns⟩ := induction
      rw [fill, completes_succ]
      split
      case h_1 entries failure before =>
          rw [before] at filled returns
          have stopped : ¬ Completes compute cache n := fun completes => by
            simpa using returns.mpr completes
          refine ⟨filled.succ_of_idle fun _ completes => absurd completes stopped, ?_⟩
          exact iff_of_false (by simp) fun completes => stopped completes.1
      case h_2 entries before =>
          rw [before] at filled returns
          have completes : Completes compute cache n := returns.mp rfl
          split
          case h_1 value present =>
              have cached : cache n ≠ none := fun missing => by
                have absent : entries n = none := filled.eq_none_iff.mpr missing
                rw [absent] at present
                contradiction
              refine ⟨filled.succ_of_idle fun missing => absurd missing cached, ?_⟩
              exact iff_of_true rfl ⟨completes, fun missing => absurd missing cached⟩
          case h_2 empty =>
              have missing : cache n = none := filled.eq_none_iff.mp empty
              split
              case h_1 value computed =>
                  refine ⟨filled.succ_of_computed missing completes computed, ?_⟩
                  exact iff_of_true rfl ⟨completes, fun _ => ⟨value, computed⟩⟩
              case h_2 failure raised =>
                  refine ⟨filled.succ_of_idle fun _ _ value => by simp [raised], ?_⟩
                  exact iff_of_false (by simp) fun both => by simpa [raised] using both.2 missing

/-- An entry of the cache is never computed again. -/
theorem fill_of_cached (cached : cache i = some value) :
    (fill compute cache n).1 i = some value :=
  (filled_fill compute cache n).1.kept i value cached

theorem fill_eq_some_iff (missing : cache i = none) :
    (fill compute cache n).1 i = some value ↔
      i < n ∧ Completes compute cache i ∧ compute i = .ok value :=
  (filled_fill compute cache n).1.computed i missing value

theorem fill_empty_eq_some_iff :
    (fill compute (fun _ => none) n).1 i = some value ↔
      i < n ∧ Completes compute (fun _ => none) i ∧ compute i = .ok value :=
  fill_eq_some_iff rfl

/-- A fill leaves the same entries as a fill of the empty cache exactly when the entries that are
there before it are the ones that it would have computed. -/
theorem fill_eq_fill_empty_iff :
    (∀ i < n, (fill compute cache n).1 i = (fill compute (fun _ => none) n).1 i) ↔
      ∀ i < n, ∀ value, cache i = some value →
        (fill compute (fun _ => none) n).1 i = some value := by
  constructor
  · intro same i below value cached
    rw [← same i below]
    exact fill_of_cached cached
  · intro fresh i below
    cases cached : cache i with
    | some value => rw [fill_of_cached cached, fresh i below value cached]
    | none =>
        apply Option.ext
        intro value
        rw [fill_eq_some_iff cached, fill_empty_eq_some_iff]
        refine and_congr_right fun _ => and_congr_left fun _ => ⟨?_, ?_⟩
        -- the entries that the cache has below `i` can all be computed
        · intro completes j before _
          cases earlier : cache j with
          | none => exact completes j before earlier
          | some found =>
              have computed := fresh j (Nat.lt_trans before below) found earlier
              exact ⟨found, (fill_empty_eq_some_iff.mp computed).2.2⟩
        · intro completes j before _
          exact completes j before rfl

/-- A fill on top of an earlier fill by the same computation is a fill of the empty cache. -/
theorem fill_fill (m n : ℕ) (below : i < n) :
    (fill compute (fill compute (fun _ => none) m).1 n).1 i =
      (fill compute (fun _ => none) n).1 i := by
  refine fill_eq_fill_empty_iff.mpr (fun j inside value cached => ?_) i below
  rw [fill_empty_eq_some_iff] at cached ⊢
  exact ⟨inside, cached.2⟩

end FillMissing
