import G1Jepa.ReorderRun

/-!
# What the reorder admin requests

The set bits of `nn_reorder_nackmap` are the numbers of its range that no interval has. Answering
them one after the other takes the admin past the whole range.
-/

namespace G1Jepa.Ddsi

variable {α : Type}

/-- The event answers the request for a number: with its sample, while there is room in the delivery
queue, or with a gap for it alone. -/
def ReorderEvent.Answers (n : ℕ) : ReorderEvent α → Prop
  | .rsample seq _ full => seq = n ∧ full = false
  | .gap min maxp1 => min = n ∧ maxp1 = n + 1
  | .dropUpto _ => False

/-! ## The bitmap -/

/-- The bit of the number `n` in a bitmap that starts at `base`. -/
def Marked (base : ℕ) (bits : List Bool) (n : ℕ) : Prop :=
  bits[n - base]? = some true

instance (base : ℕ) (bits : List Bool) (n : ℕ) : Decidable (Marked base bits n) :=
  inferInstanceAs (Decidable (_ = _))

namespace Reorder

/-- The numbers whose bits are set, in ascending order. -/
def SequenceNumberSet.members (map : SequenceNumberSet) : List ℕ :=
  (List.range' map.bitmapBase map.numbits).filter fun n => decide (Marked map.bitmapBase map.bits n)

variable {base numbits i stop n : ℕ} {bits : List Bool} {tree : List (RsampleReorder α)}
  {r : Reorder α}

theorem length_setBits : (setBits base bits i stop).length = bits.length := by
  rw [setBits]
  generalize stop - i = k
  induction k generalizing i bits with
  | zero => rfl
  | succ k induction => rw [List.range'_succ, List.foldl_cons, induction, List.length_set]

theorem marked_setBits (low : base ≤ i) (above : base ≤ n) :
    Marked base (setBits base bits i stop) n ↔
      Marked base bits n ∨ (i ≤ n ∧ n < stop ∧ n - base < bits.length) := by
  suffices run : ∀ k, Marked base ((List.range' i k).foldl (fun bits seq =>
      bits.set (seq - base) true) bits) n ↔
        Marked base bits n ∨ (i ≤ n ∧ n < i + k ∧ n - base < bits.length) by
    rw [setBits, run]
    refine or_congr_right (and_congr_right fun inside => and_congr_left fun _ => ?_)
    omega
  intro k
  induction k generalizing i bits with
  | zero => simp; omega
  | succ k induction =>
      rw [List.range'_succ, List.foldl_cons, induction (by omega), List.length_set, Marked,
        List.getElem?_set, Marked]
      by_cases same : i = n
      · subst same
        by_cases inside : i - base < bits.length
        · simp [inside]
        · simp [inside]
      · rw [if_neg (by omega)]
        refine or_congr_right ?_
        omega

/-- What the loop over the intervals has marked. -/
structure Mapped (base numbits : ℕ) (tree : List (RsampleReorder α)) (i : ℕ) (bits : List Bool)
    (i' : ℕ) (bits' : List Bool) : Prop where
  length : bits'.length = numbits
  le : i ≤ i'
  marked : ∀ n, base ≤ n → (Marked base bits' n ↔
    Marked base bits n ∨ (i ≤ n ∧ n < i' ∧ n < base + numbits ∧ ¬Covered tree n))
  ended : base + numbits ≤ i' ∨ ∀ n, i' ≤ n → ¬Covered tree n
  covered : i < i' → Covered tree (i' - 1)

theorem mapped_nackIntervals (separated : Separated i tree) (low : base ≤ i)
    (length : bits.length = numbits) :
    Mapped base numbits tree i bits (nackIntervals base numbits i bits tree).1
      (nackIntervals base numbits i bits tree).2 := by
  induction tree generalizing i bits with
  | nil =>
      refine ⟨length, le_rfl, fun n _ => ?_, .inr fun _ _ => covered_nil,
        fun gone => absurd gone (lt_irrefl i)⟩
      refine (or_iff_left fun outside => ?_).symm
      have upper : n < i := outside.2.1
      omega
  | cons iv rest induction =>
      obtain ⟨behind, own, later⟩ := separated
      have lt := own.lt
      rw [nackIntervals]
      split
      case isFalse over_end =>
        refine ⟨length, le_rfl, fun n _ => ?_, .inl (by omega),
          fun gone => absurd gone (lt_irrefl i)⟩
        refine (or_iff_left fun outside => ?_).symm
        have upper : n < i := outside.2.1
        omega
      case isTrue going =>
        obtain ⟨length', le', marked, ended, covered⟩ := @induction iv.maxp1
          (setBits base bits i (Nat.min (base + numbits) iv.min)) later (by omega)
          (length_setBits.trans length)
        generalize nackIntervals base numbits iv.maxp1 _ rest = result at *
        refine ⟨length', by omega, fun n above => ?_, ended.imp_right fun none n beyond => ?_,
          fun _ => ?_⟩
        · have after (inside : Covered rest n) : iv.maxp1 < n := by
            obtain ⟨other, member, first, -⟩ := inside
            have := (later.bounds member).1
            omega
          have stop : n < Nat.min (base + numbits) iv.min ↔ n < base + numbits ∧ n < iv.min :=
            lt_min_iff
          rw [marked n above, marked_setBits low above, covered_cons, length, stop, or_assoc]
          refine or_congr_right ?_
          by_cases inside : Covered rest n
          · have := after inside
            simp only [inside, not_true, and_false, or_false, or_true, iff_false]
            omega
          · simp only [inside, not_false_iff, and_true, or_false]
            omega
        · rw [covered_cons, not_or]
          exact ⟨by omega, none n beyond⟩
        · rw [covered_cons]
          rcases Nat.lt_or_ge iv.maxp1 result.1 with further | exactly
          · exact .inr (covered further)
          · exact .inl ⟨by omega, by omega⟩

/-- The bitmap of `nn_reorder_nackmap`. -/
structure Requested (r : Reorder α) (base maxseq maxsz : ℕ) (notail : Bool)
    (map : SequenceNumberSet) : Prop where
  base_eq : map.bitmapBase = min base r.nextSeq
  limit : map.numbits ≤ min (min maxsz r.maxSamples) (maxseq + 1 - map.bitmapBase)
  marked : ∀ n, map.bitmapBase ≤ n → n < map.bitmapBase + map.numbits →
    (Marked map.bitmapBase map.bits n ↔ ¬Covered r.sampleivtree n)
  whole : notail = false →
    map.numbits = min (min maxsz r.maxSamples) (maxseq + 1 - map.bitmapBase)
  tail : notail = true → 0 < map.numbits →
    map.numbits = min (min maxsz r.maxSamples) (maxseq + 1 - map.bitmapBase) ∨
      Covered r.sampleivtree (map.bitmapBase + map.numbits - 1)

theorem exists_nackmap (sound : r.Sound) {maxsz : ℕ} (size : maxsz ≤ 256) (base maxseq : ℕ)
    (notail : Bool) : ∃ map, r.nackmap base maxseq maxsz notail = some map ∧
      Requested r base maxseq maxsz notail map := by
  have clamp : (if r.nextSeq < base then r.nextSeq else base) = min base r.nextSeq := by
    split <;> omega
  generalize start : min base r.nextSeq = low at clamp
  have below : low ≤ r.nextSeq := by omega
  have count : (if (if r.maxSamples < maxsz then r.maxSamples else maxsz) <
      (if maxseq + 1 < low then low - 1 else maxseq) + 1 - low then
        (if r.maxSamples < maxsz then r.maxSamples else maxsz)
      else (if maxseq + 1 < low then low - 1 else maxseq) + 1 - low) =
      min (min maxsz r.maxSamples) (maxseq + 1 - low) := by
    split <;> split <;> split <;> omega
  generalize total : min (min maxsz r.maxSamples) (maxseq + 1 - low) = numbits at count
  have separated := sound.separated.mono below
  have asserted : ∀ iv ∈ r.sampleivtree.head?, low < iv.min := fun iv first =>
    (separated.bounds (List.mem_of_mem_head? first)).1
  have mapped := mapped_nackIntervals separated le_rfl (@List.length_replicate _ numbits false)
  rw [nackmap, guard_of size]
  simp only [Option.bind_eq_bind, Option.bind_some, clamp, count, guard_of asserted]
  generalize nackIntervals low numbits low (List.replicate numbits false) r.sampleivtree = result
    at mapped
  obtain ⟨stop, bits⟩ := result
  obtain ⟨length, le, marked, ended, covered⟩ := mapped
  have fresh (n : ℕ) : ¬Marked low (List.replicate numbits false) n := by
    intro marked
    have member := List.mem_of_getElem? marked
    exact absurd (List.eq_of_mem_replicate member) (by decide)
  cases cut : notail && decide (stop < low + numbits) with
  | true =>
      obtain ⟨tail, short⟩ : notail = true ∧ stop < low + numbits := by simpa using cut
      refine ⟨_, rfl, start.symm, ?_, fun n above below => ?_, fun whole => ?_,
        fun _ positive => .inr ?_⟩
      · change stop - low ≤ min (min maxsz r.maxSamples) (maxseq + 1 - low)
        omega
      · change n < low + (stop - low) at below
        change Marked low bits n ↔ _
        rw [marked n above, or_iff_right (fresh n)]
        exact ⟨fun requested => requested.2.2.2, fun free => ⟨above, by omega, by omega, free⟩⟩
      · rw [tail] at whole
        contradiction
      · change 0 < stop - low at positive
        have last : low + (stop - low) - 1 = stop - 1 := by omega
        change Covered r.sampleivtree (low + (stop - low) - 1)
        rw [last]
        exact covered (by omega)
  | false =>
      refine ⟨_, rfl, start.symm, total.ge, fun n above below => ?_, fun _ => total.symm,
        fun _ _ => .inl total.symm⟩
      change n < low + numbits at below
      change Marked low (setBits low bits stop (low + numbits)) n ↔ _
      rw [marked_setBits le above, marked n above, or_iff_right (fresh n), length]
      rcases Nat.lt_or_ge n stop with before | beyond
      · constructor
        · rintro (⟨-, -, -, free⟩ | ⟨behind, -, -⟩)
          · exact free
          · omega
        · exact fun free => .inl ⟨above, before, below, free⟩
      · -- No interval is behind the end of the loop.
        have free := (ended.resolve_left (by omega)) n beyond
        exact iff_of_true (.inr ⟨beyond, below, by omega⟩) free

theorem not_known_nextSeq (sound : r.Sound) : ¬r.Known r.nextSeq := by
  rintro (behind | ⟨iv, member, low, -⟩)
  · exact lt_irrefl _ behind
  · exact absurd (sound.separated.bounds member).1 (not_lt.mpr low)

end Reorder

/-! ## Requests and answers -/

namespace ReorderRun

variable {mode : ReorderMode} {maxSamples first base maxseq maxsz hi : ℕ}
  {lateAckMode notail : Bool} {events answers : List (ReorderEvent α)} {event : ReorderEvent α}
  {s after : ReorderRun α} {numbers : List ℕ}

/-- An answer to the request for the next number. -/
theorem Explained.answered (explained : s.Explained .normal maxSamples first events)
    (answers : event.Answers s.reorder.nextSeq) (stepped : s.step event = some after) :
    s.reorder.nextSeq < after.reorder.nextSeq ∧
      ∀ m, after.reorder.Known m ↔ s.reorder.Known m ∨ m = s.reorder.nextSeq := by
  have sound := explained.sound
  have normal := explained.mode_eq
  cases event with
  | rsample seq fragchain full =>
      obtain ⟨now, rfl⟩ := answers
      obtain ⟨o, ran, rfl⟩ := Option.map_eq_some_iff.mp stepped
      rcases Reorder.rsample_cases sound seq fragchain false with ⟨other, same, -, delivers⟩ | long
      · obtain rfl := Option.some.inj (same.symm.trans ran)
        have delivered := delivers now rfl
        have passed : seq + 1 ≤ other.reorder.nextSeq := delivered.passed
        have grows : s.reorder.nextSeq < other.reorder.nextSeq := by omega
        refine ⟨grows, fun m => ⟨fun known => ?_, ?_⟩⟩
        · refine (delivered.advanced.known normal m known).imp_right fun ⟨low, high⟩ => ?_
          change seq ≤ m at low
          change m < seq + 1 at high
          omega
        · rintro (known | rfl)
          · exact delivered.keeps normal m known
          · exact .inl (show s.reorder.nextSeq < other.reorder.nextSeq by omega)
      · rw [Reorder.rsample_of_tooLong sound long] at ran
        contradiction
  | gap min maxp1 =>
      obtain ⟨rfl, rfl⟩ := answers
      obtain ⟨o, ran, rfl⟩ := Option.map_eq_some_iff.mp stepped
      obtain ⟨other, same, passed⟩ := Reorder.exists_gap_due sound normal le_rfl
        (Nat.lt_succ_self _)
      obtain rfl := Option.some.inj (same.symm.trans ran)
      refine ⟨passed.passed, fun m => ⟨fun known => ?_, ?_⟩⟩
      · exact (passed.advanced.known normal m known).imp_right fun ⟨low, high⟩ => by omega
      · rintro (known | rfl)
        · exact passed.keeps m known
        · exact .inl passed.passed
  | dropUpto maxp1 => exact answers.elim

theorem valid_of_answers {n : ℕ} (answers : event.Answers n) : event.Valid := by
  cases event with
  | gap min maxp1 =>
      obtain ⟨rfl, rfl⟩ := answers
      exact .inl (Nat.lt_succ_self _)
  | rsample seq fragchain full => trivial
  | dropUpto maxp1 => trivial

/-- Answering what is missing below `hi`, in ascending order, takes the admin up to `hi`. -/
theorem Explained.le_nextSeq_of_answers (explained : s.Explained .normal maxSamples first events)
    (positive : 1 ≤ first)
    (answered : List.Forall₂ (fun n event => event.Answers n) numbers answers)
    (ascending : numbers.Pairwise (· < ·))
    (missing : ∀ n, n ∈ numbers ↔ n < hi ∧ ¬s.reorder.Known n)
    (ran : run s answers = some after) : hi ≤ after.reorder.nextSeq := by
  induction answered generalizing s events with
  | nil =>
      obtain rfl := Option.some.inj ran
      by_contra short
      have member := (missing s.reorder.nextSeq).mpr
        ⟨by omega, Reorder.not_known_nextSeq explained.sound⟩
      exact absurd member List.not_mem_nil
  | @cons n event numbers answers answer answered induction =>
      obtain ⟨later, sorted⟩ := List.pairwise_cons.mp ascending
      -- The least missing number is the next one.
      have next : n = s.reorder.nextSeq := by
        obtain ⟨below, unknown⟩ := (missing n).mp List.mem_cons_self
        have above : s.reorder.nextSeq ≤ n := not_lt.mp fun behind => unknown (.inl behind)
        have member := (missing s.reorder.nextSeq).mpr
          ⟨by omega, Reorder.not_known_nextSeq explained.sound⟩
        rcases List.mem_cons.mp member with same | inside
        · exact same.symm
        · have := later _ inside
          omega
      subst next
      obtain ⟨middle, stepped, ran⟩ := EventRun.run_cons_eq_some.mp ran
      obtain ⟨passed, known⟩ := explained.answered answer stepped
      refine induction (explained.step positive (valid_of_answers answer) stepped) sorted
        (fun m => ?_) ran
      rw [known, not_or]
      constructor
      · intro inside
        obtain ⟨below, unknown⟩ := (missing m).mp (List.mem_cons_of_mem _ inside)
        exact ⟨below, unknown, (later m inside).ne'⟩
      · rintro ⟨below, unknown, other⟩
        exact (List.mem_cons.mp ((missing m).mpr ⟨below, unknown⟩)).resolve_left other

/-- When every set bit of the bitmap is answered, in ascending order, with its sample or a gap, the
admin has passed the whole range of the bitmap: one round repairs all losses in it. Without `notail`
that range is limited by the given numbers only. -/
theorem answers_pass_nackmap (positive : 1 ≤ first) (valid : ∀ event ∈ events, event.Valid)
    (ran : run (init .normal maxSamples lateAckMode first) events = some s) (size : maxsz ≤ 256)
    {map : Reorder.SequenceNumberSet}
    (mapped : s.reorder.nackmap s.reorder.nextSeq maxseq maxsz notail = some map)
    (answered : List.Forall₂ (fun n event => event.Answers n) map.members answers)
    (repaired : run s answers = some after) :
    map.bitmapBase + map.numbits ≤ after.reorder.nextSeq ∧
      (notail = false →
        min (s.reorder.nextSeq + min maxsz maxSamples) (maxseq + 1) ≤ after.reorder.nextSeq) := by
  have explained := explained_of_run positive valid ran
  obtain ⟨other, same, requested⟩ :=
    Reorder.exists_nackmap explained.sound size s.reorder.nextSeq maxseq notail
  obtain rfl := Option.some.inj (same.symm.trans mapped)
  have start : other.bitmapBase = s.reorder.nextSeq := requested.base_eq.trans (min_self _)
  have whole := requested.whole
  rw [explained.maxSamples_eq, start] at whole
  have missing (n : ℕ) : n ∈ other.members ↔
      n < s.reorder.nextSeq + other.numbits ∧ ¬s.reorder.Known n := by
    rw [Reorder.SequenceNumberSet.members, List.mem_filter, List.mem_range'_1, decide_eq_true_eq,
      Reorder.Known, not_or, not_lt, start]
    constructor
    · rintro ⟨⟨above, below⟩, marked⟩
      refine ⟨below, above, (requested.marked n ?_ ?_).mp (start ▸ marked)⟩ <;> omega
    · rintro ⟨below, above, free⟩
      refine ⟨⟨above, below⟩, start ▸ (requested.marked n ?_ ?_).mpr free⟩ <;> omega
  have passes := explained.le_nextSeq_of_answers positive answered
    (List.Pairwise.filter _ List.pairwise_lt_range') missing repaired
  refine ⟨start ▸ passes, fun all => ?_⟩
  have := whole all
  omega

/-- The state of `crowded` when the sample 6 is answered, which the sample 7 waits for. -/
def repaired : ReorderRun Unit where
  reorder :=
    { nextSeq := 8
      mode := .normal
      maxSamples := 2
      lateAckMode := false }
  accepted := crowded.accepted ++ [.sample 6 ()]
  delivered := crowded.delivered ++ [.sample 6 (), .sample 7 ()]
  released := crowded.released

theorem run_repaired : run crowded [.rsample 6 () false] = some repaired := rfl

theorem answers_pass_nackmap_crowded : min (6 + min 256 2) (7 + 1) ≤ repaired.reorder.nextSeq :=
  (answers_pass_nackmap le_rfl (by decide) run_crowdedEvents le_rfl
    (show crowded.reorder.nackmap 6 7 256 false = some ⟨6, 2, [true, false]⟩ from rfl)
    (.cons (show ReorderEvent.Answers 6 (.rsample 6 () false) from ⟨rfl, rfl⟩) .nil)
    run_repaired).2 rfl

end ReorderRun

end G1Jepa.Ddsi
