import G1Jepa.ReorderSamples

/-!
# Gaps for the reorder admin

What `nn_reorder_gap` does: the intervals that touch the gap become one with it, which is delivered
when its turn has come. Nothing is stored for such a gap, and no assertion fails.
-/

namespace G1Jepa.Ddsi

open SearchTree

variable {α : Type}

namespace Reorder

variable {r : Reorder α} {s joined : RsampleReorder α} {min maxp1 lo : ℕ}
  {tree before middle after rest taken : List (RsampleReorder α)}

/-! ## Successors -/

/-- The interval `joined` has taken in the intervals `taken` that follow `s`. -/
structure Grown (maxp1 : ℕ) (s joined : RsampleReorder α)
    (taken rest : List (RsampleReorder α)) : Prop where
  min_eq : joined.min = s.min
  reaches : s.maxp1 ≤ joined.maxp1
  sound : joined.Sound
  chain : joined.sc = s.sc ++ stored taken
  counted : joined.nSamples = s.nSamples + Ddsi.counted taken
  separated : Separated joined.maxp1 rest
  high : ∀ iv ∈ rest.head?, maxp1 < iv.min
  covers : ∀ min ≤ s.maxp1, ∀ n,
    (s.min ≤ n ∧ n < joined.maxp1) ∨ (min ≤ n ∧ n < maxp1) ↔
      Covered (s :: taken) n ∨ (min ≤ n ∧ n < maxp1)

/-- The loop over the successors takes in those that start up to `maxp1`. -/
theorem exists_grown (maxp1 : ℕ) (own : s.Sound) (separated : Separated s.maxp1 rest) :
    ∃ taken after, rest = taken ++ after ∧
      ∃ joined appended, appendSuccessors maxp1 s rest = some (joined, after, appended) ∧
        Grown maxp1 s joined taken after := by
  induction rest generalizing s with
  | nil =>
      refine ⟨[], [], rfl, s, false, rfl, rfl, le_rfl, own, ?_, rfl, trivial, by simp,
        fun _ _ n => ?_⟩
      · rw [stored_nil, List.append_nil]
      · rw [covered_cons, or_iff_left covered_nil]
  | cons t rest induction =>
      rw [appendSuccessors]
      split
      case isTrue near =>
        obtain ⟨behind, ownT, later⟩ := separated
        obtain ⟨taken, after, rfl, joined, appended, looped, grown⟩ :=
          @induction (s.appendInterval t) (own.appendInterval ownT behind.le) later
        have lt := ownT.lt
        have length := ownT.fits.length_le
        rw [← ownT.counted] at length
        have reaches : t.maxp1 ≤ joined.maxp1 := grown.reaches
        refine ⟨t :: taken, after, rfl, joined, true, ?_, grown.min_eq, by omega,
          grown.sound, ?_, ?_, grown.separated, grown.high, fun min low n => ?_⟩
        · rw [guard_of length, looped]
          rfl
        · rw [grown.chain, stored_cons]
          exact List.append_assoc ..
        · rw [grown.counted, counted_cons]
          exact Nat.add_assoc ..
        · -- The numbers between the two intervals are in the range.
          refine (grown.covers min (show min ≤ t.maxp1 by omega) n).trans ?_
          refine or_congr_left' fun outside => ?_
          rw [covered_cons, covered_cons, covered_cons, ← or_assoc]
          refine or_congr_left ?_
          change s.min ≤ n ∧ n < t.maxp1 ↔ _
          have := own.lt
          omega
      case isFalse far =>
        refine ⟨[], t :: rest, rfl, s, false, rfl, rfl, le_rfl, own, ?_, rfl, separated, ?_,
          fun _ _ n => ?_⟩
        · rw [stored_nil, List.append_nil]
        · rintro iv first
          obtain rfl := Option.some.inj first
          omega
        · rw [covered_cons, or_iff_left covered_nil]

/-! ## The intervals that touch a gap -/

/-- The intervals `middle` and the range have become the interval `coalesced`. -/
structure Coalesced (min maxp1 : ℕ) (tree before middle after : List (RsampleReorder α))
    (coalesced : RsampleReorder α) : Prop where
  append : tree = before ++ middle ++ after
  low : ∀ iv ∈ before, iv.maxp1 < coalesced.min
  sound : coalesced.Sound
  chain : coalesced.sc = stored middle
  counted : coalesced.nSamples = Ddsi.counted middle
  fits : ∃ q ∈ middle, Fits q.min coalesced.maxp1 coalesced.sc
  separated : Separated coalesced.maxp1 after
  covers : ∀ n, (coalesced.min ≤ n ∧ n < coalesced.maxp1) ↔
    Covered middle n ∨ (min ≤ n ∧ n < maxp1)

/-- The interval `s` is the first one that touches the range. -/
theorem coalesced_of_grown (append : tree = before ++ s :: (taken ++ after))
    (grown : Grown maxp1 s joined taken after) (near : s.min ≤ maxp1) (touches : min ≤ s.maxp1)
    (low : ∀ iv ∈ before, iv.maxp1 < min ∧ iv.maxp1 < s.min)
    (own : s.Sound) :
    Coalesced min maxp1 tree before (s :: taken) after
      { joined with
        min := if min < joined.min then min else joined.min
        maxp1 := if joined.maxp1 < maxp1 then maxp1 else joined.maxp1 } := by
  have least := grown.min_eq
  have lt := grown.sound.lt
  have grownFits : Fits joined.min (if joined.maxp1 < maxp1 then maxp1 else joined.maxp1)
      joined.sc :=
    grown.sound.fits.mono le_rfl (by split <;> omega)
  refine ⟨?_, fun iv member => ?_, ⟨grownFits.mono ?_ le_rfl, grown.sound.stores,
    grown.sound.counted⟩, ?_, ?_, ⟨s, List.mem_cons_self, least ▸ grownFits⟩, ?_, fun n => ?_⟩
  · rw [append, List.append_assoc]
    rfl
  · obtain ⟨first, second⟩ := low iv member
    change iv.maxp1 < if min < joined.min then min else joined.min
    split <;> omega
  · change (if min < joined.min then min else joined.min) ≤ joined.min
    split <;> omega
  · exact grown.chain
  · rw [counted_cons]
    exact grown.counted
  · refine grown.separated.raise fun iv first => ?_
    have := grown.high iv first
    have member := List.mem_of_mem_head? first
    have := (grown.separated.bounds member).1
    change (if joined.maxp1 < maxp1 then maxp1 else joined.maxp1) < iv.min
    split <;> omega
  · rw [← grown.covers min touches n]
    change (if min < joined.min then min else joined.min) ≤ n ∧
      n < (if joined.maxp1 < maxp1 then maxp1 else joined.maxp1) ↔ _
    have ltS := own.lt
    have reaches := grown.reaches
    split <;> split <;> omega

/-- What the search for the first interval that touches a range finds. -/
inductive FirstTouching (tree : List (RsampleReorder α)) (min maxp1 : ℕ) :
    Option (RsampleReorder α) → Prop
  | found (before : List (RsampleReorder α)) (s : RsampleReorder α)
      (rest : List (RsampleReorder α)) (append : tree = before ++ s :: rest)
      (near : s.min ≤ maxp1) (touches : min ≤ s.maxp1)
      (low : ∀ iv ∈ before, iv.maxp1 < min ∧ iv.maxp1 < s.min) :
      FirstTouching tree min maxp1 (some s)
  | apart (before after : List (RsampleReorder α))
      (split : SplitAt RsampleReorder.min min tree before after)
      (low : ∀ iv ∈ before, iv.maxp1 < min) (high : ∀ iv ∈ after.head?, maxp1 < iv.min) :
      FirstTouching tree min maxp1 none

/-- The next interval is the first one that touches the range, if none before it does. -/
theorem firstTouching_head (separated : Separated lo after)
    (split : SplitAt RsampleReorder.min min tree before after)
    (behind : ∀ iv ∈ before, iv.maxp1 < min) :
    FirstTouching tree min maxp1 (after.head?.filter fun s => decide (s.min ≤ maxp1)) := by
  cases after with
  | nil => exact .apart before [] split behind (by simp)
  | cons s rest =>
      rw [List.head?_cons, Option.filter_some]
      have later := split.high s List.mem_cons_self
      by_cases near : s.min ≤ maxp1
      · rw [decide_eq_true near]
        have lt := separated.2.1.lt
        refine .found before s rest split.append near (by omega) fun iv member => ?_
        have := behind iv member
        exact ⟨this, by omega⟩
      · rw [decide_eq_false near]
        refine .apart before (s :: rest) split behind fun iv first => ?_
        obtain rfl := Option.some.inj first
        omega

theorem exists_firstTouching (separated : Separated lo r.sampleivtree) (nonempty : min < maxp1) :
    ∃ first, r.firstTouching min maxp1 = some first ∧
      FirstTouching r.sampleivtree min maxp1 first := by
  obtain ⟨before, after, split⟩ := exists_splitAt separated.ascending min
  have append := split.append
  have parts := separated
  rw [append, separated_append] at parts
  rw [firstTouching, split.lookupPredEq_eq]
  obtain rfl | ⟨front, p, rfl⟩ := List.eq_nil_or_concat before
  · refine ⟨_, rfl, ?_⟩
    have head : r.sampleivtree.head? = after.head? := by
      rw [append, List.nil_append]
    dsimp only [List.getLast?_nil]
    rw [head]
    exact firstTouching_head parts.2 split (by simp)
  · rw [List.concat_eq_append] at split append parts ⊢
    have tree : r.sampleivtree = front ++ p :: after := by
      rw [append, List.append_assoc, List.singleton_append]
    have ascending := separated.ascending
    rw [tree] at ascending
    obtain ⟨earlier, behind, own, -⟩ := separated_append.mp parts.1
    have low := split.low p (by simp)
    rw [List.getLast?_concat, Option.filter_some]
    by_cases touches : min ≤ p.maxp1
    · have apart (iv : RsampleReorder α) (member : iv ∈ front) : iv.maxp1 < p.min := by
        have := (earlier.bounds member).2.2
        omega
      have asserted : ∀ q ∈ findPred RsampleReorder.min r.sampleivtree p.min, q.maxp1 < min := by
        rw [tree, findPred_key ascending]
        intro q last
        have := apart q (List.mem_of_getLast? last)
        omega
      rw [decide_eq_true touches, if_pos rfl]
      dsimp only
      rw [guard_of asserted]
      refine ⟨_, rfl, .found front p after tree (by omega) touches fun iv member => ?_⟩
      have := apart iv member
      exact ⟨by omega, this⟩
    · rw [decide_eq_false touches]
      have succ : (above RsampleReorder.min r.sampleivtree p.min).head? = after.head? := by
        rw [tree, above_key ascending]
      refine ⟨_, rfl, ?_⟩
      dsimp only
      rw [succ]
      refine firstTouching_head parts.2 split fun iv member => ?_
      have := (parts.1.bounds member).2.2
      rw [top_append] at this
      change iv.maxp1 ≤ p.maxp1 at this
      omega

/-- The intervals that touch the range become one with it, or there are none. -/
inductive CoalescedTree (tree : List (RsampleReorder α)) (min maxp1 : ℕ) :
    List (RsampleReorder α) × Option (RsampleReorder α × Bool) → Prop
  | found (before middle after : List (RsampleReorder α)) (coalesced : RsampleReorder α)
      (valuable : Bool) (become : Coalesced min maxp1 tree before middle after coalesced) :
      CoalescedTree tree min maxp1 (before ++ coalesced :: after, some (coalesced, valuable))
  | apart (before after : List (RsampleReorder α))
      (split : SplitAt RsampleReorder.min min tree before after)
      (low : ∀ iv ∈ before, iv.maxp1 < min) (high : ∀ iv ∈ after.head?, maxp1 < iv.min) :
      CoalescedTree tree min maxp1 (tree, none)

theorem exists_coalesceIntervalsTouchingRange (separated : Separated lo r.sampleivtree)
    (nonempty : min < maxp1) :
    ∃ result, r.coalesceIntervalsTouchingRange min maxp1 = some result ∧
      CoalescedTree r.sampleivtree min maxp1 result := by
  obtain ⟨first, searched, touching⟩ := exists_firstTouching separated nonempty
  rw [coalesceIntervalsTouchingRange, searched]
  simp only [Option.bind_eq_bind, Option.bind_some]
  cases touching with
  | apart before after split low high => exact ⟨_, rfl, .apart before after split low high⟩
  | found before s rest append near touches low =>
      have ascending := separated.ascending
      rw [append, separated_append] at separated
      obtain ⟨-, -, own, later⟩ := separated
      have length := own.fits.length_le
      rw [← own.counted] at length
      obtain ⟨taken, after, rfl, joined, appended, looped, grown⟩ := exists_grown maxp1 own later
      rw [append] at ascending
      dsimp only
      rw [guard_of length, append, above_key ascending, filter_lt_key ascending, looped]
      exact ⟨_, rfl, .found before _ after _ _
        (coalesced_of_grown rfl grown near touches low own)⟩

/-! ## What a gap does -/

/-- A gap that takes the admin past its end: the first intervals are delivered. -/
structure Passed (r : Reorder α) (o : ReorderOutcome α) (min maxp1 : ℕ) : Prop where
  taken : ∃ taken, r.sampleivtree = taken ++ o.reorder.sampleivtree ∧ o.sc = stored taken
  nonnegative : 0 ≤ o.result
  released : o.released = none
  passed : maxp1 ≤ o.reorder.nextSeq
  keeps : ∀ n, r.Known n → o.reorder.Known n
  advanced : Advanced r o [] min maxp1

section Gap

variable (sound : r.Sound) (normal : r.mode = .normal) (nonempty : min < maxp1)

section Due

variable (due : min ≤ r.nextSeq) (news : r.nextSeq < maxp1)
include sound normal due news

/-- No interval touches the gap. -/
theorem passed_apart (high : ∀ iv ∈ r.sampleivtree.head?, maxp1 < iv.min) :
    Passed r
      { result := nnReorderAccept
        reorder := { r with nextSeq := maxp1, maxSampleiv := findMax r.sampleivtree } }
      min maxp1 := by
  refine ⟨⟨[], rfl, rfl⟩, Int.le_refl 0, rfl, le_rfl, fun n known => ?_,
    ⟨⟨sound.separated.raise high, rfl, sound.counted, sound.limited,
      fun other => absurd normal other⟩, rfl, rfl, ⟨[], _, rfl, (List.append_nil _).symm⟩,
      fun _ => news.le, fun _ n known => ?_, .inl rfl, rfl, fun _ filled => filled, .inl rfl⟩⟩
  · exact known.imp_left fun behind => behind.trans news
  · rcases known with behind | inside
    · change n < maxp1 at behind
      rcases Nat.lt_or_ge n r.nextSeq with before | beyond
      · exact .inl (.inl before)
      · exact .inr ⟨by omega, behind⟩
    · exact .inl (.inr inside)

/-- The first intervals and the gap are delivered as one. -/
theorem passed_coalesced {coalesced : RsampleReorder α}
    (become : Coalesced min maxp1 r.sampleivtree [] middle after coalesced) :
    Passed r
      { result := coalesced.nSamples
        sc := coalesced.sc
        reorder :=
          { r with
            sampleivtree := after
            maxSampleiv := findMax after
            nextSeq := coalesced.maxp1
            nSamples := r.nSamples - coalesced.nSamples } }
      min maxp1 := by
  have append : r.sampleivtree = middle ++ after := become.append
  have least := ((become.covers min).mpr (.inr ⟨le_rfl, by omega⟩)).1
  have greatest := ((become.covers (maxp1 - 1)).mpr (.inr ⟨by omega, by omega⟩)).2
  have total := sound.counted
  rw [append, counted_append, ← become.counted] at total
  obtain ⟨q, member, fits⟩ := become.fits
  have ahead := (sound.separated.bounds (append ▸ List.mem_append_left after member)).1
  refine ⟨⟨middle, append, become.chain⟩, Int.natCast_nonneg _, rfl,
    (show maxp1 ≤ coalesced.maxp1 by omega), fun n known => ?_,
    ⟨⟨become.separated, rfl, ?_, (Nat.sub_le _ _).trans sound.limited,
      fun other => absurd normal other⟩, rfl, rfl, ⟨[], stored r.sampleivtree, rfl, ?_⟩,
      fun _ => fits.mono ahead.le le_rfl, fun _ n known => ?_, .inl ?_, rfl, fun _ filled => ?_,
      .inl rfl⟩⟩
  · rw [Known, append, covered_append] at known
    rcases known with behind | inside | later
    · exact .inl (show n < coalesced.maxp1 by omega)
    · exact .inl ((become.covers n).mpr (.inl inside)).2
    · exact .inr later
  · change r.nSamples - coalesced.nSamples = Ddsi.counted after
    omega
  · rw [append, stored_append, become.chain]
    simp
  · rw [Known, append, covered_append]
    rcases known with behind | inside
    · change n < coalesced.maxp1 at behind
      rcases Nat.lt_or_ge n r.nextSeq with before | beyond
      · exact .inl (.inl before)
      · have := (become.covers n).mp ⟨by omega, behind⟩
        tauto
    · exact .inl (.inr (.inr inside))
  · change (coalesced.nSamples : ℤ) = _
    rw [become.sound.counted]
  · have separated := sound.separated
    rw [append] at separated filled
    exact separated.filled_right filled

omit normal news in
/-- No interval is before the gap. -/
theorem eq_nil_of_due {bound : ℕ} (low : bound ≤ min)
    (append : r.sampleivtree = before ++ after) (ends : ∀ iv ∈ before, iv.maxp1 < bound) :
    before = [] := by
  refine List.eq_nil_iff_forall_not_mem.mpr fun iv member => ?_
  obtain ⟨behind, own, -⟩ :=
    sound.separated.bounds (append ▸ List.mem_append_left after member)
  have := own.lt
  have := ends iv member
  omega

/-- A gap that starts up to the next number. -/
theorem exists_gap_due :
    ∃ o, r.gap min maxp1 = some o ∧ Passed r o min maxp1 := by
  obtain ⟨⟨tree', coalesced?⟩, coalescing, become⟩ :=
    exists_coalesceIntervalsTouchingRange sound.separated (by omega : min < maxp1)
  rw [gap, if_neg (by omega), if_neg (not_not.mpr normal), coalescing]
  simp only [Option.bind_eq_bind, Option.bind_some]
  cases become with
  | apart before after split low high =>
      obtain rfl := eq_nil_of_due sound due le_rfl split.append low
      have same : r.sampleivtree = after := split.append
      rw [if_pos due]
      exact ⟨_, rfl, passed_apart sound normal due news (same ▸ high)⟩
  | found before middle after coalesced valuable become =>
      have least := ((become.covers min).mpr (.inr ⟨le_rfl, by omega⟩)).1
      have append := become.append
      rw [List.append_assoc] at append
      obtain rfl := eq_nil_of_due sound due least append become.low
      have ascending : Ascending RsampleReorder.min ([] ++ coalesced :: after) :=
        List.pairwise_cons.mpr ⟨fun iv member =>
          become.sound.lt.trans (become.separated.bounds member).1, become.separated.ascending⟩
      have length := become.sound.fits.length_le
      rw [← become.sound.counted] at length
      have total := sound.counted
      rw [append, counted_append, counted_append, ← become.counted] at total
      dsimp only
      rw [if_pos (by omega), guard_of due, Option.bind_some, delete_key ascending, guard_of length,
        Option.bind_some, guard_of (by omega : coalesced.nSamples ≤ r.nSamples), Option.bind_some]
      exact ⟨_, rfl, passed_coalesced sound normal due news become⟩

end Due

section Ahead

variable (ahead : r.nextSeq < min)
include sound normal nonempty ahead

/-- The intervals that touch the gap have become one with it. -/
theorem advanced_coalesced {coalesced : RsampleReorder α} (valuable : Bool)
    (become : Coalesced min maxp1 r.sampleivtree before middle after coalesced) :
    r.nextSeq < coalesced.min ∧
      Advanced r
        { result := if valuable then nnReorderAccept else nnReorderReject
          reorder :=
            { r with
              sampleivtree := before ++ coalesced :: after
              maxSampleiv := findMax (before ++ coalesced :: after) } }
        [] min maxp1 := by
  have separated := sound.separated
  have append := become.append
  have parts := separated
  rw [append, separated_append, separated_append] at parts
  have kept : r.nextSeq < coalesced.min := by
    rcases (become.covers coalesced.min).mp ⟨le_rfl, become.sound.lt⟩ with
      ⟨iv, member, low, -⟩ | within
    · have := (separated.bounds (append ▸ List.mem_append_left after
        (List.mem_append_right before member))).1
      omega
    · omega
  refine ⟨kept, ⟨separated_append.mpr
      ⟨parts.1.1, top_lt become.low kept, become.sound, become.separated⟩, rfl, ?_, sound.limited,
      fun other => absurd normal other⟩, rfl, rfl, ⟨[], stored r.sampleivtree, rfl, ?_⟩,
    fun _ => le_rfl, fun _ n known => ?_, ?_, rfl, fun full => ?_, .inl rfl⟩
  · change r.nSamples = Ddsi.counted (before ++ coalesced :: after)
    rw [sound.counted, append]
    simp only [counted_append, counted_cons, become.counted, Nat.add_assoc]
  · change _ = [] ++ stored (before ++ coalesced :: after) ++ []
    rw [append]
    simp [become.chain]
  · rw [Known, append, covered_append, covered_append]
    change n < r.nextSeq ∨ Covered (before ++ coalesced :: after) n at known
    rw [covered_append, covered_cons, become.covers n] at known
    tauto
  · cases valuable with
    | true => exact .inl rfl
    | false => exact .inr ⟨show nnReorderReject < 0 by decide, rfl⟩
  · exact absurd (full min le_rfl nonempty) List.not_mem_nil

omit normal nonempty ahead in
/-- A gap that a full admin stores is before its last interval. -/
theorem room_or_last (split : SplitAt RsampleReorder.min min r.sampleivtree before after)
    (low : ∀ iv ∈ before, iv.maxp1 < min)
    (stores : ¬(r.nSamples = r.maxSamples ∧ ∀ last ∈ r.maxIv, last.maxp1 < min)) :
    r.nSamples < r.maxSamples ∨ (0 < r.nSamples ∧ after ≠ []) := by
  rcases Nat.lt_or_ge r.nSamples r.maxSamples with room | many
  · exact .inl room
  have limit := sound.limited
  have behind := not_and.mp stores (by omega)
  push Not at behind
  obtain ⟨last, final, beyond⟩ := behind
  rw [maxIv_eq sound.separated.ascending sound.pointed] at final
  have member := List.mem_of_getLast? final
  refine .inr ⟨sound.counted ▸ sound.separated.counted_pos member, ?_⟩
  rintro rfl
  rw [split.append, List.append_nil] at member
  have := low last member
  omega

/-- No interval touches the gap, and it is stored. -/
theorem exists_limitSamples_insertGap
    (split : SplitAt RsampleReorder.min min r.sampleivtree before after)
    (low : ∀ iv ∈ before, iv.maxp1 < min) (high : ∀ iv ∈ after.head?, maxp1 < iv.min)
    (stores : ¬(r.nSamples = r.maxSamples ∧ ∀ last ∈ r.maxIv, last.maxp1 < min)) :
    ∃ r' o, r.insertGap min maxp1 = some r' ∧ r'.limitSamples = some o ∧ o.sc = [] ∧
      Advanced r
        { o with
          reorder := { o.reorder with maxSampleiv := findMax o.reorder.sampleivtree } }
        [.gap] min maxp1 := by
  let s : RsampleReorder α := { min, maxp1, nSamples := 1, sc := [.gap] }
  have own : s.Sound := ⟨(nonempty : min + 1 ≤ maxp1), List.cons_ne_nil _ _, rfl⟩
  obtain ⟨added, joined⟩ := @joined_insert _ r s sound.separated own _ _ split
    (top_lt low ahead) high r.maxSampleiv
  have bounded : r.nSamples < r.maxSamples ∨
      (0 < r.nSamples ∧ r.maxSampleiv = findMax (before ++ s :: after)) := by
    refine (room_or_last sound split low stores).imp_right ?_
    rintro ⟨positive, inner⟩
    refine ⟨positive, ?_⟩
    rw [sound.pointed, split.append, findMax_append_of_ne_nil inner, List.append_cons,
      findMax_append_of_ne_nil inner]
  obtain ⟨o, limited, accepted, -, advanced⟩ := exists_limitSamples sound normal joined rfl rfl
    bounded
  refine ⟨_, o, added, limited, ?_, advanced⟩
  rcases advanced.result with same | ⟨refused, -⟩
  · change o.result = _ at same
    rw [accepted] at same
    exact List.length_eq_zero_iff.mp (Int.ofNat_eq_zero.mp same.symm)
  · change o.result < 0 at refused
    rw [accepted] at refused
    exact absurd refused (by decide)

/-- A gap behind the next number. -/
theorem exists_gap_ahead :
    ∃ o new, r.gap min maxp1 = some o ∧ (new = [] ∨ new = [.gap]) ∧
      o.sc = [] ∧ Advanced r o new min maxp1 := by
  obtain ⟨⟨tree', coalesced?⟩, coalescing, become⟩ :=
    exists_coalesceIntervalsTouchingRange sound.separated nonempty
  rw [gap, if_neg (by omega), if_neg (not_not.mpr normal), coalescing]
  simp only [Option.bind_eq_bind, Option.bind_some]
  cases become with
  | found before middle after coalesced valuable become =>
      obtain ⟨kept, advanced⟩ := advanced_coalesced sound normal nonempty ahead valuable become
      dsimp only
      rw [if_neg (by omega)]
      exact ⟨_, [], rfl, .inl rfl, rfl, advanced⟩
  | apart before after split low high =>
      dsimp only
      rw [if_neg (by omega)]
      by_cases full : r.nSamples = r.maxSamples ∧ ∀ last ∈ r.maxIv, last.maxp1 < min
      · rw [if_pos full, ← sound.pointed]
        exact ⟨_, [], rfl, .inl rfl, rfl, advanced_unchanged sound (by decide) _ _⟩
      · obtain ⟨r', o, inserted, limited, nothing, advanced⟩ :=
          exists_limitSamples_insertGap sound normal nonempty ahead split low high full
        rw [if_neg full, inserted, Option.bind_some, limited]
        exact ⟨_, [.gap], rfl, .inr rfl, nothing, advanced⟩

end Ahead

end Gap

/-- A gap is refused or taken in, and no assertion fails. -/
theorem exists_gap (sound : r.Sound) (nonempty : min < maxp1 ∨ maxp1 ≤ 1)
    (first : r.mode = .normal → 1 ≤ r.nextSeq) :
    ∃ o new, r.gap min maxp1 = some o ∧ (new = [] ∨ new = [.gap]) ∧
      Advanced r o new min maxp1 := by
  by_cases old : maxp1 ≤ r.nextSeq
  · rw [gap, if_pos old]
    exact ⟨_, [], rfl, .inl rfl, advanced_unchanged sound (by decide) _ _⟩
  by_cases normal : r.mode = .normal
  · have positive := first normal
    have ordered : min < maxp1 := nonempty.resolve_right (by omega)
    rcases Nat.lt_or_ge r.nextSeq min with ahead | due
    · obtain ⟨o, new, ran, kind, -, advanced⟩ := exists_gap_ahead sound normal ordered ahead
      exact ⟨o, new, ran, kind, advanced⟩
    · obtain ⟨o, ran, passed⟩ := exists_gap_due sound normal due
        (by omega : r.nextSeq < maxp1)
      exact ⟨o, [], ran, .inl rfl, passed.advanced⟩
  · rw [gap, if_neg old, if_pos normal]
    exact ⟨_, [], rfl, .inl rfl, advanced_unchanged sound (by decide) _ _⟩

/-! ## Dropping everything -/

/-- An assertion of `nn_reorder_drop_upto` fails: something is stored beyond its bound, or the admin
takes in no gaps. -/
def NotDropped (r : Reorder α) (maxp1 : ℕ) : Prop :=
  (∃ last ∈ r.sampleivtree.getLast?, maxp1 < last.maxp1) ∨
    (r.mode ≠ .normal ∧ r.nextSeq < maxp1)

/-- The admin has released everything and goes on at `maxp1`. -/
structure DroppedUpto (r : Reorder α) (maxp1 : ℕ) (chain : List (ChainElem α))
    (r' : Reorder α) : Prop where
  sound : r'.Sound
  mode : r'.mode = r.mode
  maxSamples : r'.maxSamples = r.maxSamples
  chain_eq : chain = stored r.sampleivtree
  empty : r'.sampleivtree = []
  nextSeq : r'.nextSeq = max r.nextSeq maxp1

theorem dropUpto_of_notDropped (sound : r.Sound) (fails : NotDropped r maxp1) :
    r.dropUpto maxp1 = none := by
  rw [dropUpto, maxIv_eq sound.separated.ascending sound.pointed]
  rcases fails with ⟨last, final, beyond⟩ | ⟨special, ahead⟩
  · have asserted : (guard (∀ last ∈ r.sampleivtree.getLast?, last.maxp1 ≤ maxp1) :
        Option Unit) = none :=
      if_neg fun holds => absurd (holds last final) (not_le.mpr beyond)
    rw [asserted]
    rfl
  · have refused : r.gap 1 maxp1 = some (r.unchanged nnReorderReject) := by
      rw [gap, if_neg (by omega), if_pos special]
    have asserted : (guard (maxp1 ≤ r.nextSeq) : Option Unit) = none := if_neg (by omega)
    rw [refused]
    simp [unchanged, asserted]

theorem exists_dropUpto (sound : r.Sound) (first : r.mode = .normal → 1 ≤ r.nextSeq)
    (holds : ¬NotDropped r maxp1) :
    ∃ chain r', r.dropUpto maxp1 = some (chain, r') ∧ DroppedUpto r maxp1 chain r' := by
  rw [NotDropped, not_or, not_and] at holds
  obtain ⟨inside, taken⟩ := holds
  push Not at inside taken
  have separated := sound.separated
  have below (iv : RsampleReorder α) (member : iv ∈ r.sampleivtree) : iv.maxp1 ≤ maxp1 := by
    obtain ⟨last, final⟩ : ∃ last, r.sampleivtree.getLast? = some last := by
      rw [← Option.isSome_iff_exists, List.getLast?_isSome]
      exact List.ne_nil_of_mem member
    have top := (separated.bounds member).2.2
    rw [Separated.top_eq_of_getLast? final] at top
    exact top.trans (inside last final)
  rw [dropUpto, maxIv_eq separated.ascending sound.pointed, guard_of inside]
  by_cases old : maxp1 ≤ r.nextSeq
  · have empty : r.sampleivtree = [] := by
      refine List.eq_nil_iff_forall_not_mem.mpr fun iv member => ?_
      obtain ⟨behind, own, -⟩ := separated.bounds member
      have := own.lt
      have := below iv member
      omega
    have unheard : r.gap 1 maxp1 = some (r.unchanged nnReorderTooOld) := by
      rw [gap, if_pos old]
    have done : (guard (maxp1 ≤ (r.unchanged nnReorderTooOld).reorder.nextSeq) : Option Unit) =
        some () := guard_of old
    refine ⟨[], r, ?_, sound, rfl, rfl, by rw [empty]; rfl, empty, (max_eq_left old).symm⟩
    simp only [Option.bind_eq_bind, Option.bind_some, unheard, done]
    rfl
  · have normal : r.mode = .normal := by
      by_contra special
      exact absurd (taken special) old
    have positive := first normal
    obtain ⟨o, ran, passed⟩ := exists_gap_due sound normal positive
      (by omega : r.nextSeq < maxp1)
    obtain ⟨intervals, tree, chain⟩ := passed.taken
    have advanced := passed.advanced
    have reached := passed.passed
    have untouched : o.refcountAdjust = 0 := advanced.refcount
    have empty : o.reorder.sampleivtree = [] := by
      refine List.eq_nil_iff_forall_not_mem.mpr fun iv member => ?_
      obtain ⟨behind, own, -⟩ := advanced.sound.separated.bounds member
      have := own.lt
      have := below iv (tree ▸ List.mem_append_right intervals member)
      omega
    have exactly : o.reorder.nextSeq = maxp1 := by
      by_contra further
      rcases advanced.known normal maxp1 (.inl (by omega)) with (behind | covered) | within
      · omega
      · obtain ⟨iv, member, low, high⟩ := covered
        have := below iv member
        omega
      · omega
    rw [empty, List.append_nil] at tree
    rw [← tree] at chain
    have dropped : (if 0 < o.result then o.sc else []) = stored r.sampleivtree := by
      rw [← chain]
      split
      · rfl
      case isFalse nothing =>
        have nonnegative := passed.nonnegative
        have same := advanced.result.resolve_right fun refused => absurd refused.1 (by omega)
        exact (List.length_eq_zero_iff.mp (by omega)).symm
    refine ⟨_, o.reorder, ?_, advanced.sound, advanced.mode, advanced.maxSamples, rfl, empty, ?_⟩
    · simp only [Option.bind_eq_bind, Option.bind_some, ran, dropped]
      rw [guard_of untouched, Option.bind_some, guard_of reached, Option.bind_some]
    · rw [exactly, max_eq_right (by omega)]

end Reorder

end G1Jepa.Ddsi
