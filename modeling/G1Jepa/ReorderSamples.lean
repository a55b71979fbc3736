import G1Jepa.ReorderSound

/-!
# Samples for the reorder admin

What `nn_reorder_rsample` does to the intervals and to the stored elements, and that no assertion
fails but the one on the length of a delivered interval.
-/

namespace G1Jepa.Ddsi

open SearchTree

variable {α : Type}

namespace Reorder

variable {r r' : Reorder α} {s : RsampleReorder α}

/-! ## What an operation does -/

/-- An operation that takes in the numbers from `lo` up to `hi` with the elements `new`: what it
delivers, keeps and releases is what was stored and new, in order. -/
structure Advanced (r : Reorder α) (o : ReorderOutcome α) (new : List (ChainElem α))
    (lo hi : ℕ) : Prop where
  sound : o.reorder.Sound
  mode : o.reorder.mode = r.mode
  maxSamples : o.reorder.maxSamples = r.maxSamples
  chain : ∃ left right, stored r.sampleivtree = left ++ right ∧
    left ++ new ++ right = o.sc ++ stored o.reorder.sampleivtree ++ o.released.toList
  fits : r.mode ≠ .alwaysDeliver → Fits r.nextSeq o.reorder.nextSeq o.sc
  known : r.mode = .normal → ∀ n, o.reorder.Known n → r.Known n ∨ (lo ≤ n ∧ n < hi)
  result : o.result = o.sc.length ∨ (o.result < 0 ∧ o.sc = [])
  refcount : o.refcountAdjust = new.length
  filled : (∀ n, lo ≤ n → n < hi → n ∈ seqs new) → Filled r.sampleivtree →
    Filled o.reorder.sampleivtree
  waits : o.released = none ∨ o.reorder.nextSeq = r.nextSeq

theorem advanced_unchanged (sound : r.Sound) {result : ℤ} (refused : result < 0) (lo hi : ℕ) :
    Advanced r (r.unchanged result) [] lo hi where
  sound := sound
  mode := rfl
  maxSamples := rfl
  chain := ⟨[], stored r.sampleivtree, rfl, (List.append_nil _).symm⟩
  fits _ := le_rfl
  known _ _ known := .inl known
  result := .inr ⟨refused, rfl⟩
  refcount := rfl
  filled _ filled := filled
  waits := .inl rfl

/-- An admin that has stored an element and counted it. -/
theorem advanced_of_joined (sound : r.Sound) (normal : r.mode = .normal) (joined : Joined r s r')
    (single : s.nSamples = 1) (element : s.sc.length = 1) (room : r.nSamples < r.maxSamples) :
    Advanced r
      { result := nnReorderAccept
        refcountAdjust := 1
        reorder :=
          { r' with
            nSamples := r'.nSamples + 1
            maxSampleiv := findMax r'.sampleivtree } } s.sc s.min s.maxp1 := by
  have filled := joined.filled
  obtain ⟨⟨tree, pointer, rfl⟩, separated, covered, ⟨left, right, before, after⟩, count⟩ := joined
  refine ⟨⟨separated, rfl, ?_, room, fun other => absurd normal other⟩, rfl, rfl,
    ⟨left, right, before, ?_⟩, fun _ => le_rfl, fun _ n known => ?_, .inl rfl, element.symm,
    filled, .inl rfl⟩
  · change r.nSamples + 1 = _
    rw [count, sound.counted, single]
  · exact (after.symm.trans (List.append_nil _).symm)
  · rcases known with behind | inside
    · exact .inl (.inl behind)
    · exact ((covered n).mp inside).imp_left .inr

/-- An admin that has stored an element and dropped the last one instead of counting it. -/
theorem advanced_of_dropped (sound : r.Sound) (normal : r.mode = .normal) (joined : Joined r s r')
    (single : s.nSamples = 1) (element : s.sc.length = 1) {e : ChainElem α} {r'' : Reorder α}
    (dropped : Dropped r' e r'') :
    Advanced r
      { result := nnReorderAccept
        refcountAdjust := 1
        released := some e
        reorder := r'' } s.sc s.min s.maxp1 := by
  have filled := joined.filled
  obtain ⟨⟨tree, pointer, rfl⟩, separated, covered, ⟨left, right, before, after⟩, count⟩ := joined
  obtain ⟨⟨tree', pointer', rfl⟩, separated', pointed', covered', chain', count',
    filled'⟩ := dropped
  refine ⟨⟨separated', pointed', ?_, sound.limited, fun other => absurd normal other⟩, rfl, rfl,
    ⟨left, right, before, ?_⟩, fun _ => le_rfl, fun _ n known => ?_, .inl rfl, element.symm,
    fun full old => filled' (filled full old), .inr rfl⟩
  · have same := sound.counted
    change r.nSamples = Ddsi.counted tree'
    dsimp only at count count'
    omega
  · exact (after.symm.trans chain')
  · rcases known with behind | inside
    · exact .inl (.inl behind)
    · exact ((covered n).mp (covered' n inside)).imp_left .inr

/-- The end of an operation that has stored an element. -/
theorem exists_limitSamples (sound : r.Sound) (normal : r.mode = .normal) (joined : Joined r s r')
    (single : s.nSamples = 1) (element : s.sc.length = 1)
    (bounded : r.nSamples < r.maxSamples ∨
      (0 < r.nSamples ∧ r'.maxSampleiv = findMax r'.sampleivtree)) :
    ∃ o, r'.limitSamples = some o ∧ o.result = nnReorderAccept ∧
      (r'.maxSampleiv = findMax r'.sampleivtree →
        o.reorder.maxSampleiv = findMax o.reorder.sampleivtree) ∧
      Advanced r
        { o with
          reorder := { o.reorder with maxSampleiv := findMax o.reorder.sampleivtree } }
        s.sc s.min s.maxp1 := by
  have same : r'.nSamples = r.nSamples ∧ r'.maxSamples = r.maxSamples := by
    obtain ⟨tree, pointer, rfl⟩ := joined.eq
    exact ⟨rfl, rfl⟩
  rw [limitSamples]
  by_cases room : r'.nSamples < r'.maxSamples
  · rw [if_pos room]
    rw [same.1, same.2] at room
    exact ⟨_, rfl, rfl, fun pointed => pointed,
      advanced_of_joined sound normal joined single element room⟩
  · rw [if_neg room]
    rw [same.1, same.2] at room
    obtain ⟨positive, pointed⟩ := bounded.resolve_left room
    have keeps : r'.nextSeq = r.nextSeq := by
      obtain ⟨tree, pointer, rfl⟩ := joined.eq
      rfl
    have count := joined.counted
    rw [← sound.counted, single] at count
    obtain ⟨e, r'', deleted, dropped⟩ := exists_deleteLastSample
      (keeps ▸ joined.separated) pointed (by omega : 0 < r'.nSamples) (by omega)
    rw [deleted]
    refine ⟨_, rfl, rfl, fun _ => dropped.pointed, ?_⟩
    have advanced := advanced_of_dropped sound normal joined single element dropped
    dsimp only
    rw [← dropped.pointed]
    exact advanced

/-! ## Samples -/

/-- A sample is delivered, with what follows it. -/
structure Delivered (r : Reorder α) (s : RsampleReorder α) (o : ReorderOutcome α) : Prop where
  positive : 0 < o.result
  released : o.released = none
  passed : s.maxp1 ≤ o.reorder.nextSeq
  keeps : r.mode = .normal → ∀ n, r.Known n → o.reorder.Known n
  advanced : Advanced r o s.sc s.min s.maxp1

section Deliver

variable (sound : r.Sound) (own : s.Sound) (single : s.min + 1 = s.maxp1)
  (element : s.nSamples = 1)
include sound own single element

/-- Nothing in the tree follows the sample directly. -/
theorem exists_deliver_alone
    (due : s.min = r.nextSeq ∨
      (r.mode ≠ .normal ∧ (r.mode ≠ .alwaysDeliver → r.nextSeq < s.min)))
    (apart : ∀ iv ∈ r.sampleivtree.head?, s.maxp1 < iv.min) :
    ∃ o, r.deliver s = some o ∧ Delivered r s o := by
  have count := own.counted
  have attempt : r.appendFirst s = some (false, s, r) := by
    rw [appendFirst]
    split
    · rfl
    · rw [tryAppendAndDiscard.eq_def]
      split
      · rfl
      case h_2 iv first => rw [if_pos (apart iv first)]
  have span : s.maxp1 - s.min ≤ int32Max := by
    have : 1 ≤ int32Max := by decide
    omega
  refine ⟨{ result := s.nSamples
            sc := s.sc
            refcountAdjust := 1
            reorder := { r with nextSeq := s.maxp1, nSamples := r.nSamples - (s.nSamples - 1) } },
    ?_, ?_, rfl, le_rfl, fun normal n known => ?_, ?_⟩
  · rw [deliver, attempt]
    simp only [Option.bind_eq_bind, Option.bind_some]
    rw [guard_of (by omega : 1 ≤ s.maxp1 - s.min), Option.bind_some, guard_of span,
      Option.bind_some, guard_of (by omega : s.min + s.nSamples ≤ s.maxp1),
      Option.bind_some, guard_of (by omega : s.nSamples - 1 ≤ r.nSamples), Option.bind_some]
    rfl
  · rw [element]
    exact Int.one_pos
  · have now := due.resolve_right fun other => other.1 normal
    refine known.imp_left fun behind => ?_
    change n < s.maxp1
    omega
  · rw [element]
    refine ⟨⟨sound.separated.raise apart, sound.pointed, sound.counted, sound.limited,
      sound.stores⟩, rfl, rfl, ⟨[], stored r.sampleivtree, rfl, ?_⟩, fun ordered => ?_,
      fun normal n known => ?_, .inl ?_, ?_, fun _ filled => filled, .inl rfl⟩
    · simp
    · rcases due with now | ⟨-, later⟩
      · exact own.fits.mono now.ge le_rfl
      · exact own.fits.mono (later ordered).le le_rfl
    · have now := due.resolve_right fun other => other.1 normal
      rcases known with behind | inside
      · change n < s.maxp1 at behind
        rcases Nat.lt_or_ge n r.nextSeq with before | after
        · exact .inl (.inl before)
        · exact .inr ⟨by omega, behind⟩
      · exact .inl (.inr inside)
    · rw [← count, element]
    · rw [← count, element]

variable {q : RsampleReorder α} {rest : List (RsampleReorder α)}
  (tree : r.sampleivtree = q :: rest) (next : q.min = s.maxp1)
include tree next

omit own in
/-- The first interval of the tree follows the sample. -/
theorem deliver_eq_of_next :
    r.deliver s = (guard (q.maxp1 - s.min ≤ int32Max) : Option Unit).bind fun _ =>
      some
        { result := ((s.nSamples + q.nSamples : ℕ) : ℤ)
          sc := s.sc ++ q.sc
          refcountAdjust := 1
          reorder :=
            { r with
              sampleivtree := rest
              maxSampleiv := findMax rest
              nextSeq := q.maxp1
              nSamples := r.nSamples - (s.nSamples + q.nSamples - 1) } } := by
  have separated := sound.separated
  have pointed := sound.pointed
  have total := sound.counted
  rw [tree] at separated pointed total
  rw [counted_cons] at total
  have ascending := separated.ascending
  obtain ⟨-, ownQ, -⟩ := separated
  have lengthQ := ownQ.fits.length_le
  have countQ := ownQ.counted
  have pointer : r.maxSampleiv ≠ none := by
    rw [pointed, findMax]
    simp
  have update : (if r.maxSampleiv = some q.min then none else r.maxSampleiv) = findMax rest := by
    have first := @findMax_eq_key_iff _ [] rest q ascending
    rw [List.nil_append] at first
    rw [pointed]
    by_cases last : rest = []
    · rw [if_pos (first.mpr last), last]
      rfl
    · rw [if_neg (first.not.mpr last)]
      exact @findMax_append_of_ne_nil _ [q] rest last
  have smaller : delete RsampleReorder.min (q :: rest) q.min = rest :=
    @delete_key _ _ _ RsampleReorder.min [] rest q ascending
  rw [deliver, appendFirst, if_neg pointer, tree, List.head?_cons, tryAppendAndDiscard,
    if_neg (by omega), guard_of next, tree, smaller]
  simp only [Option.bind_eq_bind, Option.bind_some, RsampleReorder.appendInterval,
    decide_eq_true_eq, update]
  rw [guard_of (by omega : 1 ≤ q.maxp1 - s.min), Option.bind_some]
  congr 1
  funext _
  rw [guard_of (by omega : s.min + (s.nSamples + q.nSamples) ≤ q.maxp1), Option.bind_some,
    guard_of (by omega : s.nSamples + q.nSamples - 1 ≤ r.nSamples), Option.bind_some]

theorem exists_deliver_joined (now : s.min = r.nextSeq) (span : q.maxp1 - s.min ≤ int32Max) :
    ∃ o, r.deliver s = some o ∧ Delivered r s o := by
  have separated := sound.separated
  have total := sound.counted
  have limited := sound.limited
  have count := own.counted
  rw [tree] at separated total
  rw [counted_cons] at total
  obtain ⟨-, ownQ, later⟩ := separated
  have countQ := ownQ.counted
  have lt := ownQ.lt
  have started := deliver_eq_of_next sound single element tree next
  rw [guard_of span, Option.bind_some] at started
  refine ⟨_, started, ?_, rfl, ?_, fun _ n known => ?_, ⟨⟨later, rfl, ?_, ?_, ?_⟩, rfl, rfl,
    ⟨[], q.sc ++ stored rest, ?_, ?_⟩, fun _ => ?_, fun _ n known => ?_, .inl ?_, ?_,
    fun _ filled => ?_, .inl rfl⟩⟩
  · change (0 : ℤ) < ((s.nSamples + q.nSamples : ℕ) : ℤ)
    omega
  · change s.maxp1 ≤ q.maxp1
    omega
  · rw [Reorder.Known, tree, covered_cons] at known
    rcases known with behind | ⟨-, below⟩ | inside
    · exact .inl (show n < q.maxp1 by omega)
    · exact .inl below
    · exact .inr inside
  · change r.nSamples - (s.nSamples + q.nSamples - 1) = Ddsi.counted rest
    omega
  · change r.nSamples - _ ≤ r.maxSamples
    omega
  · intro other
    rw [sound.stores other] at tree
    contradiction
  · rw [tree]
    rfl
  · simp
  · exact (own.appendInterval ownQ next.ge).fits.mono now.ge le_rfl
  · rcases known with behind | ⟨iv, member, bounds⟩
    · change n < q.maxp1 at behind
      rcases Nat.lt_or_ge n r.nextSeq with before | after
      · exact .inl (.inl before)
      · rcases Nat.lt_or_ge n s.maxp1 with due | beyond
        · exact .inr ⟨by omega, due⟩
        · exact .inl (.inr ⟨q, tree ▸ List.mem_cons_self, by omega, behind⟩)
    · exact .inl (.inr ⟨iv, tree ▸ List.mem_cons_of_mem _ member, bounds⟩)
  · rw [List.length_append, ← count, ← countQ]
  · rw [← count, element]
  · have apart := sound.separated
    rw [tree] at apart filled
    exact @Separated.filled_right _ r.nextSeq [q] rest apart filled

omit tree next in
/-- A sample whose turn it is can be delivered, unless the first interval of the tree would make it
too long. -/
theorem deliver_cases
    (due : s.min = r.nextSeq ∨
      (r.mode ≠ .normal ∧ (r.mode ≠ .alwaysDeliver → r.nextSeq < s.min))) :
    (∃ o, r.deliver s = some o ∧ Delivered r s o) ∨
      (s.min = r.nextSeq ∧
        ∃ q ∈ r.sampleivtree.head?, q.min = s.maxp1 ∧ int32Max < q.maxp1 - s.min) := by
  by_cases apart : ∀ iv ∈ r.sampleivtree.head?, s.maxp1 < iv.min
  · exact .inl (exists_deliver_alone sound own single element due apart)
  · push Not at apart
    obtain ⟨q, first, near⟩ := apart
    obtain ⟨rest, tree⟩ := List.head?_eq_some_iff.mp first
    have normal : r.mode = .normal := by
      by_contra other
      rw [sound.stores other] at tree
      contradiction
    have now := due.resolve_right fun other => other.1 normal
    have separated := sound.separated
    rw [tree] at separated
    have ahead := separated.1
    by_cases span : q.maxp1 - s.min ≤ int32Max
    · exact .inl (exists_deliver_joined sound own single element tree (by omega) now span)
    · exact .inr ⟨now, q, first, by omega, by omega⟩

end Deliver

/-- A sample is refused, or taken in. -/
def Taken (r : Reorder α) (s : RsampleReorder α) (o : ReorderOutcome α) : Prop :=
  (o.result < 0 ∧ o = r.unchanged o.result) ∨ Advanced r o s.sc s.min s.maxp1

theorem taken_unchanged {result : ℤ} (refused : result < 0) :
    Taken r s (r.unchanged result) :=
  .inl ⟨refused, rfl⟩

section Store

variable (sound : r.Sound) (own : s.Sound) (single : s.min + 1 = s.maxp1)
  (element : s.nSamples = 1) (normal : r.mode = .normal)
include sound own single element normal

omit single in
theorem exists_storeFirst (ahead : r.nextSeq < s.min) (empty : r.sampleivtree = []) :
    ∃ o, r.storeFirst s = some o ∧ Taken r s o := by
  have count := sound.counted
  rw [empty, counted_nil] at count
  rw [storeFirst, guard_of count]
  simp only [Option.bind_eq_bind, Option.bind_some]
  by_cases nothing : r.maxSamples = 0
  · rw [if_pos nothing]
    exact ⟨_, rfl, taken_unchanged (by decide)⟩
  · have split : SplitAt RsampleReorder.min s.min r.sampleivtree [] [] := ⟨empty, by simp, by simp⟩
    obtain ⟨added, joined⟩ := joined_insert sound.separated own split ahead (by simp)
      (some s.min)
    have advanced := advanced_of_joined sound normal joined element
      (own.counted.symm.trans element) (by omega)
    rw [if_neg nothing, added, Option.bind_some]
    exact ⟨_, rfl, .inr advanced⟩

omit single in
theorem exists_storeLast {last : RsampleReorder α} (final : r.sampleivtree.getLast? = some last)
    (behind : last.maxp1 ≤ s.min) (full : Bool) :
    ∃ o, r.storeLast s last full = some o ∧ Taken r s o := by
  obtain ⟨front, tree⟩ := List.getLast?_eq_some_iff.mp final
  have separated := sound.separated
  have ascending := separated.ascending
  rw [tree] at ascending
  have count := own.counted.symm.trans element
  rw [storeLast]
  by_cases refused : (full || !decide (r.nSamples < r.maxSamples)) = true
  · rw [if_pos refused]
    exact ⟨_, rfl, taken_unchanged (by decide)⟩
  rw [if_neg refused]
  have room : r.nSamples < r.maxSamples := by
    simp only [Bool.or_eq_true, not_or, Bool.not_eq_true', decide_eq_false_iff_not, not_not]
      at refused
    exact refused.2
  by_cases touches : s.min = last.maxp1
  · have joined := joined_append separated own tree touches (by simp) r.maxSampleiv
    have advanced := advanced_of_joined sound normal joined element count room
    have pointed := sound.pointed
    rw [tree, findMax, List.getLast?_concat] at pointed
    simp only [findMax, List.getLast?_concat] at advanced
    rw [if_pos touches, tree, modify_key ascending, pointed]
    exact ⟨_, rfl, .inr advanced⟩
  · have split : SplitAt RsampleReorder.min s.min r.sampleivtree (front ++ [last]) [] := by
      refine ⟨by rw [List.append_nil, tree], fun iv member => ?_, by simp⟩
      obtain ⟨-, inner, below⟩ := separated.bounds (tree ▸ member)
      rw [Separated.top_eq_of_getLast? final] at below
      have := inner.lt
      omega
    have lower : top r.nextSeq (front ++ [last]) < s.min := by
      rw [top_append]
      change last.maxp1 < s.min
      omega
    obtain ⟨added, joined⟩ := joined_insert separated own split lower (by simp) (some s.min)
    have advanced := advanced_of_joined sound normal joined element count room
    simp only [findMax, List.getLast?_concat] at advanced
    rw [if_neg touches, added, Option.bind_eq_bind, Option.bind_some]
    exact ⟨_, rfl, .inr advanced⟩

theorem exists_hardCase {last : RsampleReorder α} (final : r.sampleivtree.getLast? = some last)
    (ahead : r.nextSeq < s.min) (before : s.min < last.maxp1) (full : Bool) :
    ∃ o, r.hardCase s full = some o ∧ Taken r s o := by
  have separated := sound.separated
  obtain ⟨low, high, split⟩ := exists_splitAt separated.ascending s.min
  rw [hardCase]
  split
  · exact ⟨_, rfl, taken_unchanged (by decide)⟩
  dsimp only
  split
  · exact ⟨_, rfl, taken_unchanged (by decide)⟩
  case isFalse _ free =>
    have new : ¬Covered r.sampleivtree s.min := by
      intro covered
      have known : r.Known s.min := .inr covered
      rw [← wantsample_eq_false_iff separated, wantsample, if_neg (by omega)] at known
      split at known
      · contradiction
      case h_2 p found =>
        have lower : p.min ≤ s.min := by
          rw [split.lookupPredEq_eq] at found
          exact split.low p (List.mem_of_getLast? found)
        refine free ?_
        rw [found, Option.any_some, decide_eq_true_eq]
        rw [decide_eq_false_iff_not] at known
        omega
    have inside : s.min < top r.nextSeq r.sampleivtree := by
      rw [Separated.top_eq_of_getLast? final]
      exact before
    obtain ⟨r', inserted, joined, pointed⟩ := exists_insertBetween separated sound.pointed split own
      single ahead new inside
    have stores : 0 < r.nSamples :=
      sound.counted ▸ separated.counted_pos (List.mem_of_getLast? final)
    obtain ⟨o, limited, -, kept, advanced⟩ := exists_limitSamples sound normal joined element
      (own.counted.symm.trans element) (.inr ⟨stores, pointed⟩)
    rw [inserted]
    refine ⟨o, limited, .inr ?_⟩
    rw [← kept pointed] at advanced
    exact advanced

end Store

theorem consistent_of_sound (sound : r.Sound) : r.Consistent := by
  refine ⟨fun iv first => ?_, sound.pointed, sound.limited⟩
  exact (sound.separated.bounds (List.mem_of_mem_head? first)).1

/-- The assertion that can fail: the sample would be delivered with an interval that is too long,
which a gap can be. -/
def TooLong (r : Reorder α) (seq : ℕ) (deliveryQueueFull : Bool) : Prop :=
  seq = r.nextSeq ∧ deliveryQueueFull = false ∧
    ∃ q ∈ r.sampleivtree.head?, q.min = seq + 1 ∧ int32Max < q.maxp1 - seq

theorem rsample_of_tooLong (sound : r.Sound) {seq : ℕ} {full : Bool} (long : TooLong r seq full)
    (fragchain : α) : r.rsample (.new seq fragchain) full = none := by
  obtain ⟨now, rfl, q, first, next, span⟩ := long
  obtain ⟨rest, tree⟩ := List.head?_eq_some_iff.mp first
  have alone : (RsampleReorder.new seq fragchain).IsSingleton := ⟨rfl, rfl, rfl⟩
  have due : (RsampleReorder.new seq fragchain).min = r.nextSeq := now
  have ended : (guard (q.maxp1 - (RsampleReorder.new seq fragchain).min ≤ int32Max) :
      Option Unit) = none := if_neg (not_le.mpr span)
  have stuck : r.deliver (.new seq fragchain) = none := by
    rw [deliver_eq_of_next sound rfl rfl tree next, ended, Option.bind_none]
  rw [rsample, guard_of alone, guard_of (consistent_of_sound sound)]
  simp only [Option.bind_eq_bind, Option.bind_some]
  rw [if_pos (.inl due), if_neg Bool.false_ne_true, stuck]

/-- A sample is refused or taken in, and a sample whose turn it is is delivered if there is room for
it. -/
theorem rsample_cases (sound : r.Sound) (seq : ℕ) (fragchain : α) (full : Bool) :
    (∃ o, r.rsample (.new seq fragchain) full = some o ∧ Taken r (.new seq fragchain) o ∧
      (seq = r.nextSeq → full = false → Delivered r (.new seq fragchain) o)) ∨
      TooLong r seq full := by
  have own := RsampleReorder.sound_new seq fragchain
  generalize new : RsampleReorder.new seq fragchain = s at own
  have number : s.min = seq := by rw [← new]; rfl
  have single : s.min + 1 = s.maxp1 := by rw [← new]; rfl
  have element : s.nSamples = 1 := by rw [← new]; rfl
  have alone : s.IsSingleton := ⟨element, single, own.counted.symm.trans element⟩
  rw [rsample, guard_of alone, guard_of (consistent_of_sound sound)]
  simp only [Option.bind_eq_bind, Option.bind_some]
  split
  case isTrue deliverable =>
    split
    case isTrue stopped =>
      exact .inl ⟨_, rfl, taken_unchanged (by decide), fun _ going => by simp [stopped] at going⟩
    case isFalse going =>
      have due : s.min = r.nextSeq ∨
          (r.mode ≠ .normal ∧ (r.mode ≠ .alwaysDeliver → r.nextSeq < s.min)) := by
        rcases deliverable with now | ⟨later, increasing⟩ | always
        · exact .inl now
        · exact .inr ⟨by rw [increasing]; decide, fun _ => later⟩
        · exact .inr ⟨by rw [always]; decide, fun other => absurd always other⟩
      rcases deliver_cases sound own single element due with ⟨o, ran, delivered⟩ | long
      · exact .inl ⟨o, ran, .inr delivered.advanced, fun _ _ => delivered⟩
      · obtain ⟨now, q, first, next, long⟩ := long
        exact .inr ⟨number.symm.trans now, by simpa using going, q, first, by omega, number ▸ long⟩
  case isFalse later =>
    rw [not_or, not_or] at later
    obtain ⟨other, unordered, ordered⟩ := later
    have absurdity (now : seq = r.nextSeq) : False := other (number.trans now)
    left
    split
    case isTrue =>
      exact ⟨_, rfl, taken_unchanged (by decide), fun now => (absurdity now).elim⟩
    case isFalse young =>
      have ahead : r.nextSeq < s.min := by omega
      have normal : r.mode = .normal := by
        cases mode : r.mode with
        | normal => rfl
        | monotonicallyIncreasing => exact absurd ⟨ahead, mode⟩ unordered
        | alwaysDeliver => exact absurd mode ordered
      split
      case isTrue empty =>
        obtain ⟨o, ran, taken⟩ := exists_storeFirst sound own element normal ahead
          (List.isEmpty_iff.mp empty)
        exact ⟨o, ran, taken, fun now => (absurdity now).elim⟩
      case isFalse some_stored =>
        have found : ∃ last, r.sampleivtree.getLast? = some last := by
          rw [← Option.isSome_iff_exists, List.getLast?_isSome]
          exact fun empty => some_stored (List.isEmpty_iff.mpr empty)
        obtain ⟨last, final⟩ := found
        rw [maxIv_eq sound.separated.ascending sound.pointed, final]
        simp only [Option.bind_some]
        split
        case isTrue behind =>
          obtain ⟨o, ran, taken⟩ := exists_storeLast sound own element normal final behind full
          exact ⟨o, ran, taken, fun now => (absurdity now).elim⟩
        case isFalse before =>
          obtain ⟨o, ran, taken⟩ := exists_hardCase sound own single element normal final ahead
            (by omega) full
          exact ⟨o, ran, taken, fun now => (absurdity now).elim⟩

end Reorder

end G1Jepa.Ddsi
