import G1Jepa.ReorderIntervals

/-!
# The steps of the reorder admin

How an operation drops the last element of the tree, and how a sample finds its place in it.
-/

namespace G1Jepa.Ddsi

open SearchTree

variable {α : Type}

theorem guard_of {p : Prop} [Decidable p] (holds : p) : (guard p : Option Unit) = some () :=
  if_pos holds

namespace Reorder

variable {r r' : Reorder α} {s : RsampleReorder α}

/-! ## The last element is dropped -/

/-- The admin has lost its last element. -/
structure Dropped (r : Reorder α) (e : ChainElem α) (r' : Reorder α) : Prop where
  eq : ∃ tree pointer, r' = { r with sampleivtree := tree, maxSampleiv := pointer }
  separated : Separated r.nextSeq r'.sampleivtree
  pointed : r'.maxSampleiv = findMax r'.sampleivtree
  covered : ∀ n, Covered r'.sampleivtree n → Covered r.sampleivtree n
  chain : stored r.sampleivtree = stored r'.sampleivtree ++ [e]
  counted : Ddsi.counted r.sampleivtree = Ddsi.counted r'.sampleivtree + 1
  filled : Filled r.sampleivtree → Filled r'.sampleivtree

/-- An interval of several elements loses its last one and its last number. -/
theorem sound_dropLast {last : RsampleReorder α} (sound : last.Sound) {init : List (ChainElem α)}
    {e : ChainElem α} (chain : last.sc = init ++ [e]) (inner : init ≠ []) :
    last.dropLast.Sound ∧ last.dropLast.sc = init ∧
      EndsBelow last.maxp1 last.sc.dropLast.getLast? := by
  have kept : last.sc.dropLast = init := by rw [chain, List.dropLast_concat]
  have fits := sound.fits
  have length := fits.length_le
  rw [chain] at fits length
  have shorter := fits.of_append_singleton
  refine ⟨⟨?_, ?_, ?_⟩, kept, ?_⟩
  · change Fits last.min (last.maxp1 - 1) last.sc.dropLast
    rw [kept]
    exact shorter
  · change last.sc.dropLast ≠ []
    rw [kept]
    exact inner
  · change last.nSamples - 1 = last.sc.dropLast.length
    rw [kept, sound.counted, chain, List.length_append, List.length_singleton, Nat.add_sub_cancel]
  · rw [kept]
    rw [List.length_append, List.length_singleton] at length
    exact shorter.endsBelow (by omega)

/-- An interval that its chain fills ends with the number of its last sample. -/
theorem filled_dropLast {last : RsampleReorder α} (sound : last.Sound)
    {init : List (ChainElem α)} {e : ChainElem α} (chain : last.sc = init ++ [e])
    (filled : Filled [last]) : Filled [last.dropLast] := by
  intro n covered
  rw [covered_cons, or_iff_left covered_nil] at covered
  change last.min ≤ n ∧ n < last.maxp1 - 1 at covered
  change n ∈ seqs (last.sc.dropLast ++ [])
  rw [List.append_nil, chain, List.dropLast_concat]
  have ascending := sound.fits.pairwise
  rw [chain, seqs_append] at ascending
  have member (m : ℕ) (low : last.min ≤ m) (high : m < last.maxp1) :
      m ∈ seqs init ∨ m ∈ seqs [e] := by
    have inside := filled m (covered_cons.mpr (.inl ⟨low, high⟩))
    rw [stored_cons, stored_nil, List.append_nil, chain, seqs_append, List.mem_append] at inside
    exact inside
  refine (member n covered.1 (by omega)).resolve_right fun own => ?_
  rcases member (last.maxp1 - 1) (by omega) (by omega) with earlier | same
  · have := (List.pairwise_append.mp ascending).2.2 _ earlier n own
    omega
  · cases e with
    | gap => contradiction
    | sample seq fragchain =>
        rw [seqs_sample, seqs_nil, List.mem_singleton] at own same
        omega

section DeleteLast

variable {front : List (RsampleReorder α)} {last : RsampleReorder α} {init : List (ChainElem α)}
  {e : ChainElem α} (separated : Separated r.nextSeq r.sampleivtree)
  (pointed : r.maxSampleiv = findMax r.sampleivtree) (positive : 0 < r.nSamples)
  (tree : r.sampleivtree = front ++ [last])
include separated pointed positive tree

/-- The last element is alone in its interval. -/
theorem exists_deleteLastSample_singleton (single : last.sc = [e]) (others : front ≠ []) :
    ∃ r', r.deleteLastSample = some (e, r') ∧ Dropped r e r' := by
  have found : r.maxIv = some last := by
    rw [maxIv_eq separated.ascending pointed, tree, List.getLast?_concat]
  have ascending := separated.ascending
  rw [tree] at ascending separated
  obtain ⟨earlier, -, sound, -⟩ := separated_append.mp separated
  have smaller : delete RsampleReorder.min r.sampleivtree last.min = front := by
    rw [tree, delete_key ascending, List.append_nil]
  have left : (findMax front).isSome = true := by
    rw [findMax, Option.isSome_map, List.getLast?_isSome]
    exact others
  refine ⟨{ r with sampleivtree := front, maxSampleiv := findMax front }, ?_, ⟨_, _, rfl⟩,
    earlier, rfl, fun n covered => ?_, ?_, ?_, fun filled => ?_⟩
  · rw [deleteLastSample, guard_of positive, found]
    simp only [Option.bind_eq_bind, Option.bind_some, single, List.getLast?_singleton,
      List.length_singleton, if_true, smaller, guard_of left]
  · rw [tree, covered_append]
    exact .inl covered
  · rw [tree, stored_append, stored_cons, stored_nil, single, List.append_nil]
  · rw [tree, counted_append, counted_cons, counted_nil, sound.counted, single]
    rfl
  · exact separated.filled_left (tree ▸ filled)

/-- The last element is the end of a longer chain. -/
theorem exists_deleteLastSample_longer (chain : last.sc = init ++ [e]) (inner : init ≠ []) :
    ∃ r', r.deleteLastSample = some (e, r') ∧ Dropped r e r' := by
  have found : r.maxIv = some last := by
    rw [maxIv_eq separated.ascending pointed, tree, List.getLast?_concat]
  have ascending := separated.ascending
  rw [tree] at ascending separated
  obtain ⟨earlier, behind, sound, -⟩ := separated_append.mp separated
  have length := sound.fits.length_le
  have count := sound.counted
  have several : last.sc.length ≠ 1 := by
    have := List.length_pos_iff.mpr inner
    rw [chain, List.length_append, List.length_singleton]
    omega
  have changed : modify RsampleReorder.min r.sampleivtree last.min RsampleReorder.dropLast =
      front ++ [last.dropLast] := by
    rw [tree, modify_key ascending]
  obtain ⟨cut, kept, below⟩ := sound_dropLast sound chain inner
  have positive' := List.length_pos_iff.mpr sound.stores
  refine ⟨{ r with sampleivtree := front ++ [last.dropLast] }, ?_, ⟨_, _, rfl⟩,
    separated_append.mpr ⟨earlier, behind, cut, trivial⟩, ?_, fun n covered => ?_, ?_, ?_,
    fun filled => ?_⟩
  · rw [deleteLastSample, guard_of positive, found]
    simp only [Option.bind_eq_bind, Option.bind_some, if_neg several, changed, guard_of below,
      guard_of (by omega : 1 ≤ last.nSamples),
      guard_of (by omega : last.min + last.nSamples ≤ last.maxp1)]
    rw [chain, List.getLast?_concat]
    rfl
  · change r.maxSampleiv = findMax (front ++ [last.dropLast])
    rw [pointed, tree, findMax, findMax, List.getLast?_concat, List.getLast?_concat]
    rfl
  · change Covered (front ++ [last.dropLast]) n at covered
    rw [tree]
    rw [covered_append, covered_cons] at covered ⊢
    refine covered.imp_right (Or.imp_left fun inside => ⟨inside.1, ?_⟩)
    have upper : n < last.maxp1 - 1 := inside.2
    omega
  · change _ = stored (front ++ [last.dropLast]) ++ [e]
    rw [tree, stored_append, stored_append, stored_cons, stored_cons, kept, chain, stored_nil]
    simp only [List.append_nil, List.append_assoc]
  · change _ = Ddsi.counted (front ++ [last.dropLast]) + 1
    have less : last.dropLast.nSamples + 1 = last.nSamples := by
      change last.nSamples - 1 + 1 = last.nSamples
      omega
    rw [tree, counted_append, counted_append, counted_cons, counted_cons, counted_nil]
    omega
  · rw [tree] at filled
    exact filled_append (separated.filled_left filled)
      (filled_dropLast sound chain (separated.filled_right filled))

omit tree in
theorem exists_deleteLastSample (many : 1 < Ddsi.counted r.sampleivtree) :
    ∃ e r', r.deleteLastSample = some (e, r') ∧ Dropped r e r' := by
  obtain empty | ⟨front, last, tree⟩ := List.eq_nil_or_concat r.sampleivtree
  · rw [empty, counted_nil] at many
    contradiction
  rw [List.concat_eq_append] at tree
  have sound := (separated.bounds (tree ▸ List.mem_append_right front List.mem_cons_self)).2.1
  obtain nothing | ⟨init, e, chain⟩ := List.eq_nil_or_concat last.sc
  · exact absurd nothing sound.stores
  rw [List.concat_eq_append] at chain
  refine ⟨e, ?_⟩
  by_cases inner : init = []
  · subst inner
    refine exists_deleteLastSample_singleton separated pointed positive tree chain ?_
    rintro rfl
    rw [tree, List.nil_append, counted_cons, counted_nil, sound.counted, chain] at many
    contradiction
  · exact exists_deleteLastSample_longer separated pointed positive tree chain inner

end DeleteLast

/-! ## A sample finds its place -/

section FindMax

variable {front front' rest : List (RsampleReorder α)} {q q' : RsampleReorder α}

theorem findMax_append_of_ne_nil (more : rest ≠ []) : findMax (front ++ rest) = findMax rest := by
  rw [findMax, findMax, List.getLast?_append_of_ne_nil _ more]

theorem findMax_eq_key_iff (ascending : Ascending RsampleReorder.min (front ++ q :: rest)) :
    findMax (front ++ q :: rest) = some q.min ↔ rest = [] := by
  constructor
  · intro own
    obtain rfl | ⟨init, last, rfl⟩ := List.eq_nil_or_concat rest
    · rfl
    · rw [List.concat_eq_append] at ascending own
      rw [findMax, ← List.cons_append, ← List.append_assoc, List.getLast?_concat, Option.map_some]
        at own
      have later := (List.pairwise_cons.mp (List.pairwise_append.mp ascending).2.1).1 last (by simp)
      have := Option.some.inj own
      omega
  · rintro rfl
    rw [findMax, List.getLast?_concat]
    rfl

/-- The pointer to the last interval, after the interval `q` has become `q'`. -/
theorem findMax_replace (ascending : Ascending RsampleReorder.min (front ++ q :: rest)) :
    findMax (front' ++ q' :: rest) =
      if findMax (front ++ q :: rest) = some q.min then some q'.min
      else findMax (front ++ q :: rest) := by
  by_cases last : rest = []
  · rw [if_pos ((findMax_eq_key_iff ascending).mpr last), last, findMax, List.getLast?_concat]
    rfl
  · rw [if_neg ((findMax_eq_key_iff ascending).not.mpr last)]
    rw [List.append_cons front' q' rest, List.append_cons front q rest,
      findMax_append_of_ne_nil last, findMax_append_of_ne_nil last]

end FindMax

section Joined

variable {front rest : List (RsampleReorder α)} {p q : RsampleReorder α}
  (separated : Separated r.nextSeq r.sampleivtree) (sound : s.Sound)
include separated sound

/-- An interval that touches no other is inserted. -/
theorem joined_insert {before after : List (RsampleReorder α)}
    (split : SplitAt RsampleReorder.min s.min r.sampleivtree before after)
    (low : top r.nextSeq before < s.min) (high : ∀ iv ∈ after.head?, s.maxp1 < iv.min)
    (pointer : Option ℕ) :
    r.addRsampleiv s = some { r with sampleivtree := before ++ s :: after } ∧
      Joined r s { r with sampleivtree := before ++ s :: after, maxSampleiv := pointer } := by
  have parts := separated
  rw [split.append, separated_append] at parts
  have absent (iv : RsampleReorder α) (member : iv ∈ before) : iv.min ≠ s.min := by
    obtain ⟨-, own, below⟩ := parts.1.bounds member
    have := own.lt
    omega
  have new : (lookup RsampleReorder.min r.sampleivtree s.min).isNone = true := by
    rw [split.lookup_eq_none absent]
    rfl
  refine ⟨?_, joined_of_middle before [] after s ⟨_, _, rfl⟩ ?_ rfl separated low sound
    (parts.2.raise high) ⟨[], [], rfl, by simp⟩ (fun n => ?_) ?_⟩
  · rw [addRsampleiv, guard_of new, split.insert_eq rfl absent]
    rfl
  · rw [List.append_nil]
    exact split.append
  · rw [or_iff_right covered_nil]
  · rw [counted_nil, Nat.zero_add]

/-- The interval `p` grows by the sample that follows it. -/
theorem joined_append (tree : r.sampleivtree = front ++ p :: rest) (touches : s.min = p.maxp1)
    (high : ∀ iv ∈ rest.head?, s.maxp1 < iv.min) (pointer : Option ℕ) :
    Joined r s
      { r with
        sampleivtree := front ++ p.appendInterval s :: rest
        maxSampleiv := pointer } := by
  have parts := separated
  rw [tree, separated_append] at parts
  obtain ⟨-, low, own, later⟩ := parts
  refine joined_of_middle front [p] rest (p.appendInterval s) ⟨_, _, rfl⟩ ?_ rfl separated low
    (own.appendInterval sound touches.ge) (later.raise high) ⟨p.sc, [], ?_, ?_⟩ (fun n => ?_) ?_
  · rw [tree, List.append_assoc]
    rfl
  · rw [stored_cons, stored_nil]
  · rw [List.append_nil]
    rfl
  · rw [covered_cons, or_iff_left covered_nil]
    change p.min ≤ n ∧ n < s.maxp1 ↔ _
    have := own.lt
    have := sound.lt
    omega
  · rw [counted_cons, counted_nil]
    rfl

/-- The interval `p` grows by the sample and the interval `q` that follow it. -/
theorem joined_append_append (tree : r.sampleivtree = front ++ p :: q :: rest)
    (touches : s.min = p.maxp1) (next : q.min = s.maxp1) (pointer : Option ℕ) :
    Joined r s
      { r with
        sampleivtree := front ++ (p.appendInterval s).appendInterval q :: rest
        maxSampleiv := pointer } := by
  have parts := separated
  rw [tree, separated_append] at parts
  obtain ⟨-, low, own, -, ownQ, high⟩ := parts
  refine joined_of_middle front [p, q] rest ((p.appendInterval s).appendInterval q) ⟨_, _, rfl⟩
    ?_ rfl separated low ((own.appendInterval sound touches.ge).appendInterval ownQ next.ge) high
    ⟨p.sc, q.sc, ?_, rfl⟩ (fun n => ?_) ?_
  · rw [tree, List.append_assoc]
    rfl
  · rw [stored_cons, stored_cons, stored_nil, List.append_nil]
  · rw [covered_cons, covered_cons, or_iff_left covered_nil]
    change p.min ≤ n ∧ n < q.maxp1 ↔ _
    have := own.lt
    have := sound.lt
    have := ownQ.lt
    omega
  · rw [counted_cons, counted_cons, counted_nil]
    change p.nSamples + s.nSamples + q.nSamples = _
    omega

/-- The interval `q` grows by the sample before it. -/
theorem joined_prepend (tree : r.sampleivtree = front ++ q :: rest)
    (low : top r.nextSeq front < s.min) (next : q.min = s.maxp1) (pointer : Option ℕ) :
    Joined r s
      { r with
        sampleivtree := front ++
          { q with
            sc := s.sc ++ q.sc
            min := s.min
            nSamples := q.nSamples + s.nSamples } :: rest
        maxSampleiv := pointer } := by
  have parts := separated
  rw [tree, separated_append] at parts
  obtain ⟨-, -, own, high⟩ := parts
  refine joined_of_middle front [q] rest _ ⟨_, _, rfl⟩ ?_ rfl separated low ⟨?_, ?_, ?_⟩ high
    ⟨[], q.sc, ?_, rfl⟩ (fun n => ?_) ?_
  · rw [tree, List.append_assoc]
    rfl
  · exact sound.fits.append (own.fits.mono next.ge le_rfl)
  · exact List.append_ne_nil_of_left_ne_nil sound.stores _
  · change q.nSamples + s.nSamples = (s.sc ++ q.sc).length
    rw [own.counted, sound.counted, List.length_append, Nat.add_comm]
  · rw [stored_cons, stored_nil, List.append_nil, List.nil_append]
  · rw [covered_cons, or_iff_left covered_nil]
    change s.min ≤ n ∧ n < q.maxp1 ↔ _
    have := own.lt
    have := sound.lt
    omega
  · rw [counted_cons, counted_nil]
    rfl

end Joined

section InsertBetween

variable {before after : List (RsampleReorder α)}
  (separated : Separated r.nextSeq r.sampleivtree)
  (pointed : r.maxSampleiv = findMax r.sampleivtree)
  (split : SplitAt RsampleReorder.min s.min r.sampleivtree before after)
  (sound : s.Sound) (single : s.min + 1 = s.maxp1)
include separated split single

omit single in
theorem lookup_maxp1 (single : s.min + 1 = s.maxp1) :
    lookup RsampleReorder.min r.sampleivtree s.maxp1 =
      after.head?.filter fun iv => decide (iv.min = s.maxp1) := by
  refine split.lookup_next (by omega) (fun iv member => ?_) separated.ascending
  have := split.high iv member
  omega

include pointed sound

/-- The sample is between the intervals `p` and `q` and touches both. -/
theorem exists_insertBetween_joining {front rest : List (RsampleReorder α)}
    {p q : RsampleReorder α} (last : before = front ++ [p]) (touches : s.min = p.maxp1)
    (first : after = q :: rest) (next : q.min = s.maxp1) :
    ∃ r', r.insertBetween s (some p) (lookup RsampleReorder.min r.sampleivtree s.maxp1) = some r' ∧
      Joined r s r' ∧ r'.maxSampleiv = findMax r'.sampleivtree := by
  have found := lookup_maxp1 separated split single
  have tree : r.sampleivtree = front ++ p :: q :: rest := by
    rw [split.append, last, first, List.append_assoc, List.singleton_append]
  have ascending := separated.ascending
  rw [tree, List.append_cons] at ascending
  have smaller : delete RsampleReorder.min r.sampleivtree q.min = front ++ p :: rest := by
    rw [tree, List.append_cons, delete_key ascending, List.append_assoc, List.singleton_append]
  have order : Ascending RsampleReorder.min (front ++ p :: rest) := by
    rw [← smaller]
    exact separated.ascending.sublist List.filter_sublist
  have attempt : r.tryAppendAndDiscard (p.appendInterval s) (some q) =
      some (decide (r.maxSampleiv = some q.min), (p.appendInterval s).appendInterval q,
        { r with sampleivtree := front ++ p :: rest }) := by
    have equal : q.min = (p.appendInterval s).maxp1 := next
    rw [tryAppendAndDiscard, if_neg (by omega), guard_of equal, smaller]
    rfl
  have chosen : (some p).filter (fun p => decide (s.min = p.maxp1)) = some p := by
    simp [touches]
  rw [insertBetween.eq_def, chosen, found, first, List.head?_cons, Option.filter_some,
    decide_eq_true next, if_pos rfl]
  dsimp only
  rw [attempt]
  simp only [Option.bind_eq_bind, Option.bind_some, decide_eq_true_eq, modify_key order]
  refine ⟨_, rfl, joined_append_append separated sound tree touches next _, ?_⟩
  dsimp only
  rw [pointed, tree, List.append_cons front p (q :: rest)]
  exact (@findMax_replace _ (front ++ [p]) front rest q
    ((p.appendInterval s).appendInterval q) ascending).symm

/-- The sample follows the interval `p` directly, and nothing follows the sample. -/
theorem exists_insertBetween_behind {front : List (RsampleReorder α)} {p : RsampleReorder α}
    (last : before = front ++ [p]) (touches : s.min = p.maxp1)
    (high : ∀ iv ∈ after.head?, s.maxp1 < iv.min) :
    ∃ r', r.insertBetween s (some p) (lookup RsampleReorder.min r.sampleivtree s.maxp1) = some r' ∧
      Joined r s r' ∧ r'.maxSampleiv = findMax r'.sampleivtree := by
  have found := lookup_maxp1 separated split single
  have tree : r.sampleivtree = front ++ p :: after := by
    rw [split.append, last, List.append_assoc, List.singleton_append]
  have ascending := separated.ascending
  rw [tree] at ascending
  have chosen : (some p).filter (fun p => decide (s.min = p.maxp1)) = some p := by
    simp [touches]
  have nothing : after.head?.filter (fun iv => decide (iv.min = s.maxp1)) = none := by
    rw [Option.filter_eq_none_iff]
    intro iv first
    simpa using (high iv first).ne'
  rw [insertBetween.eq_def, chosen, found, nothing]
  simp only [tryAppendAndDiscard, Option.bind_eq_bind, Option.bind_some, Bool.false_eq_true,
    if_false, tree, modify_key ascending]
  refine ⟨_, rfl, joined_append separated sound tree touches high _, ?_⟩
  dsimp only
  rw [findMax_replace ascending, pointed, tree]
  split
  case isTrue own => exact own
  case isFalse => rfl

/-- The sample does not touch the interval before it. -/
theorem exists_insertBetween_apart {predeq : Option (RsampleReorder α)}
    (apart : predeq.filter (fun p => decide (s.min = p.maxp1)) = none)
    (low : top r.nextSeq before < s.min) (inner : after ≠ []) :
    ∃ r', r.insertBetween s predeq (lookup RsampleReorder.min r.sampleivtree s.maxp1) = some r' ∧
      Joined r s r' ∧ r'.maxSampleiv = findMax r'.sampleivtree := by
  have ascending := separated.ascending
  have found := lookup_maxp1 separated split single
  obtain ⟨q, rest, rfl⟩ := List.exists_cons_of_ne_nil inner
  have tree := split.append
  have later := split.high q List.mem_cons_self
  rw [tree] at ascending
  rw [insertBetween.eq_def, apart, found, List.head?_cons, Option.filter_some]
  by_cases next : q.min = s.maxp1
  · rw [decide_eq_true next, if_pos rfl]
    simp only [tree, modify_key ascending]
    refine ⟨_, rfl, joined_prepend separated sound tree low next _, ?_⟩
    dsimp only
    rw [findMax_replace ascending, pointed, tree]
  · rw [decide_eq_false next]
    obtain ⟨added, joined⟩ := joined_insert separated sound split low
      (fun iv first => by
        obtain rfl := Option.some.inj first
        omega) r.maxSampleiv
    refine ⟨_, added, joined, ?_⟩
    change r.maxSampleiv = findMax (before ++ s :: q :: rest)
    rw [pointed, tree, findMax_append_of_ne_nil (List.cons_ne_nil _ _), List.append_cons,
      findMax_append_of_ne_nil (List.cons_ne_nil _ _)]

/-- A sample that the tree does not have, before its end, finds its place. -/
theorem exists_insertBetween (ahead : r.nextSeq < s.min) (new : ¬Covered r.sampleivtree s.min)
    (inside : s.min < top r.nextSeq r.sampleivtree) :
    ∃ r', r.insertBetween s (lookupPredEq RsampleReorder.min r.sampleivtree s.min)
        (lookup RsampleReorder.min r.sampleivtree s.maxp1) = some r' ∧
      Joined r s r' ∧ r'.maxSampleiv = findMax r'.sampleivtree := by
  have inner (low : top r.nextSeq before < s.min) : after ≠ [] := by
    rintro rfl
    rw [split.append, List.append_nil] at inside
    omega
  rw [split.lookupPredEq_eq]
  obtain rfl | ⟨front, p, rfl⟩ := List.eq_nil_or_concat before
  · exact exists_insertBetween_apart separated pointed split sound single rfl ahead (inner ahead)
  · rw [List.concat_eq_append] at split inner ⊢
    rw [List.getLast?_concat]
    have own := split.low p (by simp)
    have behind : p.maxp1 ≤ s.min := by
      by_contra inP
      refine new ⟨p, ?_, own, by omega⟩
      rw [split.append]
      simp
    by_cases touches : s.min = p.maxp1
    · by_cases high : ∀ iv ∈ after.head?, s.maxp1 < iv.min
      · exact exists_insertBetween_behind separated pointed split sound single rfl touches high
      · push Not at high
        obtain ⟨q, first, near⟩ := high
        obtain ⟨rest, append⟩ := List.head?_eq_some_iff.mp first
        have later := split.high q (append ▸ List.mem_cons_self)
        exact exists_insertBetween_joining separated pointed split sound single rfl touches append
          (by omega)
    · have low : top r.nextSeq (front ++ [p]) < s.min := by
        rw [top_append]
        change p.maxp1 < s.min
        omega
      refine exists_insertBetween_apart separated pointed split sound single ?_ low (inner low)
      rw [Option.filter_some, decide_eq_false touches]
      rfl

end InsertBetween

end Reorder

end G1Jepa.Ddsi
