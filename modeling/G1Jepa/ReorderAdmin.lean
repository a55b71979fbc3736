import G1Jepa.Library.SearchTree

/-!
# The reorder admin

`nn_reorder` of `q_radmin.c`. The samples of a writer that arrive before their turn are kept in a
tree of intervals of sequence numbers, which neither overlap nor touch, each with the chain of the
samples and gaps that it stores. A sample whose turn it is takes what follows it out of the tree.
A failed assertion is `none`.
-/

namespace G1Jepa.Ddsi

/-- `nn_rsample_chain_elem`: a sample with its fragments, or a gap, which has no sample info. -/
inductive ChainElem (α : Type)
  | sample (seq : ℕ) (fragchain : α)
  | gap
  deriving DecidableEq

/-- `nn_rsample_reorder`: the interval `[min, maxp1)` with its chain. -/
structure RsampleReorder (α : Type) where
  min : ℕ
  maxp1 : ℕ
  nSamples : ℕ
  sc : List (ChainElem α)
  deriving DecidableEq

namespace RsampleReorder

variable {α : Type}

/-- `reorder_rsample_new`. -/
def new (seq : ℕ) (fragchain : α) : RsampleReorder α where
  min := seq
  maxp1 := seq + 1
  nSamples := 1
  sc := [.sample seq fragchain]

/-- `rsample_is_singleton`. -/
def IsSingleton (s : RsampleReorder α) : Prop :=
  s.nSamples = 1 ∧ s.min + 1 = s.maxp1 ∧ s.sc.length = 1

instance (s : RsampleReorder α) : Decidable s.IsSingleton :=
  inferInstanceAs (Decidable (_ ∧ _ ∧ _))

/-- `append_rsample_interval`. -/
def appendInterval (a b : RsampleReorder α) : RsampleReorder α :=
  { a with
    sc := a.sc ++ b.sc
    maxp1 := b.maxp1
    nSamples := a.nSamples + b.nSamples }

/-- What `delete_last_sample` leaves of an interval with several elements. -/
def dropLast (last : RsampleReorder α) : RsampleReorder α :=
  { last with
    sc := last.sc.dropLast
    maxp1 := last.maxp1 - 1
    nSamples := last.nSamples - 1 }

end RsampleReorder

/-- `nn_reorder_mode`. -/
inductive ReorderMode
  | normal
  | monotonicallyIncreasing
  | alwaysDeliver
  deriving DecidableEq

/-- `nn_reorder`; `maxSampleiv` is the key of the interval that the source points to. -/
structure Reorder (α : Type) where
  sampleivtree : List (RsampleReorder α) := []
  maxSampleiv : Option ℕ := none
  nextSeq : ℕ := 1
  mode : ReorderMode
  maxSamples : ℕ
  nSamples : ℕ := 0
  lateAckMode : Bool

def nnReorderAccept : ℤ := 0
def nnReorderTooOld : ℤ := -1
def nnReorderReject : ℤ := -2

/-- What an operation returns and leaves behind: its result, the chain for delivery, the adjustment
of the reference count, and the element whose fragments it releases. -/
structure ReorderOutcome (α : Type) where
  result : ℤ
  sc : List (ChainElem α) := []
  refcountAdjust : ℕ := 0
  released : Option (ChainElem α) := none
  reorder : Reorder α

namespace Reorder

open SearchTree

variable {α : Type}

/-- `nn_reorder_new`. -/
def new (mode : ReorderMode) (maxSamples : ℕ) (lateAckMode : Bool) : Reorder α where
  mode
  maxSamples
  lateAckMode

/-- `nn_reorder_set_next_seq`. -/
def setNextSeq (r : Reorder α) (seq : ℕ) : Reorder α :=
  { r with nextSeq := seq }

/-- The interval that `max_sampleiv` points to. -/
def maxIv (r : Reorder α) : Option (RsampleReorder α) :=
  r.maxSampleiv.bind (lookup RsampleReorder.min r.sampleivtree)

/-- The key of the last interval of the tree. -/
def findMax (tree : List (RsampleReorder α)) : Option ℕ :=
  tree.getLast?.map RsampleReorder.min

/-- The assertions at the entry of `nn_reorder_rsample`. -/
def Consistent (r : Reorder α) : Prop :=
  (∀ iv ∈ r.sampleivtree.head?, r.nextSeq < iv.min) ∧ r.maxSampleiv = findMax r.sampleivtree ∧
    r.nSamples ≤ r.maxSamples

instance (r : Reorder α) : Decidable r.Consistent :=
  inferInstanceAs (Decidable (_ ∧ _ ∧ _))

/-- An operation that changes nothing. -/
def unchanged (r : Reorder α) (result : ℤ) : ReorderOutcome α where
  result
  reorder := r

/-- `reorder_add_rsampleiv`: an interval with a new key. -/
def addRsampleiv (r : Reorder α) (s : RsampleReorder α) : Option (Reorder α) := do
  guard (lookup RsampleReorder.min r.sampleivtree s.min).isNone
  some { r with sampleivtree := SearchTree.insert RsampleReorder.min r.sampleivtree s }

/-- `reorder_try_append_and_discard`: whether `max_sampleiv` must be updated, the interval after
the attempt, and the tree without what it took. -/
def tryAppendAndDiscard (r : Reorder α) (appendto : RsampleReorder α)
    (todiscard : Option (RsampleReorder α)) : Option (Bool × RsampleReorder α × Reorder α) :=
  match todiscard with
  | none => some (false, appendto, r)
  | some iv =>
      if appendto.maxp1 < iv.min then some (false, appendto, r)
      else do
        guard (iv.min = appendto.maxp1)
        some (decide (r.maxSampleiv = some iv.min), appendto.appendInterval iv,
          { r with sampleivtree := delete RsampleReorder.min r.sampleivtree iv.min })

/-- What `delete_last_sample` asserts about the element before the last one. -/
def EndsBelow (bound : ℕ) : Option (ChainElem α) → Prop
  | some (.sample seq _) => seq + 1 < bound
  | _ => True

instance (bound : ℕ) (e : Option (ChainElem α)) : Decidable (EndsBelow bound e) :=
  match e with
  | some (.sample seq _) => inferInstanceAs (Decidable (seq + 1 < bound))
  | some .gap => .isTrue trivial
  | none => .isTrue trivial

/-- `delete_last_sample`, with the element whose fragments it releases. -/
def deleteLastSample (r : Reorder α) : Option (ChainElem α × Reorder α) := do
  guard (0 < r.nSamples)
  let last ← r.maxIv
  let e ← last.sc.getLast?
  if last.sc.length = 1 then
    let tree := delete RsampleReorder.min r.sampleivtree last.min
    guard (findMax tree).isSome
    some (e, { r with sampleivtree := tree, maxSampleiv := findMax tree })
  else
    guard (1 ≤ last.nSamples)
    guard (last.min + last.nSamples ≤ last.maxp1)
    guard (EndsBelow last.maxp1 last.sc.dropLast.getLast?)
    some (e, { r with
      sampleivtree :=
        modify RsampleReorder.min r.sampleivtree last.min RsampleReorder.dropLast })

/-- The radmin is not let grow beyond `max_samples`: the end of an operation that has stored an
element. -/
def limitSamples (r : Reorder α) : Option (ReorderOutcome α) :=
  if r.nSamples < r.maxSamples then
    some
      { result := nnReorderAccept
        refcountAdjust := 1
        reorder := { r with nSamples := r.nSamples + 1 } }
  else do
    let (e, r) ← r.deleteLastSample
    some
      { result := nnReorderAccept
        refcountAdjust := 1
        released := some e
        reorder := r }

def int32Max : ℕ := 2 ^ 31 - 1

/-- A sample that is delivered takes the first interval of the tree with it, if it can. -/
def appendFirst (r : Reorder α) (s : RsampleReorder α) :
    Option (Bool × RsampleReorder α × Reorder α) :=
  if r.maxSampleiv = none then some (false, s, r)
  else r.tryAppendAndDiscard s r.sampleivtree.head?

/-- The branch of `nn_reorder_rsample` for a sample that can be delivered. -/
def deliver (r : Reorder α) (s : RsampleReorder α) : Option (ReorderOutcome α) := do
  let (last, s, r) ← r.appendFirst s
  guard (1 ≤ s.maxp1 - s.min)
  guard (s.maxp1 - s.min ≤ int32Max)
  guard (s.min + s.nSamples ≤ s.maxp1)
  guard (s.nSamples - 1 ≤ r.nSamples)
  some
    { result := s.nSamples
      sc := s.sc
      refcountAdjust := 1
      reorder :=
        { r with
          maxSampleiv := if last then none else r.maxSampleiv
          nextSeq := s.maxp1
          nSamples := r.nSamples - (s.nSamples - 1) } }

/-- The hard case puts a sample before the last interval: behind `predeq`, before `immsucc`,
between both or apart from both. -/
def insertBetween (r : Reorder α) (s : RsampleReorder α)
    (predeq immsucc : Option (RsampleReorder α)) : Option (Reorder α) :=
  match predeq.filter fun p => decide (s.min = p.maxp1) with
  | some p => do
      let (last, joined, r) ← r.tryAppendAndDiscard (p.appendInterval s) immsucc
      some
        { r with
          sampleivtree := modify RsampleReorder.min r.sampleivtree p.min fun _ => joined
          maxSampleiv := if last then some p.min else r.maxSampleiv }
  | none =>
      match immsucc with
      | some q =>
          some
            { r with
              sampleivtree := modify RsampleReorder.min r.sampleivtree q.min fun q =>
                { q with
                  sc := s.sc ++ q.sc
                  min := s.min
                  nSamples := q.nSamples + s.nSamples }
              maxSampleiv := if r.maxSampleiv = some q.min then some s.min else r.maxSampleiv }
      | none => r.addRsampleiv s

/-- The last branch of `nn_reorder_rsample`. -/
def hardCase (r : Reorder α) (s : RsampleReorder α) (deliveryQueueFull : Bool) :
    Option (ReorderOutcome α) :=
  if r.lateAckMode && deliveryQueueFull then some (r.unchanged nnReorderReject)
  else
    let predeq := lookupPredEq RsampleReorder.min r.sampleivtree s.min
    if predeq.any fun p => decide (p.min ≤ s.min ∧ s.min < p.maxp1) then
      some (r.unchanged nnReorderReject)
    else do
      let r ← r.insertBetween s predeq (lookup RsampleReorder.min r.sampleivtree s.maxp1)
      r.limitSamples

/-- The branch of `nn_reorder_rsample` for a sample that finds nothing stored. -/
def storeFirst (r : Reorder α) (s : RsampleReorder α) : Option (ReorderOutcome α) := do
  guard (r.nSamples = 0)
  if r.maxSamples = 0 then some (r.unchanged nnReorderReject)
  else do
    let r ← r.addRsampleiv s
    some
      { result := nnReorderAccept
        refcountAdjust := 1
        reorder := { r with maxSampleiv := some s.min, nSamples := r.nSamples + 1 } }

/-- The branches of `nn_reorder_rsample` for a sample behind the last interval: it grows the
interval or is a new one. -/
def storeLast (r : Reorder α) (s last : RsampleReorder α) (deliveryQueueFull : Bool) :
    Option (ReorderOutcome α) :=
  if deliveryQueueFull || !decide (r.nSamples < r.maxSamples) then
    some (r.unchanged nnReorderReject)
  else if s.min = last.maxp1 then
    some
      { result := nnReorderAccept
        refcountAdjust := 1
        reorder :=
          { r with
            sampleivtree := modify RsampleReorder.min r.sampleivtree last.min fun last =>
              last.appendInterval s
            nSamples := r.nSamples + 1 } }
  else do
    let r ← r.addRsampleiv s
    some
      { result := nnReorderAccept
        refcountAdjust := 1
        reorder := { r with maxSampleiv := some s.min, nSamples := r.nSamples + 1 } }

/-- `nn_reorder_rsample`. -/
def rsample (r : Reorder α) (s : RsampleReorder α) (deliveryQueueFull : Bool) :
    Option (ReorderOutcome α) := do
  guard s.IsSingleton
  guard r.Consistent
  if s.min = r.nextSeq ∨ (r.nextSeq < s.min ∧ r.mode = .monotonicallyIncreasing) ∨
      r.mode = .alwaysDeliver then
    -- A deliverable sample is never stored, so it is rejected when there is no room for it.
    if deliveryQueueFull then some (r.unchanged nnReorderReject) else r.deliver s
  else if s.min < r.nextSeq then some (r.unchanged nnReorderTooOld)
  else if r.sampleivtree.isEmpty then r.storeFirst s
  else do
    let last ← r.maxIv
    if last.maxp1 ≤ s.min then r.storeLast s last deliveryQueueFull
    else r.hardCase s deliveryQueueFull

/-! ## Gaps -/

/-- The loop of `coalesce_intervals_touching_range` over the successors of `s`: the interval that
has taken those up to `maxp1`, the remaining ones, and whether it has taken any. -/
def appendSuccessors (maxp1 : ℕ) (s : RsampleReorder α) :
    List (RsampleReorder α) → Option (RsampleReorder α × List (RsampleReorder α) × Bool)
  | [] => some (s, [], false)
  | t :: rest =>
      if t.min ≤ maxp1 then do
        guard (t.min + t.nSamples ≤ t.maxp1)
        let (s, rest, _) ← appendSuccessors maxp1 (s.appendInterval t) rest
        some (s, rest, true)
      else some (s, t :: rest, false)

/-- The search of `coalesce_intervals_touching_range` for the first interval that touches the
range. -/
def firstTouching (r : Reorder α) (min maxp1 : ℕ) : Option (Option (RsampleReorder α)) :=
  let predeq := lookupPredEq RsampleReorder.min r.sampleivtree min
  match predeq.filter fun s => decide (min ≤ s.maxp1) with
  | some s => do
      guard (∀ q ∈ findPred RsampleReorder.min r.sampleivtree s.min, q.maxp1 < min)
      some (some s)
  | none =>
      -- The first interval of all, or the next one.
      let succ :=
        match predeq with
        | some s => (above RsampleReorder.min r.sampleivtree s.min).head?
        | none => r.sampleivtree.head?
      some (succ.filter fun s => decide (s.min ≤ maxp1))

/-- `coalesce_intervals_touching_range`: the tree, and the interval that now covers the range with
whether anything has changed. -/
def coalesceIntervalsTouchingRange (r : Reorder α) (min maxp1 : ℕ) :
    Option (List (RsampleReorder α) × Option (RsampleReorder α × Bool)) := do
  match ← r.firstTouching min maxp1 with
  | none => some (r.sampleivtree, none)
  | some s =>
      guard (s.min + s.nSamples ≤ s.maxp1)
      let (joined, rest, appended) ←
        appendSuccessors maxp1 s (above RsampleReorder.min r.sampleivtree s.min)
      let coalesced : RsampleReorder α :=
        { joined with
          min := if min < joined.min then min else joined.min
          maxp1 := if joined.maxp1 < maxp1 then maxp1 else joined.maxp1 }
      some
        ((r.sampleivtree.filter fun iv => decide (iv.min < s.min)) ++ coalesced :: rest,
          some (coalesced, appended || decide (min < joined.min) || decide (joined.maxp1 < maxp1)))

/-- `reorder_insert_gap`. -/
def insertGap (r : Reorder α) (min maxp1 : ℕ) : Option (Reorder α) :=
  r.addRsampleiv
    { min
      maxp1
      nSamples := 1
      sc := [.gap] }

/-- `nn_reorder_gap`. -/
def gap (r : Reorder α) (min maxp1 : ℕ) : Option (ReorderOutcome α) :=
  if maxp1 ≤ r.nextSeq then some (r.unchanged nnReorderTooOld)
  else if r.mode ≠ .normal then some (r.unchanged nnReorderReject)
  else do
    let (tree, coalesced?) ← r.coalesceIntervalsTouchingRange min maxp1
    match coalesced? with
    | none =>
        if min ≤ r.nextSeq then
          some
            { result := nnReorderAccept
              reorder := { r with nextSeq := maxp1, maxSampleiv := findMax r.sampleivtree } }
        else if r.nSamples = r.maxSamples ∧ ∀ last ∈ r.maxIv, last.maxp1 < min then
          some (({ r with maxSampleiv := findMax r.sampleivtree } : Reorder α).unchanged
            nnReorderReject)
        else do
          let r ← r.insertGap min maxp1
          let outcome ← r.limitSamples
          some
            { outcome with
              reorder :=
                { outcome.reorder with
                  maxSampleiv := findMax outcome.reorder.sampleivtree } }
    | some (coalesced, valuable) =>
        if coalesced.min ≤ r.nextSeq then do
          guard (min ≤ r.nextSeq)
          let tree := delete RsampleReorder.min tree coalesced.min
          guard (coalesced.min + coalesced.nSamples ≤ coalesced.maxp1)
          guard (coalesced.nSamples ≤ r.nSamples)
          some
            { result := coalesced.nSamples
              sc := coalesced.sc
              reorder :=
                { r with
                  sampleivtree := tree
                  maxSampleiv := findMax tree
                  nextSeq := coalesced.maxp1
                  nSamples := r.nSamples - coalesced.nSamples } }
        else
          some
            { result := if valuable then nnReorderAccept else nnReorderReject
              reorder := { r with sampleivtree := tree, maxSampleiv := findMax tree } }

/-- `nn_reorder_drop_upto`, with the chain that it releases. -/
def dropUpto (r : Reorder α) (maxp1 : ℕ) : Option (List (ChainElem α) × Reorder α) := do
  guard (∀ last ∈ r.maxIv, last.maxp1 ≤ maxp1)
  let outcome ← r.gap 1 maxp1
  guard (outcome.refcountAdjust = 0)
  guard (maxp1 ≤ outcome.reorder.nextSeq)
  some (if 0 < outcome.result then outcome.sc else [], outcome.reorder)

/-! ## What is missing -/

/-- `nn_reorder_wantsample`. -/
def wantsample (r : Reorder α) (seq : ℕ) : Bool :=
  if seq < r.nextSeq then false
  else
    match lookupPredEq RsampleReorder.min r.sampleivtree seq with
    | none => true
    | some s => decide (s.maxp1 ≤ seq)

/-- `nn_bitset_set` for the numbers from `i` up to `stop`. -/
def setBits (base : ℕ) (bits : List Bool) (i stop : ℕ) : List Bool :=
  (List.range' i (stop - i)).foldl (fun bits seq => bits.set (seq - base) true) bits

/-- The first loop of `nn_reorder_nackmap`: where it stops, and the bits. -/
def nackIntervals (base numbits : ℕ) :
    ℕ → List Bool → List (RsampleReorder α) → ℕ × List Bool
  | i, bits, [] => (i, bits)
  | i, bits, iv :: rest =>
      if i < base + numbits then
        nackIntervals base numbits iv.maxp1
          (setBits base bits i (Nat.min (base + numbits) iv.min)) rest
      else (i, bits)

/-- `nn_sequence_number_set` as `nn_reorder_nackmap` fills it. -/
structure SequenceNumberSet where
  bitmapBase : ℕ
  numbits : ℕ
  bits : List Bool
  deriving DecidableEq

/-- `nn_reorder_nackmap`. -/
def nackmap (r : Reorder α) (base maxseq maxsz : ℕ) (notail : Bool) : Option SequenceNumberSet := do
  guard (maxsz ≤ 256)
  let maxsz := if r.maxSamples < maxsz then r.maxSamples else maxsz
  let base := if r.nextSeq < base then r.nextSeq else base
  let maxseq := if maxseq + 1 < base then base - 1 else maxseq
  let numbits := if maxsz < maxseq + 1 - base then maxsz else maxseq + 1 - base
  guard (∀ iv ∈ r.sampleivtree.head?, base < iv.min)
  let (i, bits) := nackIntervals base numbits base (List.replicate numbits false) r.sampleivtree
  if notail && decide (i < base + numbits) then
    some
      { bitmapBase := base
        numbits := i - base
        bits }
  else
    some
      { bitmapBase := base
        numbits
        bits := setBits base bits i (base + numbits) }

end Reorder

end G1Jepa.Ddsi
