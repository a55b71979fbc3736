import G1Jepa.ReorderRun

/-!
# A reliable writer without reliable readers

`handle_regular` of `q_receive.c` inserts a gap up to an accepted sample when a proxy writer has no
reliable readers. The samples are then delivered as those of a best-effort writer are.
-/

namespace G1Jepa.Ddsi

variable {α : Type}

namespace Reorder

/-- The part of `handle_regular` that hands a sample to the primary reorder admin. -/
def receive (r : Reorder α) (nReliableReaders seq : ℕ) (fragchain : α) :
    Option (ReorderOutcome α) := do
  let o ← r.rsample (.new seq fragchain) false
  if o.result = nnReorderAccept ∧ nReliableReaders = 0 then do
    let gapped ← o.reorder.gap 1 seq
    guard (0 < gapped.result)
    guard (gapped.refcountAdjust = 0)
    some
      { gapped with
        refcountAdjust := o.refcountAdjust
        released := o.released }
  else some o

/-- A reorder admin that stores nothing. -/
def idle (mode : ReorderMode) (maxSamples : ℕ) (lateAckMode : Bool) (seq : ℕ) : Reorder α :=
  (new mode maxSamples lateAckMode).setNextSeq seq

/-- A sample for an admin that stores nothing and delivers what is not too old. -/
def soloOutcome (mode : ReorderMode) (maxSamples : ℕ) (lateAckMode : Bool) (n seq : ℕ)
    (fragchain : α) : ReorderOutcome α :=
  if seq < n then (idle mode maxSamples lateAckMode n).unchanged nnReorderTooOld
  else
    { result := 1
      sc := [.sample seq fragchain]
      refcountAdjust := 1
      reorder := idle mode maxSamples lateAckMode (seq + 1) }

variable {mode : ReorderMode} {maxSamples n seq : ℕ} {lateAckMode : Bool} {fragchain : α}

theorem sound_idle : (idle mode maxSamples lateAckMode n : Reorder α).Sound :=
  ⟨trivial, rfl, rfl, Nat.zero_le _, fun _ => rfl⟩

@[simp] theorem idle_nextSeq :
    (idle mode maxSamples lateAckMode n : Reorder α).nextSeq = n := rfl

@[simp] theorem idle_mode : (idle mode maxSamples lateAckMode n : Reorder α).mode = mode := rfl

@[simp] theorem idle_sampleivtree :
    (idle mode maxSamples lateAckMode n : Reorder α).sampleivtree = [] := rfl

@[simp] theorem new_min : (RsampleReorder.new seq fragchain).min = seq := rfl

theorem deliver_idle (passed : ¬seq < n) :
    (idle mode maxSamples lateAckMode n).deliver (.new seq fragchain) =
      some (soloOutcome mode maxSamples lateAckMode n seq fragchain) := by
  have span : 0 < int32Max := by decide
  rw [soloOutcome, if_neg passed]
  simp [deliver, appendFirst, idle, new, setNextSeq, RsampleReorder.new, guard_of span]

theorem rsample_idle_increasing :
    (idle .monotonicallyIncreasing maxSamples lateAckMode n).rsample (.new seq fragchain) false =
      some (soloOutcome .monotonicallyIncreasing maxSamples lateAckMode n seq fragchain) := by
  have alone : (RsampleReorder.new seq fragchain).IsSingleton := ⟨rfl, rfl, rfl⟩
  rw [rsample, guard_of alone, guard_of (consistent_of_sound sound_idle)]
  simp only [Option.bind_eq_bind, Option.bind_some]
  by_cases old : seq < n
  · rw [if_neg (by simp; omega), if_pos (by exact old), soloOutcome, if_pos old]
  · rw [if_pos (by simp; omega), if_neg Bool.false_ne_true, deliver_idle old]

/-- The gap up to a stored sample takes it in. -/
theorem coalesce_solo {r : Reorder α} (tree : r.sampleivtree = [.new seq fragchain])
    (late : 1 < seq) :
    r.coalesceIntervalsTouchingRange 1 seq =
      some ([{ RsampleReorder.new seq fragchain with min := 1 }],
        some ({ RsampleReorder.new seq fragchain with min := 1 }, true)) := by
  have first : r.firstTouching 1 seq = some (some (.new seq fragchain)) := by
    simp [firstTouching, tree, SearchTree.lookupPredEq, not_le.mpr late, Option.filter_some]
  rw [coalesceIntervalsTouchingRange, first, tree]
  simp [SearchTree.above, appendSuccessors, late, RsampleReorder.new]

/-- The gap up to a stored sample delivers it. -/
theorem gap_solo {r : Reorder α} (tree : r.sampleivtree = [.new seq fragchain])
    (normal : r.mode = .normal) (count : r.nSamples = 1) (positive : 1 ≤ r.nextSeq)
    (ahead : r.nextSeq < seq) :
    r.gap 1 seq =
      some
        { result := 1
          sc := [.sample seq fragchain]
          reorder :=
            { r with
              sampleivtree := []
              maxSampleiv := none
              nextSeq := seq + 1
              nSamples := 0 } } := by
  have fits : 1 ≤ seq := by omega
  rw [gap, if_neg (by omega), if_neg (not_not.mpr normal), coalesce_solo tree (by omega)]
  simp only [Option.bind_eq_bind, Option.bind_some]
  rw [if_pos positive, guard_of positive]
  simp [RsampleReorder.new, guard_of fits, count, SearchTree.delete, findMax]

theorem soloOutcome_result_ne :
    (soloOutcome mode maxSamples lateAckMode n seq fragchain).result ≠ nnReorderAccept := by
  rw [soloOutcome]
  split
  · exact show nnReorderTooOld ≠ nnReorderAccept by decide
  · exact Int.one_ne_zero

/-- A sample is delivered, if need be with the gap. -/
theorem receive_idle (positive : 1 ≤ n) (room : maxSamples ≠ 0) :
    (idle .normal maxSamples lateAckMode n).receive 0 seq fragchain =
      some (soloOutcome .normal maxSamples lateAckMode n seq fragchain) := by
  have alone : (RsampleReorder.new seq fragchain).IsSingleton := ⟨rfl, rfl, rfl⟩
  have refused := @soloOutcome_result_ne α .normal maxSamples n seq lateAckMode fragchain
  rw [receive, rsample, guard_of alone, guard_of (consistent_of_sound sound_idle)]
  simp only [Option.bind_eq_bind, Option.bind_some]
  rcases lt_trichotomy seq n with old | now | ahead
  · have late : some ((idle .normal maxSamples lateAckMode n).unchanged nnReorderTooOld) =
        some (soloOutcome .normal maxSamples lateAckMode n seq fragchain) := by
      rw [soloOutcome, if_pos old]
    rw [if_neg (by simp; omega), if_pos (by exact old), late, Option.bind_some,
      if_neg fun accepted => refused accepted.1]
  · rw [if_pos (.inl now), if_neg Bool.false_ne_true, deliver_idle (by omega), Option.bind_some,
      if_neg fun accepted => refused accepted.1]
  · have stored : (idle .normal maxSamples lateAckMode n).storeFirst (.new seq fragchain) =
        some
          { result := nnReorderAccept
            refcountAdjust := 1
            reorder :=
              { (idle .normal maxSamples lateAckMode n : Reorder α) with
                sampleivtree := [.new seq fragchain]
                maxSampleiv := some seq
                nSamples := 1 } } := by
      rw [storeFirst, guard_of (by rfl), Option.bind_eq_bind, Option.bind_some,
        if_neg (by exact room)]
      rfl
    rw [if_neg (by simp; omega), if_neg (by simp; omega), if_pos (by rfl), stored,
      Option.bind_some, if_pos ⟨rfl, trivial⟩, gap_solo rfl rfl rfl positive ahead, soloOutcome,
      if_neg (by omega)]
    rfl

end Reorder

/-! ## Runs -/

namespace ReorderRun

/-- The reception of a sample of a proxy writer. -/
def receiveStep (nReliableReaders : ℕ) (s : ReorderRun α) (sample : ℕ × α) :
    Option (ReorderRun α) :=
  (s.reorder.receive nReliableReaders sample.1 sample.2).map
    (s.record (.sample sample.1 sample.2))

/-- A sample for a delivery queue that is never full. -/
def sampleEvent (sample : ℕ × α) : ReorderEvent α :=
  .rsample sample.1 sample.2 false

/-- The primary admin of a reliable writer without reliable readers against the one of a best-effort
writer. -/
structure Alike (maxSamples : ℕ) (lateAckMode : Bool) (s t : ReorderRun α) : Prop where
  idle : ∃ n, 1 ≤ n ∧ s.reorder = .idle .normal maxSamples lateAckMode n ∧
    t.reorder = .idle .monotonicallyIncreasing maxSamples lateAckMode n
  accepted : s.accepted = t.accepted
  delivered : s.delivered = t.delivered
  released : s.released = t.released

variable {maxSamples first : ℕ} {lateAckMode : Bool} {s t : ReorderRun α}

theorem Alike.step (alike : s.Alike maxSamples lateAckMode t) (room : maxSamples ≠ 0)
    (sample : ℕ × α) :
    ∃ s' t', s.receiveStep 0 sample = some s' ∧ t.step (sampleEvent sample) = some t' ∧
      s'.Alike maxSamples lateAckMode t' := by
  obtain ⟨⟨n, positive, own, other⟩, accepted, delivered, released⟩ := alike
  refine ⟨s.record (.sample sample.1 sample.2)
      (Reorder.soloOutcome .normal maxSamples lateAckMode n sample.1 sample.2),
    t.record (.sample sample.1 sample.2)
      (Reorder.soloOutcome .monotonicallyIncreasing maxSamples lateAckMode n sample.1 sample.2),
    ?_, ?_, ?_⟩
  · rw [receiveStep, own, Reorder.receive_idle positive room]
    rfl
  · rw [sampleEvent, ReorderRun.step, other, Reorder.rsample_idle_increasing]
    rfl
  · rw [Reorder.soloOutcome, Reorder.soloOutcome]
    split
    · refine ⟨⟨n, positive, rfl, rfl⟩, ?_, ?_, ?_⟩
      all_goals simp [record, Reorder.unchanged, accepted, delivered, released]
    · refine ⟨⟨sample.1 + 1, by omega, rfl, rfl⟩, ?_, ?_, ?_⟩
      all_goals simp [record, accepted, delivered, released]

/-- Without reliable readers the samples of a reliable writer are delivered as those of a
best-effort writer are, the gap that is inserted delivers in every case, and nothing is kept. -/
theorem bestEffort_readers (positive : 1 ≤ first) (room : maxSamples ≠ 0)
    (samples : List (ℕ × α)) :
    ∃ s t, EventRun.run (receiveStep 0) (init .normal maxSamples lateAckMode first) samples =
        some s ∧
      run (init .monotonicallyIncreasing maxSamples lateAckMode first) (samples.map sampleEvent) =
        some t ∧
      s.delivered = t.delivered ∧ s.accepted = t.accepted ∧ s.released = t.released ∧
      s.reorder.nextSeq = t.reorder.nextSeq ∧ s.reorder.sampleivtree = [] := by
  suffices simulated : ∀ s t : ReorderRun α, s.Alike maxSamples lateAckMode t →
      ∃ s' t', EventRun.run (receiveStep 0) s samples = some s' ∧
        t.run (samples.map sampleEvent) = some t' ∧ s'.Alike maxSamples lateAckMode t' by
    obtain ⟨s, t, own, other, ⟨n, -, same, same'⟩, accepted, delivered, released⟩ :=
      simulated (init .normal maxSamples lateAckMode first)
        (init .monotonicallyIncreasing maxSamples lateAckMode first)
        ⟨⟨first, positive, rfl, rfl⟩, rfl, rfl, rfl⟩
    exact ⟨s, t, own, other, delivered, accepted, released, by rw [same, same']; rfl,
      by rw [same]; rfl⟩
  induction samples with
  | nil => exact fun s t alike => ⟨s, t, rfl, rfl, alike⟩
  | cons sample samples induction =>
      intro s t alike
      obtain ⟨s', t', own, other, alike⟩ := alike.step room sample
      obtain ⟨s'', t'', own', other', alike⟩ := induction s' t' alike
      exact ⟨s'', t'', EventRun.run_cons_eq_some.mpr ⟨s', own, own'⟩,
        EventRun.run_cons_eq_some.mpr ⟨t', other, other'⟩, alike⟩

/-- The sample 3 is delivered before the sample 2, which is then too old. -/
theorem bestEffort_readers_overtaking :
    ∃ s t, EventRun.run (receiveStep 0) (init .normal 2 false 1) [(3, ()), (2, ()), (4, ())] =
        some s ∧
      run (init .monotonicallyIncreasing 2 false 1)
        ([(3, ()), (2, ()), (4, ())].map sampleEvent) = some t ∧
      s.delivered = t.delivered ∧ s.accepted = t.accepted ∧ s.released = t.released ∧
      s.reorder.nextSeq = t.reorder.nextSeq ∧ s.reorder.sampleivtree = [] :=
  bestEffort_readers le_rfl (by decide) _

end ReorderRun

end G1Jepa.Ddsi
