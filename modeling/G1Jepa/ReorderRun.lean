import G1Jepa.Library.EventRun
import G1Jepa.ReorderGaps

/-!
# Runs of the reorder admin

Samples and gaps arrive in any order, any number of times, and the delivery queue is full at any
time. What is delivered ascends, nothing is skipped that was not announced or dropped, and every
reference that the admin takes is delivered, held or released.
-/

namespace G1Jepa.Ddsi

variable {α : Type}

/-- A call of an operation of the reorder admin. -/
inductive ReorderEvent (α : Type)
  | rsample (seq : ℕ) (fragchain : α) (deliveryQueueFull : Bool)
  | gap (min maxp1 : ℕ)
  | dropUpto (maxp1 : ℕ)

/-- The callers pass no empty gaps, but that of a heartbeat for the first sequence number. -/
def ReorderEvent.Valid : ReorderEvent α → Prop
  | .gap min maxp1 => min < maxp1 ∨ maxp1 ≤ 1
  | .rsample _ _ _ | .dropUpto _ => True

instance (event : ReorderEvent α) : Decidable event.Valid :=
  match event with
  | .gap min maxp1 => inferInstanceAs (Decidable (min < maxp1 ∨ maxp1 ≤ 1))
  | .rsample _ _ _ | .dropUpto _ => .isTrue trivial

/-- The sequence numbers that an event declares unavailable. -/
def ReorderEvent.Announces : ReorderEvent α → ℕ → Prop
  | .gap min maxp1, n => min ≤ n ∧ n < maxp1
  | .dropUpto maxp1, n => n < maxp1
  | .rsample _ _ _, _ => False

/-- A gap that starts with the first sequence number, as that of a heartbeat does. -/
def ReorderEvent.Heartbeat : ReorderEvent α → Prop
  | .gap min _ => min ≤ 1
  | .rsample _ _ _ | .dropUpto _ => True

instance (event : ReorderEvent α) : Decidable event.Heartbeat :=
  match event with
  | .gap min _ => inferInstanceAs (Decidable (min ≤ 1))
  | .rsample _ _ _ | .dropUpto _ => .isTrue trivial

/-- A reorder admin with what it has accepted, delivered and released. -/
structure ReorderRun (α : Type) where
  reorder : Reorder α
  accepted : List (ChainElem α) := []
  delivered : List (ChainElem α) := []
  released : List (ChainElem α) := []

namespace ReorderRun

def init (mode : ReorderMode) (maxSamples : ℕ) (lateAckMode : Bool) (seq : ℕ) :
    ReorderRun α where
  reorder := (Reorder.new mode maxSamples lateAckMode).setNextSeq seq

/-- What an operation on the element `e` leaves behind. -/
def record (s : ReorderRun α) (e : ChainElem α) (o : ReorderOutcome α) : ReorderRun α where
  reorder := o.reorder
  accepted := s.accepted ++ List.replicate o.refcountAdjust e
  delivered := s.delivered ++ o.sc
  released := s.released ++ o.released.toList

/-- An operation whose assertions hold. -/
def step (s : ReorderRun α) : ReorderEvent α → Option (ReorderRun α)
  | .rsample seq fragchain full =>
      (s.reorder.rsample (.new seq fragchain) full).map (s.record (.sample seq fragchain))
  | .gap min maxp1 => (s.reorder.gap min maxp1).map (s.record .gap)
  | .dropUpto maxp1 =>
      (s.reorder.dropUpto maxp1).map fun (chain, reorder) =>
        { s with
          reorder
          released := s.released ++ chain }

/-- The run of a list of events. -/
abbrev run (s : ReorderRun α) : List (ReorderEvent α) → Option (ReorderRun α) :=
  EventRun.run step s

/-- An assertion fails on the event. -/
def Fails (r : Reorder α) : ReorderEvent α → Prop
  | .rsample seq _ full => r.TooLong seq full
  | .gap _ _ => False
  | .dropUpto maxp1 => r.NotDropped maxp1

/-! ## What every run keeps -/

/-- The state of the admin, explained by the events that led to it. -/
structure Explained (mode : ReorderMode) (maxSamples first : ℕ) (events : List (ReorderEvent α))
    (s : ReorderRun α) : Prop where
  sound : s.reorder.Sound
  mode_eq : s.reorder.mode = mode
  maxSamples_eq : s.reorder.maxSamples = maxSamples
  fits : mode ≠ .alwaysDeliver → Fits first s.reorder.nextSeq s.delivered
  references : s.accepted.Perm (s.delivered ++ stored s.reorder.sampleivtree ++ s.released)
  offered : ∀ n fragchain, ChainElem.sample n fragchain ∈ s.accepted →
    ∃ full, .rsample n fragchain full ∈ events
  known : mode = .normal → ∀ n, first ≤ n → s.reorder.Known n →
    n ∈ seqs s.accepted ∨ ∃ event ∈ events, event.Announces n

section Invariant

variable {mode : ReorderMode} {maxSamples first : ℕ} {lateAckMode : Bool}
  {events : List (ReorderEvent α)} {s after : ReorderRun α} {event : ReorderEvent α}

theorem explained_init :
    (init mode maxSamples lateAckMode first : ReorderRun α).Explained mode maxSamples first [] where
  sound := ⟨trivial, rfl, rfl, Nat.zero_le _, fun _ => rfl⟩
  mode_eq := rfl
  maxSamples_eq := rfl
  fits _ := le_rfl
  references := .refl _
  offered _ _ member := absurd member List.not_mem_nil
  known := by
    rintro - n low (behind | covered)
    · exact absurd behind (not_lt.mpr low)
    · exact absurd covered covered_nil

/-- An element is taken in between the stored ones, and what is delivered and released leaves. -/
theorem references_record {accepted delivered released new left right sc stored' rel :
    List (ChainElem α)} (references : accepted.Perm (delivered ++ (left ++ right) ++ released))
    (chain : left ++ new ++ right = sc ++ stored' ++ rel) :
    (accepted ++ new).Perm ((delivered ++ sc) ++ stored' ++ (released ++ rel)) := by
  rw [← Multiset.coe_eq_coe] at references ⊢
  have same := congrArg (fun sc : List (ChainElem α) => (sc : Multiset (ChainElem α))) chain
  simp only [← Multiset.coe_add] at references same ⊢
  calc (accepted : Multiset (ChainElem α)) + new
      = delivered + released + (left + new + right) := by
        rw [references]
        abel
    _ = delivered + sc + stored' + (released + rel) := by
        rw [same]
        abel

theorem Explained.record (explained : s.Explained mode maxSamples first events)
    {e : ChainElem α} {o : ReorderOutcome α} {new : List (ChainElem α)} {lo hi : ℕ}
    (advanced : s.reorder.Advanced o new lo hi) (kind : new = [] ∨ new = [e])
    (offers : ∀ n fragchain, ChainElem.sample n fragchain ∈ new →
      ∃ full, event = .rsample n fragchain full)
    (covers : ∀ n, lo ≤ n → n < hi → n ∈ seqs new ∨ event.Announces n) :
    (s.record e o).Explained mode maxSamples first (events ++ [event]) := by
  have accepts : (s.record e o).accepted = s.accepted ++ new := by
    rw [ReorderRun.record, advanced.refcount]
    rcases kind with rfl | rfl <;> rfl
  obtain ⟨left, right, before, chain⟩ := advanced.chain
  refine ⟨advanced.sound, advanced.mode.trans explained.mode_eq,
    advanced.maxSamples.trans explained.maxSamples_eq, fun ordered => ?_, ?_,
    fun n fragchain member => ?_, fun normal n low known => ?_⟩
  · exact (explained.fits ordered).append (advanced.fits (explained.mode_eq ▸ ordered))
  · rw [accepts]
    exact references_record (before ▸ explained.references) chain
  · rw [accepts, List.mem_append] at member
    rcases member with old | young
    · obtain ⟨full, earlier⟩ := explained.offered n fragchain old
      exact ⟨full, List.mem_append_left _ earlier⟩
    · obtain ⟨full, rfl⟩ := offers n fragchain young
      exact ⟨full, List.mem_append_right _ List.mem_cons_self⟩
  · rw [accepts, seqs_append, List.mem_append]
    rcases advanced.known (explained.mode_eq.trans normal) n known with old | ⟨above, below⟩
    · rcases explained.known normal n low old with member | ⟨other, earlier, announces⟩
      · exact .inl (.inl member)
      · exact .inr ⟨other, List.mem_append_left _ earlier, announces⟩
    · rcases covers n above below with member | announces
      · exact .inl (.inr member)
      · exact .inr ⟨event, List.mem_append_right _ List.mem_cons_self, announces⟩

theorem Explained.first_le (explained : s.Explained mode maxSamples first events)
    (ordered : mode ≠ .alwaysDeliver) : first ≤ s.reorder.nextSeq :=
  Nat.le_of_add_right_le (explained.fits ordered).length_le

theorem Explained.rsample (explained : s.Explained mode maxSamples first events) {seq : ℕ}
    {fragchain : α} {full : Bool} {o : ReorderOutcome α}
    (taken : s.reorder.Taken (.new seq fragchain) o) :
    (s.record (.sample seq fragchain) o).Explained mode maxSamples first
      (events ++ [.rsample seq fragchain full]) := by
  rcases taken with ⟨refused, unchanged⟩ | advanced
  · have nothing := Reorder.advanced_unchanged explained.sound refused 0 0
    rw [← unchanged] at nothing
    exact explained.record nothing (.inl rfl) (by simp) (by simp)
  · refine explained.record advanced (.inr rfl) (fun n other member => ?_) fun n low high => ?_
    · obtain ⟨rfl, rfl⟩ := ChainElem.sample.inj (List.mem_singleton.mp member)
      exact ⟨full, rfl⟩
    · change seq ≤ n at low
      change n < seq + 1 at high
      exact .inl (List.mem_singleton.mpr (by omega))

theorem Explained.dropUpto (explained : s.Explained mode maxSamples first events) {maxp1 : ℕ}
    {chain : List (ChainElem α)} {reorder : Reorder α}
    (dropped : s.reorder.DroppedUpto maxp1 chain reorder) :
    ({ s with reorder, released := s.released ++ chain } : ReorderRun α).Explained mode maxSamples
      first (events ++ [.dropUpto maxp1]) := by
  refine ⟨dropped.sound, dropped.mode.trans explained.mode_eq,
    dropped.maxSamples.trans explained.maxSamples_eq, fun ordered => ?_, ?_,
    fun n fragchain member => ?_, fun normal n low known => ?_⟩
  · refine (explained.fits ordered).mono le_rfl ?_
    rw [dropped.nextSeq]
    exact le_max_left _ _
  · change s.accepted.Perm
      (s.delivered ++ stored reorder.sampleivtree ++ (s.released ++ chain))
    have references := explained.references
    rw [dropped.empty, dropped.chain_eq, stored_nil, List.append_nil]
    rw [List.append_assoc] at references
    exact references.trans (List.Perm.append_left _ List.perm_append_comm)
  · obtain ⟨full, earlier⟩ := explained.offered n fragchain member
    exact ⟨full, List.mem_append_left _ earlier⟩
  · rcases known with behind | covered
    · change n < reorder.nextSeq at behind
      rw [dropped.nextSeq, lt_max_iff] at behind
      rcases behind with old | young
      · rcases explained.known normal n low (.inl old) with member | ⟨event, earlier, announces⟩
        · exact .inl member
        · exact .inr ⟨event, List.mem_append_left _ earlier, announces⟩
      · exact .inr ⟨_, List.mem_append_right _ List.mem_cons_self, young⟩
    · change Covered reorder.sampleivtree n at covered
      rw [dropped.empty] at covered
      exact absurd covered covered_nil

/-- An operation fails on an assertion, or the state stays explained. -/
theorem Explained.step_cases (explained : s.Explained mode maxSamples first events)
    (positive : 1 ≤ first) (valid : event.Valid) :
    (s.step event = none ∧ Fails s.reorder event) ∨
      ∃ after, s.step event = some after ∧ ¬Fails s.reorder event ∧
        after.Explained mode maxSamples first (events ++ [event]) := by
  have low (normal : s.reorder.mode = .normal) : 1 ≤ s.reorder.nextSeq := by
    refine positive.trans (explained.first_le ?_)
    rw [← explained.mode_eq, normal]
    decide
  cases event with
  | rsample seq fragchain full =>
      by_cases long : s.reorder.TooLong seq full
      · refine .inl ⟨?_, long⟩
        rw [ReorderRun.step, Reorder.rsample_of_tooLong explained.sound long]
        rfl
      · obtain ⟨o, ran, taken, -⟩ :=
          (Reorder.rsample_cases explained.sound seq fragchain full).resolve_right long
        refine .inr ⟨_, ?_, long, explained.rsample taken⟩
        rw [ReorderRun.step, ran]
        rfl
  | gap min maxp1 =>
      obtain ⟨o, new, ran, kind, advanced⟩ := Reorder.exists_gap explained.sound valid low
      refine .inr ⟨_, by rw [ReorderRun.step, ran]; rfl, id, explained.record advanced kind ?_
        fun n above below => .inr ⟨above, below⟩⟩
      rcases kind with rfl | rfl <;> simp
  | dropUpto maxp1 =>
      by_cases fails : s.reorder.NotDropped maxp1
      · refine .inl ⟨?_, fails⟩
        rw [ReorderRun.step, Reorder.dropUpto_of_notDropped explained.sound fails]
        rfl
      · obtain ⟨chain, reorder, ran, dropped⟩ :=
          Reorder.exists_dropUpto explained.sound low fails
        refine .inr ⟨_, ?_, fails, explained.dropUpto dropped⟩
        rw [ReorderRun.step, ran]
        rfl

theorem Explained.step (explained : s.Explained mode maxSamples first events)
    (positive : 1 ≤ first) (valid : event.Valid) (stepped : s.step event = some after) :
    after.Explained mode maxSamples first (events ++ [event]) := by
  rcases explained.step_cases positive valid with ⟨stuck, -⟩ | ⟨next, reached, -, kept⟩
  · rw [stuck] at stepped
    contradiction
  · obtain rfl := Option.some.inj (reached.symm.trans stepped)
    exact kept

/-- Every state that a run reaches is explained. -/
theorem explained_of_run (positive : 1 ≤ first) (valid : ∀ event ∈ events, event.Valid)
    (ran : run (init mode maxSamples lateAckMode first) events = some after) :
    after.Explained mode maxSamples first events := by
  refine @EventRun.invariant_traced _ _ ReorderRun.step
    (fun events s => (∀ event ∈ events, event.Valid) → s.Explained mode maxSamples first events)
    _ (fun _ => explained_init) ?_ events after ran valid
  intro events before event next _ explained stepped valid
  exact (explained fun other member => valid other (List.mem_append_left _ member)).step positive
    (valid event (List.mem_append_right _ List.mem_cons_self)) stepped

end Invariant

/-- Four samples and a gap for an admin that stores two elements: the sample 8 is dropped. -/
def crowdedEvents : List (ReorderEvent Unit) :=
  [.rsample 3 () false, .gap 4 6, .rsample 8 () false, .rsample 2 () false, .rsample 1 () false,
    .rsample 7 () true, .rsample 7 () false]

/-- The state that `crowdedEvents` lead to. -/
def crowded : ReorderRun Unit where
  reorder :=
    { sampleivtree := [.new 7 ()]
      maxSampleiv := some 7
      nextSeq := 6
      mode := .normal
      maxSamples := 2
      nSamples := 1
      lateAckMode := false }
  accepted := [.sample 3 (), .sample 8 (), .sample 2 (), .sample 1 (), .sample 7 ()]
  delivered := [.sample 1 (), .sample 2 (), .sample 3 ()]
  released := [.sample 8 ()]

theorem run_crowdedEvents : run (init .normal 2 false 1) crowdedEvents = some crowded := rfl

/-- The sample 8 is dropped for the sample 2, and a heartbeat announces that 1 is missing. -/
def recoveredEvents : List (ReorderEvent Unit) :=
  [.rsample 3 () false, .rsample 8 () false, .rsample 2 () false, .gap 1 2]

/-- The state that `recoveredEvents` lead to. -/
def recovered : ReorderRun Unit where
  reorder :=
    { nextSeq := 4
      mode := .normal
      maxSamples := 2
      lateAckMode := false }
  accepted := [.sample 3 (), .sample 8 (), .sample 2 ()]
  delivered := [.sample 2 (), .sample 3 ()]
  released := [.sample 8 ()]

theorem run_recoveredEvents : run (init .normal 2 false 1) recoveredEvents = some recovered := rfl

/-! ## Assertions -/

section Results

variable {mode : ReorderMode} {maxSamples first : ℕ} {lateAckMode : Bool}
  {events : List (ReorderEvent α)} {after : ReorderRun α}

/-- The assertions of the reorder admin hold in every run, unless a sample and the interval that
would be delivered with it have more than `INT32_MAX` numbers, or `nn_reorder_drop_upto` is called
with something stored beyond its bound or, in a mode without gaps, ahead of the next number. -/
theorem run_fails_iff (positive : 1 ≤ first) (valid : ∀ event ∈ events, event.Valid) :
    run (init mode maxSamples lateAckMode first) events = none ↔
      ∃ earlier event later before, events = earlier ++ event :: later ∧
        run (init mode maxSamples lateAckMode first) earlier = some before ∧
        Fails before.reorder event := by
  rw [EventRun.run_eq_none_iff]
  refine exists_congr fun earlier => exists_congr fun event => exists_congr fun later =>
    exists_congr fun before => and_congr_right fun append => and_congr_right fun ran => ?_
  subst append
  have explained := explained_of_run positive
    (fun other member => valid other (List.mem_append_left _ member)) ran
  rcases explained.step_cases positive (valid event (by simp)) with
    ⟨stuck, fails⟩ | ⟨next, reached, holds, -⟩
  · simp [stuck, fails]
  · simp [reached, holds]

/-- A gap of `2 ^ 31` numbers and the sample before it. -/
theorem run_fails_iff_long_gap :
    run (init .normal 2 false 1 : ReorderRun Unit)
      [.gap 2 (2 ^ 31 + 2), .rsample 1 () false] = none :=
  (run_fails_iff le_rfl (by decide)).mpr
    ⟨[.gap 2 (2 ^ 31 + 2)], .rsample 1 () false, [], _, rfl, rfl, rfl, rfl, _, rfl, rfl,
      by decide⟩

/-! ## What is stored -/

/-- After every run the intervals lie beyond the next sequence number and apart from each other,
each with samples of its own numbers; `n_samples` counts their elements and is at most
`max_samples`; and a sample is wanted unless the admin has passed it or has it in an interval. -/
theorem stored_limited (positive : 1 ≤ first) (valid : ∀ event ∈ events, event.Valid)
    (ran : run (init mode maxSamples lateAckMode first) events = some after) :
    (after.reorder.sampleivtree.Pairwise fun a b => a.maxp1 < b.min) ∧
      (∀ iv ∈ after.reorder.sampleivtree, after.reorder.nextSeq < iv.min ∧
        (∀ n ∈ seqs iv.sc, iv.min ≤ n ∧ n < iv.maxp1) ∧ iv.sc.length = iv.nSamples) ∧
      after.reorder.nSamples = (stored after.reorder.sampleivtree).length ∧
      after.reorder.nSamples ≤ maxSamples ∧
      ∀ n, after.reorder.wantsample n = true ↔
        after.reorder.nextSeq ≤ n ∧ ¬Covered after.reorder.sampleivtree n := by
  have explained := explained_of_run positive valid ran
  have sound := explained.sound
  have separated := sound.separated
  refine ⟨separated.pairwise, fun iv member => ?_, ?_, ?_, fun n => ?_⟩
  · obtain ⟨behind, own, -⟩ := separated.bounds member
    exact ⟨behind, fun n inside => own.fits.mem_bounds inside, own.counted.symm⟩
  · rw [sound.counted, separated.counted_eq]
  · rw [← explained.maxSamples_eq]
    exact sound.limited
  · rw [← Bool.not_eq_false, Reorder.wantsample_eq_false_iff separated, Reorder.Known, not_or,
      not_lt]

theorem stored_limited_crowded :
    crowded.reorder.nSamples ≤ 2 ∧
      ∀ n, crowded.reorder.wantsample n = true ↔
        6 ≤ n ∧ ¬Covered crowded.reorder.sampleivtree n :=
  (stored_limited le_rfl (by decide) run_crowdedEvents).2.2.2

/-! ## What is delivered -/

theorem Explained.mem_accepted {s : ReorderRun α}
    (explained : s.Explained mode maxSamples first events) {e : ChainElem α} :
    e ∈ s.accepted ↔
      e ∈ s.delivered ∨ e ∈ stored s.reorder.sampleivtree ∨ e ∈ s.released := by
  rw [explained.references.mem_iff, List.mem_append, List.mem_append, or_assoc]

/-- Unless every sample is delivered at once, the delivered samples ascend, so that none is
delivered twice, and each is one that has arrived. -/
theorem delivered_in_order (positive : 1 ≤ first) (valid : ∀ event ∈ events, event.Valid)
    (ordered : mode ≠ .alwaysDeliver)
    (ran : run (init mode maxSamples lateAckMode first) events = some after) :
    (seqs after.delivered).Pairwise (· < ·) ∧
      ∀ n fragchain, ChainElem.sample n fragchain ∈ after.delivered →
        first ≤ n ∧ n < after.reorder.nextSeq ∧ ∃ full, .rsample n fragchain full ∈ events := by
  have explained := explained_of_run positive valid ran
  have fits := explained.fits ordered
  refine ⟨fits.pairwise, fun n fragchain member => ?_⟩
  obtain ⟨low, high⟩ := fits.mem_bounds (mem_seqs.mpr ⟨fragchain, member⟩)
  exact ⟨low, high, explained.offered n fragchain (explained.mem_accepted.mpr (.inl member))⟩

theorem delivered_in_order_crowded : (seqs crowded.delivered).Pairwise (· < ·) :=
  (delivered_in_order le_rfl (by decide) (by decide) run_crowdedEvents).1

/-- Every reference that the admin has taken is delivered, held or released, exactly once. -/
theorem references_conserved (positive : 1 ≤ first) (valid : ∀ event ∈ events, event.Valid)
    (ran : run (init mode maxSamples lateAckMode first) events = some after) :
    after.accepted.Perm
      (after.delivered ++ stored after.reorder.sampleivtree ++ after.released) :=
  (explained_of_run positive valid ran).references

theorem references_conserved_crowded :
    crowded.accepted.Perm
      (crowded.delivered ++ stored crowded.reorder.sampleivtree ++ crowded.released) :=
  references_conserved le_rfl (by decide) run_crowdedEvents

/-- A sequence number that the admin has passed was delivered, announced as missing, or dropped when
the admin was full. -/
theorem passed_delivered_or_announced (positive : 1 ≤ first)
    (valid : ∀ event ∈ events, event.Valid)
    (ran : run (init .normal maxSamples lateAckMode first) events = some after) {n : ℕ}
    (low : first ≤ n) (passed : n < after.reorder.nextSeq) :
    n ∈ seqs after.delivered ∨ (∃ event ∈ events, event.Announces n) ∨
      n ∈ seqs after.released := by
  have explained := explained_of_run positive valid ran
  rcases explained.known rfl n low (.inl passed) with member | announced
  · obtain ⟨fragchain, accepted⟩ := mem_seqs.mp member
    rcases explained.mem_accepted.mp accepted with delivered | held | released
    · exact .inl (mem_seqs.mpr ⟨fragchain, delivered⟩)
    · have later := (explained.sound.separated.mem_stored (mem_seqs.mpr ⟨fragchain, held⟩)).2.1
      omega
    · exact .inr (.inr (mem_seqs.mpr ⟨fragchain, released⟩))
  · exact .inr (.inl announced)

theorem passed_delivered_or_announced_crowded :
    5 ∈ seqs crowded.delivered ∨ (∃ event ∈ crowdedEvents, event.Announces 5) ∨
      5 ∈ seqs crowded.released :=
  passed_delivered_or_announced le_rfl (by decide) run_crowdedEvents (by decide) (by decide)

/-- A sample that is dropped from an interval that ends with a gap is passed, and so never wanted
again: the interval loses the last number of the gap instead of that of the sample. -/
example : EventRun.Reaches step (init .normal 2 false 1 : ReorderRun Unit)
    [.rsample 5 () false, .rsample 6 () false, .gap 7 10, .rsample 3 () false, .rsample 1 () false,
      .rsample 2 () false, .rsample 4 () false]
    fun s => seqs s.delivered = [1, 2, 3, 4, 5] ∧ s.reorder.nextSeq = 9 := by
  decide

/-! ## Only heartbeats -/

/-- The intervals store all their numbers, and nothing that was not announced has been skipped. -/
structure Contiguous (first : ℕ) (events : List (ReorderEvent α)) (s : ReorderRun α) : Prop where
  filled : Filled s.reorder.sampleivtree
  complete : ∀ n, first ≤ n → n < s.reorder.nextSeq →
    n ∈ seqs s.delivered ∨ ∃ event ∈ events, event.Announces n

section Heartbeats

variable {s : ReorderRun α} {event : ReorderEvent α}

theorem contiguous_init :
    (init mode maxSamples lateAckMode first : ReorderRun α).Contiguous first [] where
  filled _ covered := absurd covered covered_nil
  complete _ low high := absurd high (not_lt.mpr low)

/-- A number that an operation passes was stored, is new, or was announced. -/
theorem Contiguous.record (contiguous : s.Contiguous first events)
    (explained : s.Explained .normal maxSamples first events) {e : ChainElem α}
    {o : ReorderOutcome α} {new : List (ChainElem α)} {lo hi : ℕ}
    (advanced : s.reorder.Advanced o new lo hi) (filled : Filled o.reorder.sampleivtree)
    (covers : ∀ n, lo ≤ n → n < hi → n ∈ seqs new ∨ event.Announces n) :
    (s.record e o).Contiguous first (events ++ [event]) := by
  refine ⟨filled, fun n low passed => ?_⟩
  change n < o.reorder.nextSeq at passed
  change n ∈ seqs (s.delivered ++ o.sc) ∨ _
  rw [seqs_append, List.mem_append]
  rcases Nat.lt_or_ge n s.reorder.nextSeq with old | young
  · rcases contiguous.complete n low old with member | ⟨other, earlier, announces⟩
    · exact .inl (.inl member)
    · exact .inr ⟨other, List.mem_append_left _ earlier, announces⟩
  -- What was stored or is new is delivered, since it is passed and nothing has been dropped.
  obtain ⟨left, right, before, chain⟩ := advanced.chain
  have delivers (member : n ∈ seqs (left ++ new ++ right)) : n ∈ seqs o.sc := by
    rw [chain] at member
    simp only [seqs_append, List.mem_append] at member
    rcases member with (delivered | held) | dropped
    · exact delivered
    · have := (advanced.sound.separated.mem_stored held).2.1
      omega
    · rcases advanced.waits with none | waits
      · rw [none] at dropped
        contradiction
      · omega
  simp only [seqs_append, List.mem_append] at delivers
  rcases advanced.known explained.mode_eq n (.inl passed) with (behind | covered) | ⟨above, below⟩
  · omega
  · have member := contiguous.filled n covered
    rw [before, seqs_append, List.mem_append] at member
    exact .inl (.inr (delivers (by tauto)))
  · rcases covers n above below with member | announces
    · exact .inl (.inr (delivers (.inl (.inr member))))
    · exact .inr ⟨event, List.mem_append_right _ List.mem_cons_self, announces⟩

theorem Contiguous.step (contiguous : s.Contiguous first events)
    (explained : s.Explained .normal maxSamples first events) (positive : 1 ≤ first)
    (valid : event.Valid) (heartbeat : event.Heartbeat) {next : ReorderRun α}
    (stepped : s.step event = some next) : next.Contiguous first (events ++ [event]) := by
  have sound := explained.sound
  have low := explained.first_le (by decide)
  cases event with
  | rsample seq fragchain full =>
      obtain ⟨o, ran, rfl⟩ := Option.map_eq_some_iff.mp stepped
      rcases Reorder.rsample_cases sound seq fragchain full with ⟨other, same, taken, -⟩ | long
      · obtain rfl := Option.some.inj (same.symm.trans ran)
        rcases taken with ⟨refused, unchanged⟩ | advanced
        · have nothing := Reorder.advanced_unchanged sound refused 0 0
          rw [← unchanged] at nothing
          exact contiguous.record explained nothing
            (nothing.filled (by simp) contiguous.filled) (by simp)
        · have own (n : ℕ) (above : seq ≤ n) (below : n < seq + 1) :
              n ∈ seqs [ChainElem.sample seq fragchain] :=
            List.mem_singleton.mpr (by omega)
          exact contiguous.record explained advanced (advanced.filled own contiguous.filled)
            fun n above below => .inl (own n above below)
      · rw [Reorder.rsample_of_tooLong sound long] at ran
        contradiction
  | gap min maxp1 =>
      obtain ⟨o, ran, rfl⟩ := Option.map_eq_some_iff.mp stepped
      change min ≤ 1 at heartbeat
      by_cases old : maxp1 ≤ s.reorder.nextSeq
      · rw [Reorder.gap, if_pos old] at ran
        obtain rfl := Option.some.inj ran
        exact contiguous.record explained (Reorder.advanced_unchanged sound (by decide) 0 0)
          contiguous.filled (by simp)
      · obtain ⟨other, same, passed⟩ := Reorder.exists_gap_due sound explained.mode_eq
          (by omega : min ≤ s.reorder.nextSeq) (by omega : s.reorder.nextSeq < maxp1)
        obtain rfl := Option.some.inj (same.symm.trans ran)
        obtain ⟨taken, tree, -⟩ := passed.taken
        have separated := sound.separated
        have filled := contiguous.filled
        rw [tree] at separated filled
        exact contiguous.record explained passed.advanced (separated.filled_right filled)
          fun n above below => .inr ⟨above, below⟩
  | dropUpto maxp1 =>
      obtain ⟨⟨chain, reorder⟩, ran, rfl⟩ := Option.map_eq_some_iff.mp stepped
      have holds : ¬s.reorder.NotDropped maxp1 := by
        intro fails
        rw [Reorder.dropUpto_of_notDropped sound fails] at ran
        contradiction
      obtain ⟨chain', reorder', same, dropped⟩ :=
        Reorder.exists_dropUpto sound (fun _ => positive.trans low) holds
      obtain ⟨rfl, rfl⟩ := Prod.mk.inj (Option.some.inj (same.symm.trans ran))
      refine ⟨?_, fun n above passed => ?_⟩
      · change Filled reorder'.sampleivtree
        rw [dropped.empty]
        exact fun _ covered => absurd covered covered_nil
      · change n < reorder'.nextSeq at passed
        rw [dropped.nextSeq, lt_max_iff] at passed
        rcases passed with old | young
        · rcases contiguous.complete n above old with member | ⟨other, earlier, announces⟩
          · exact .inl member
          · exact .inr ⟨other, List.mem_append_left _ earlier, announces⟩
        · exact .inr ⟨_, List.mem_append_right _ List.mem_cons_self, young⟩

end Heartbeats

/-- When every gap starts with the first sequence number, as that of a heartbeat does, whatever the
admin has passed was delivered or announced as missing: what it drops is wanted again. -/
theorem heartbeats_skip_nothing (positive : 1 ≤ first) (valid : ∀ event ∈ events, event.Valid)
    (heartbeats : ∀ event ∈ events, event.Heartbeat)
    (ran : run (init .normal maxSamples lateAckMode first) events = some after) {n : ℕ}
    (low : first ≤ n) (passed : n < after.reorder.nextSeq) :
    n ∈ seqs after.delivered ∨ ∃ event ∈ events, event.Announces n := by
  suffices contiguous : after.Contiguous first events from contiguous.complete n low passed
  refine @EventRun.invariant_traced _ _ ReorderRun.step
    (fun events s => (∀ event ∈ events, event.Valid ∧ event.Heartbeat) →
      s.Contiguous first events)
    _ (fun _ => contiguous_init) ?_ events after ran fun event member =>
      ⟨valid event member, heartbeats event member⟩
  intro events before event next ran contiguous stepped both
  have earlier (other : ReorderEvent α) (member : other ∈ events) :=
    both other (List.mem_append_left _ member)
  have own := both event (List.mem_append_right _ List.mem_cons_self)
  have explained := explained_of_run positive (fun other member => (earlier other member).1) ran
  exact (contiguous earlier).step explained positive own.1 own.2 stepped

theorem heartbeats_skip_nothing_recovered : 1 ∈ seqs recovered.delivered ∨
    ∃ event ∈ recoveredEvents, event.Announces 1 :=
  heartbeats_skip_nothing le_rfl (by decide) (by decide) run_recoveredEvents le_rfl (by decide)

end Results

end ReorderRun

end G1Jepa.Ddsi
