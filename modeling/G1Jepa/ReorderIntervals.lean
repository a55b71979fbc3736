import G1Jepa.ReorderAdmin

/-!
# What the reorder admin stores

A chain fits into its interval, the intervals of a tree are separated from each other, and the admin
counts the elements of its chains. Every operation keeps this; what it does to the stored elements
is stated once for all of them as `Advanced`.
-/

namespace G1Jepa.Ddsi

open SearchTree

variable {α : Type}

/-! ## Chains -/

/-- A chain whose samples ascend at their own numbers from `lo` up to `hi`, with at least one number
left for each gap. -/
def Fits : ℕ → ℕ → List (ChainElem α) → Prop
  | lo, hi, [] => lo ≤ hi
  | lo, hi, .sample seq _ :: rest => lo ≤ seq ∧ Fits (seq + 1) hi rest
  | lo, hi, .gap :: rest => Fits (lo + 1) hi rest

/-- The sequence numbers of the samples of a chain. -/
def seqs (sc : List (ChainElem α)) : List ℕ :=
  sc.filterMap fun
    | .sample seq _ => some seq
    | .gap => none

@[simp] theorem seqs_append (left right : List (ChainElem α)) :
    seqs (left ++ right) = seqs left ++ seqs right :=
  List.filterMap_append ..

@[simp] theorem seqs_sample (seq : ℕ) (fragchain : α) (rest : List (ChainElem α)) :
    seqs (.sample seq fragchain :: rest) = seq :: seqs rest := rfl

@[simp] theorem seqs_gap (rest : List (ChainElem α)) : seqs (.gap :: rest) = seqs rest := rfl

@[simp] theorem seqs_nil : seqs ([] : List (ChainElem α)) = [] := rfl

theorem mem_seqs {sc : List (ChainElem α)} {n : ℕ} :
    n ∈ seqs sc ↔ ∃ fragchain, ChainElem.sample n fragchain ∈ sc := by
  induction sc with
  | nil => simp
  | cons e rest induction =>
      cases e with
      | sample seq fragchain =>
          rw [seqs_sample, List.mem_cons, induction]
          constructor
          · rintro (rfl | ⟨other, member⟩)
            · exact ⟨fragchain, List.mem_cons_self⟩
            · exact ⟨other, List.mem_cons_of_mem _ member⟩
          · rintro ⟨other, member⟩
            rcases List.mem_cons.mp member with same | inside
            · exact .inl (ChainElem.sample.inj same).1
            · exact .inr ⟨other, inside⟩
      | gap => simp [induction]

namespace Fits

variable {lo hi : ℕ} {sc : List (ChainElem α)}

theorem length_le (fits : Fits lo hi sc) : lo + sc.length ≤ hi := by
  induction sc generalizing lo with
  | nil => exact fits
  | cons e rest induction =>
      cases e with
      | sample seq fragchain =>
          obtain ⟨low, rest⟩ := fits
          have := induction rest
          rw [List.length_cons]
          omega
      | gap =>
          have := induction fits
          rw [List.length_cons]
          omega

theorem mono {lo' hi' : ℕ} (fits : Fits lo hi sc) (lower : lo' ≤ lo) (upper : hi ≤ hi') :
    Fits lo' hi' sc := by
  induction sc generalizing lo lo' with
  | nil =>
      have fits : lo ≤ hi := fits
      exact lower.trans (fits.trans upper)
  | cons e rest induction =>
      cases e with
      | sample seq fragchain => exact ⟨lower.trans fits.1, induction fits.2 le_rfl⟩
      | gap => exact induction (show Fits (lo + 1) hi rest from fits) (by omega)

theorem append {mid : ℕ} {left right : List (ChainElem α)} (first : Fits lo mid left)
    (second : Fits mid hi right) : Fits lo hi (left ++ right) := by
  induction left generalizing lo with
  | nil => exact second.mono first le_rfl
  | cons e rest induction =>
      cases e with
      | sample seq fragchain => exact ⟨first.1, induction first.2⟩
      | gap => exact induction (show Fits (lo + 1) mid rest from first)

/-- Without its last element a chain leaves the last number free. -/
theorem of_append_singleton {e : ChainElem α} (fits : Fits lo hi (sc ++ [e])) :
    Fits lo (hi - 1) sc := by
  induction sc generalizing lo with
  | nil =>
      have := fits.length_le
      rw [List.nil_append, List.length_singleton] at this
      change lo ≤ hi - 1
      omega
  | cons first rest induction =>
      cases first with
      | sample seq fragchain => exact ⟨fits.1, induction fits.2⟩
      | gap => exact induction (show Fits (lo + 1) hi _ from fits)

theorem mem_bounds (fits : Fits lo hi sc) {n : ℕ} (member : n ∈ seqs sc) : lo ≤ n ∧ n < hi := by
  induction sc generalizing lo with
  | nil => contradiction
  | cons e rest induction =>
      cases e with
      | sample seq fragchain =>
          obtain ⟨low, rest⟩ := fits
          rcases List.mem_cons.mp member with rfl | inside
          · have := rest.length_le
            exact ⟨low, by omega⟩
          · have := induction rest inside
            exact ⟨by omega, this.2⟩
      | gap =>
          have := induction (show Fits (lo + 1) hi rest from fits) member
          exact ⟨by omega, this.2⟩

/-- The samples of a chain ascend. -/
theorem pairwise (fits : Fits lo hi sc) : (seqs sc).Pairwise (· < ·) := by
  induction sc generalizing lo with
  | nil => exact .nil
  | cons e rest induction =>
      cases e with
      | sample seq fragchain =>
          refine List.pairwise_cons.mpr ⟨fun n member => ?_, induction fits.2⟩
          have := (fits.2.mem_bounds member).1
          omega
      | gap => exact induction (show Fits (lo + 1) hi _ from fits)

/-- The assertion of `delete_last_sample` about the element before the last one. -/
theorem endsBelow (fits : Fits lo hi sc) (sparse : hi < bound) :
    Reorder.EndsBelow bound sc.getLast? := by
  cases last : sc.getLast? with
  | none => trivial
  | some e =>
      cases e with
      | gap => trivial
      | sample seq fragchain =>
          have member := mem_seqs.mpr ⟨fragchain, List.mem_of_getLast? last⟩
          have := (fits.mem_bounds member).2
          change seq + 1 < bound
          omega

end Fits

/-! ## Intervals -/

/-- An interval with a chain that fits into it and is counted. -/
structure RsampleReorder.Sound (iv : RsampleReorder α) : Prop where
  fits : Fits iv.min iv.maxp1 iv.sc
  stores : iv.sc ≠ []
  counted : iv.nSamples = iv.sc.length

namespace RsampleReorder

theorem Sound.lt {iv : RsampleReorder α} (sound : iv.Sound) : iv.min < iv.maxp1 := by
  have length := sound.fits.length_le
  have positive := List.length_pos_iff.mpr sound.stores
  omega

theorem sound_new (seq : ℕ) (fragchain : α) : (new seq fragchain).Sound where
  fits := ⟨le_rfl, le_rfl⟩
  stores := List.cons_ne_nil _ _
  counted := rfl

theorem Sound.appendInterval {a b : RsampleReorder α} (left : a.Sound) (right : b.Sound)
    (behind : a.maxp1 ≤ b.min) : (a.appendInterval b).Sound where
  fits := left.fits.append (right.fits.mono behind le_rfl)
  stores := List.append_ne_nil_of_left_ne_nil left.stores _
  counted := by
    rw [RsampleReorder.appendInterval, List.length_append, left.counted, right.counted]

end RsampleReorder

/-- The intervals lie behind `lo`, neither overlap nor touch, and are sound. -/
def Separated : ℕ → List (RsampleReorder α) → Prop
  | _, [] => True
  | lo, iv :: rest => lo < iv.min ∧ iv.Sound ∧ Separated iv.maxp1 rest

/-- The end of the last interval. -/
def top : ℕ → List (RsampleReorder α) → ℕ
  | lo, [] => lo
  | _, iv :: rest => top iv.maxp1 rest

/-- The elements of the chains of a tree. -/
def stored (tree : List (RsampleReorder α)) : List (ChainElem α) :=
  tree.flatMap RsampleReorder.sc

/-- The number of elements that the intervals of a tree count. -/
def counted (tree : List (RsampleReorder α)) : ℕ :=
  (tree.map RsampleReorder.nSamples).sum

/-- An interval of the tree has the number. -/
def Covered (tree : List (RsampleReorder α)) (n : ℕ) : Prop :=
  ∃ iv ∈ tree, iv.min ≤ n ∧ n < iv.maxp1

/-- Every number of an interval is that of a stored sample. -/
def Filled (tree : List (RsampleReorder α)) : Prop :=
  ∀ n, Covered tree n → n ∈ seqs (stored tree)

section Lists

variable {lo : ℕ} {left right tree : List (RsampleReorder α)} {iv : RsampleReorder α}

@[simp] theorem stored_append : stored (left ++ right) = stored left ++ stored right :=
  List.flatMap_append

@[simp] theorem stored_cons : stored (iv :: tree) = iv.sc ++ stored tree := rfl

@[simp] theorem stored_nil : stored ([] : List (RsampleReorder α)) = [] := rfl

@[simp] theorem counted_append : counted (left ++ right) = counted left + counted right := by
  simp [counted]

@[simp] theorem counted_cons : counted (iv :: tree) = iv.nSamples + counted tree := by
  simp [counted]

@[simp] theorem counted_nil : counted ([] : List (RsampleReorder α)) = 0 := rfl

@[simp] theorem covered_append {n : ℕ} :
    Covered (left ++ right) n ↔ Covered left n ∨ Covered right n := by
  simp [Covered, or_and_right, exists_or]

@[simp] theorem covered_cons {n : ℕ} :
    Covered (iv :: tree) n ↔ (iv.min ≤ n ∧ n < iv.maxp1) ∨ Covered tree n := by
  simp [Covered]

@[simp] theorem covered_nil {n : ℕ} : ¬Covered ([] : List (RsampleReorder α)) n := by
  simp [Covered]

@[simp] theorem top_append : top lo (left ++ right) = top (top lo left) right := by
  induction left generalizing lo with
  | nil => rfl
  | cons iv rest induction => exact induction

theorem top_lt {n : ℕ} (ends : ∀ iv ∈ tree, iv.maxp1 < n) (low : lo < n) : top lo tree < n := by
  induction tree generalizing lo with
  | nil => exact low
  | cons iv rest induction =>
      exact induction (fun other member => ends other (List.mem_cons_of_mem _ member))
        (ends iv List.mem_cons_self)

theorem separated_append :
    Separated lo (left ++ right) ↔ Separated lo left ∧ Separated (top lo left) right := by
  induction left generalizing lo with
  | nil => simp [Separated, top]
  | cons iv rest induction =>
      rw [List.cons_append, Separated, Separated, top, induction]
      tauto

theorem filled_append (first : Filled left) (second : Filled right) : Filled (left ++ right) := by
  intro n covered
  rw [stored_append, seqs_append, List.mem_append]
  exact (covered_append.mp covered).imp (first n) (second n)

namespace Separated

theorem mono {lo' : ℕ} (separated : Separated lo tree) (lower : lo' ≤ lo) :
    Separated lo' tree := by
  cases tree with
  | nil => trivial
  | cons iv rest => exact ⟨lower.trans_lt separated.1, separated.2⟩

/-- Only the first interval has to lie behind the bound. -/
theorem raise {lo' : ℕ} (separated : Separated lo tree)
    (first : ∀ iv ∈ tree.head?, lo' < iv.min) : Separated lo' tree := by
  cases tree with
  | nil => trivial
  | cons iv rest => exact ⟨first iv rfl, separated.2⟩

theorem le_top (separated : Separated lo tree) : lo ≤ top lo tree := by
  induction tree generalizing lo with
  | nil => exact le_rfl
  | cons iv rest induction =>
      obtain ⟨low, sound, rest⟩ := separated
      have := sound.lt
      have := induction rest
      rw [top]
      omega

theorem bounds (separated : Separated lo tree) {iv : RsampleReorder α} (member : iv ∈ tree) :
    lo < iv.min ∧ iv.Sound ∧ iv.maxp1 ≤ top lo tree := by
  induction tree generalizing lo with
  | nil => contradiction
  | cons first rest induction =>
      obtain ⟨low, sound, later⟩ := separated
      rcases List.mem_cons.mp member with rfl | inside
      · exact ⟨low, sound, later.le_top⟩
      · obtain ⟨behind, own, below⟩ := induction later inside
        have := sound.lt
        exact ⟨by omega, own, below⟩

theorem ascending (separated : Separated lo tree) : Ascending RsampleReorder.min tree := by
  induction tree generalizing lo with
  | nil => exact .nil
  | cons iv rest induction =>
      obtain ⟨-, sound, later⟩ := separated
      refine List.pairwise_cons.mpr ⟨fun other member => ?_, induction later⟩
      exact sound.lt.trans (later.bounds member).1

theorem pairwise (separated : Separated lo tree) : tree.Pairwise fun a b => a.maxp1 < b.min := by
  induction tree generalizing lo with
  | nil => exact .nil
  | cons iv rest induction =>
      obtain ⟨-, -, later⟩ := separated
      exact List.pairwise_cons.mpr
        ⟨fun other member => (later.bounds member).1, induction later⟩

theorem counted_eq (separated : Separated lo tree) : counted tree = (stored tree).length := by
  induction tree generalizing lo with
  | nil => rfl
  | cons iv rest induction =>
      obtain ⟨-, sound, later⟩ := separated
      rw [counted_cons, stored_cons, List.length_append, sound.counted, induction later]

/-- A tree with an interval stores something. -/
theorem counted_pos (separated : Separated lo tree) (member : iv ∈ tree) : 0 < counted tree := by
  obtain ⟨front, back, rfl⟩ := List.append_of_mem member
  obtain ⟨-, -, sound, -⟩ := separated_append.mp separated
  have := List.length_pos_iff.mpr sound.stores
  rw [counted_append, counted_cons, sound.counted]
  omega

theorem mem_stored (separated : Separated lo tree) {n : ℕ} (member : n ∈ seqs (stored tree)) :
    Covered tree n ∧ lo < n ∧ n < top lo tree := by
  induction tree generalizing lo with
  | nil => contradiction
  | cons iv rest induction =>
      obtain ⟨low, sound, later⟩ := separated
      rw [stored_cons, seqs_append, List.mem_append] at member
      rw [covered_cons, top]
      have := later.le_top
      rcases member with own | other
      · have := sound.fits.mem_bounds own
        exact ⟨.inl this, by omega, by omega⟩
      · have := sound.lt
        obtain ⟨covered, above, below⟩ := induction later other
        exact ⟨.inr covered, by omega, below⟩

theorem not_covered_right (separated : Separated lo (left ++ right)) {n : ℕ}
    (member : n ∈ seqs (stored left)) : ¬Covered right n := by
  obtain ⟨earlier, later⟩ := separated_append.mp separated
  rintro ⟨iv, inside, low, -⟩
  have := (earlier.mem_stored member).2.2
  have := (later.bounds inside).1
  omega

theorem not_covered_left (separated : Separated lo (left ++ right)) {n : ℕ}
    (member : n ∈ seqs (stored right)) : ¬Covered left n := by
  obtain ⟨earlier, later⟩ := separated_append.mp separated
  rintro ⟨iv, inside, -, high⟩
  have := (earlier.bounds inside).2.2
  have := (later.mem_stored member).2.1
  omega

/-- The intervals of a part of a tree are filled by their own chains. -/
theorem filled_right (separated : Separated lo (left ++ right)) (filled : Filled (left ++ right)) :
    Filled right := by
  intro n covered
  have member := filled n (covered_append.mpr (.inr covered))
  rw [stored_append, seqs_append, List.mem_append] at member
  exact member.resolve_left fun other => separated.not_covered_right other covered

theorem filled_left (separated : Separated lo (left ++ right)) (filled : Filled (left ++ right)) :
    Filled left := by
  intro n covered
  have member := filled n (covered_append.mpr (.inl covered))
  rw [stored_append, seqs_append, List.mem_append] at member
  exact member.resolve_right fun other => separated.not_covered_left other covered

theorem top_eq_of_getLast? (last : tree.getLast? = some iv) : top lo tree = iv.maxp1 := by
  obtain ⟨front, rfl⟩ := List.getLast?_eq_some_iff.mp last
  rw [top_append]
  rfl

end Separated

end Lists

/-! ## The invariant -/

namespace Reorder

variable {r : Reorder α}

/-- What holds of a reorder admin between two operations. -/
structure Sound (r : Reorder α) : Prop where
  separated : Separated r.nextSeq r.sampleivtree
  pointed : r.maxSampleiv = findMax r.sampleivtree
  counted : r.nSamples = Ddsi.counted r.sampleivtree
  limited : r.nSamples ≤ r.maxSamples
  stores : r.mode ≠ .normal → r.sampleivtree = []

/-- The number is behind the admin or in its tree. -/
def Known (r : Reorder α) (n : ℕ) : Prop :=
  n < r.nextSeq ∨ Covered r.sampleivtree n

theorem maxIv_eq (ascending : Ascending RsampleReorder.min r.sampleivtree)
    (pointed : r.maxSampleiv = findMax r.sampleivtree) :
    r.maxIv = r.sampleivtree.getLast? := by
  rw [maxIv, pointed, findMax]
  cases last : r.sampleivtree.getLast? with
  | none => rfl
  | some iv =>
      obtain ⟨front, tree⟩ := List.getLast?_eq_some_iff.mp last
      rw [tree] at ascending ⊢
      exact lookup_key ascending

theorem wantsample_eq_false_iff (separated : Separated r.nextSeq r.sampleivtree) (n : ℕ) :
    r.wantsample n = false ↔ r.Known n := by
  obtain ⟨before, after, split⟩ := exists_splitAt separated.ascending n
  rw [wantsample, Known]
  split
  case isTrue behind => simp [behind]
  case isFalse ahead =>
    rw [or_iff_right ahead, split.lookupPredEq_eq]
    have append := split.append
    rw [append, separated_append] at separated
    have later : ¬Covered after n := by
      rintro ⟨iv, member, low, -⟩
      have := split.high iv member
      omega
    rw [append, covered_append, or_iff_left later]
    cases last : before.getLast? with
    | none =>
        rw [List.getLast?_eq_none_iff.mp last]
        simp
    | some p =>
        obtain ⟨front, rfl⟩ := List.getLast?_eq_some_iff.mp last
        have own := split.low p (by simp)
        obtain ⟨earlier, behind, sound, -⟩ := separated_append.mp separated.1
        have outside : ¬Covered front n := by
          rintro ⟨iv, member, -, below⟩
          have := (earlier.bounds member).2.2
          omega
        rw [covered_append, or_iff_right outside]
        simp [own]

/-! ## Taking in an interval -/

/-- The tree has taken in the interval of `s` with its chain. -/
structure Joined (r : Reorder α) (s : RsampleReorder α) (r' : Reorder α) : Prop where
  eq : ∃ tree pointer, r' = { r with sampleivtree := tree, maxSampleiv := pointer }
  separated : Separated r.nextSeq r'.sampleivtree
  covered : ∀ n, Covered r'.sampleivtree n ↔
    Covered r.sampleivtree n ∨ (s.min ≤ n ∧ n < s.maxp1)
  chain : ∃ left right, stored r.sampleivtree = left ++ right ∧
    stored r'.sampleivtree = left ++ s.sc ++ right
  counted : Ddsi.counted r'.sampleivtree = Ddsi.counted r.sampleivtree + s.nSamples

/-- An interval whose chain has all its numbers keeps the tree filled. -/
theorem Joined.filled {r' : Reorder α} {s : RsampleReorder α} (joined : Joined r s r')
    (full : ∀ n, s.min ≤ n → n < s.maxp1 → n ∈ seqs s.sc) (filled : Filled r.sampleivtree) :
    Filled r'.sampleivtree := by
  intro n covered
  obtain ⟨left, right, before, after⟩ := joined.chain
  rw [after]
  simp only [seqs_append, List.mem_append]
  rcases (joined.covered n).mp covered with known | ⟨low, high⟩
  · have member := filled n known
    rw [before, seqs_append, List.mem_append] at member
    exact member.imp_left .inl
  · exact .inl (.inr (full n low high))

/-- The intervals in the middle of a tree are replaced by one that has also the numbers and the
elements of `s`. -/
theorem joined_of_middle {r r' : Reorder α} {s : RsampleReorder α}
    (before middle after : List (RsampleReorder α)) (iv : RsampleReorder α)
    (eq : ∃ tree pointer, r' = { r with sampleivtree := tree, maxSampleiv := pointer })
    (tree : r.sampleivtree = before ++ middle ++ after)
    (tree' : r'.sampleivtree = before ++ iv :: after)
    (separated : Separated r.nextSeq r.sampleivtree) (low : top r.nextSeq before < iv.min)
    (sound : iv.Sound) (high : Separated iv.maxp1 after)
    (chain : ∃ left right, stored middle = left ++ right ∧ iv.sc = left ++ s.sc ++ right)
    (covers : ∀ n, (iv.min ≤ n ∧ n < iv.maxp1) ↔
      Covered middle n ∨ (s.min ≤ n ∧ n < s.maxp1))
    (counted : iv.nSamples = Ddsi.counted middle + s.nSamples) : Joined r s r' where
  eq := eq
  separated := by
    rw [tree, separated_append, separated_append] at separated
    rw [tree', separated_append]
    exact ⟨separated.1.1, low, sound, high⟩
  covered n := by
    rw [tree, tree', covered_append, covered_append, covered_append, covered_cons, covers n]
    tauto
  chain := by
    obtain ⟨left, right, middle, joined⟩ := chain
    refine ⟨stored before ++ left, right ++ stored after, ?_, ?_⟩
    · rw [tree, stored_append, stored_append, middle]
      simp only [List.append_assoc]
    · rw [tree', stored_append, stored_cons, joined]
      simp only [List.append_assoc]
  counted := by
    rw [tree, tree', counted_append, counted_append, counted_append, counted_cons, counted]
    omega

end Reorder

end G1Jepa.Ddsi
