import G1Jepa.ComputeLatents
import G1Jepa.Library.RowMajor
import Mathlib.Algebra.Order.Ring.Nat

/-!
# Pooling the tokens of a clip

`pool` of `compute_latents.py` reads the tokens of a clip as eight temporal slices of a square grid
and averages them over everything, over each slice, and over the sixteen square blocks of the last
slice. The blocks come out of two nested reshapes; the index arithmetic shows that they partition
the slice.
-/

namespace G1Jepa

open RowMajor

variable {K : Type} [Field K] {D : ℕ}

/-- `int(round(n ** 0.5))`: the natural number next to the root, which is never half-way. -/
def roundSqrt (n : ℕ) : ℕ :=
  if n ≤ n.sqrt * n.sqrt + n.sqrt then n.sqrt else n.sqrt + 1

def reshape (a : NdArray K) (shape : List ℕ) : Except PyError (NdArray K) :=
  Fallible.orRaise (.valueError "cannot reshape array") (a.reshape? shape)

/-- The default of the argument `n_temporal`. -/
def nTemporal : ℕ := 8

/-- The mean, the temporal and the grid pooling of an array of tokens. -/
def pool (z : NdArray K) : Except PyError (NdArray K × NdArray K × NdArray K) := do
  let D ← Fallible.orRaise .indexError z.shape.getLast?
  let tokens ← Fallible.orRaise .indexError z.shape.head?
  let S := tokens / nTemporal
  let g := roundSqrt S
  let zz ← reshape z [nTemporal, g, g, D]
  let mean := z.mean [0]
  let temporal := zz.mean [1, 2]
  let last ← Fallible.orRaise .indexError (zz.sub (nTemporal - 1))
  let b := g / 4
  let blocks ← reshape last [4, b, 4, b, D]
  let coarse := blocks.mean [1, 3]
  let grid ← reshape coarse [16, D]
  .ok (mean, temporal, grid)

theorem roundSqrt_mul_self (n : ℕ) : roundSqrt (n * n) = n := by
  rw [roundSqrt, Nat.sqrt_eq, if_pos (Nat.le_add_right _ _)]

/-- No natural number is nearer to the root: `n` lies between the squares of
`roundSqrt n ± 1 / 2`. -/
theorem roundSqrt_near (n : ℕ) : roundSqrt n * roundSqrt n ≤ n + roundSqrt n ∧
    n ≤ roundSqrt n * roundSqrt n + roundSqrt n := by
  have lower : n.sqrt * n.sqrt ≤ n := Nat.sqrt_le n
  have upper : n ≤ n.sqrt * n.sqrt + n.sqrt + n.sqrt := Nat.sqrt_le_add n
  rw [roundSqrt]
  split
  case isTrue below => exact ⟨Nat.le_add_right_of_le lower, below⟩
  case isFalse above =>
    have square : (n.sqrt + 1) * (n.sqrt + 1) = n.sqrt * n.sqrt + n.sqrt + n.sqrt + 1 := by
      rw [Nat.add_mul, Nat.one_mul, Nat.mul_add, Nat.mul_one]
      omega
    omega

/-- A position inside a block of length `b` is a position inside the row of `n` blocks. -/
theorem block_lt {n b i j : ℕ} (block : i < n) (position : j < b) : i * b + j < n * b := by
  have bound : (i + 1) * b ≤ n * b := Nat.mul_le_mul_right b block
  rw [Nat.add_mul, Nat.one_mul] at bound
  omega

section Reads

variable {a z : NdArray K}

theorem reshape_eq_ok {shape : List ℕ} (same : a.shape.prod = shape.prod) :
    ∃ reshaped, reshape a shape = .ok reshaped ∧ reshaped.shape = shape ∧
      ∀ index index', ravel shape index = ravel a.shape index' →
        reshaped.entry index = a.entry index' := by
  obtain ⟨reshaped, found, shaped, entries⟩ := NdArray.exists_reshape? same
  exact ⟨reshaped, by rw [reshape, found]; rfl, shaped, entries⟩

/-- The tokens as a grid for each time slice. -/
theorem exists_slices {b D : ℕ} (shaped : z.shape = [8 * ((4 * b) * (4 * b)), D]) :
    ∃ zz, reshape z [8, 4 * b, 4 * b, D] = .ok zz ∧ zz.shape = [8, 4 * b, 4 * b, D] ∧
      ∀ t y x d, zz.entry [t, y, x, d] = z.entry [(t * (4 * b) + y) * (4 * b) + x, d] := by
  obtain ⟨zz, split, shape, entries⟩ := @reshape_eq_ok _ _ z [8, 4 * b, 4 * b, D] (by
    rw [shaped]
    simp [Nat.mul_assoc])
  refine ⟨zz, split, shape, fun t y x d => ?_⟩
  apply entries
  rw [shaped]
  simp [ravel]
  ring

/-- A slice as sixteen blocks of `b` rows and `b` columns. -/
theorem exists_blocks {b D : ℕ} (shaped : z.shape = [4 * b, 4 * b, D]) :
    ∃ blocks, reshape z [4, b, 4, b, D] = .ok blocks ∧ blocks.shape = [4, b, 4, b, D] ∧
      ∀ r y c x d, blocks.entry [r, y, c, x, d] = z.entry [r * b + y, c * b + x, d] := by
  obtain ⟨blocks, split, shape, entries⟩ := @reshape_eq_ok _ _ z [4, b, 4, b, D] (by
    rw [shaped]
    simp [Nat.mul_assoc])
  refine ⟨blocks, split, shape, fun r y c x d => ?_⟩
  apply entries
  rw [shaped]
  simp [ravel]
  ring

/-- The cells of a grid with four columns one after the other. -/
theorem exists_cells {D : ℕ} (shaped : z.shape = [4, 4, D]) :
    ∃ grid, reshape z [16, D] = .ok grid ∧ grid.shape = [16, D] ∧
      ∀ r c d, grid.entry [4 * r + c, d] = z.entry [r, c, d] := by
  obtain ⟨grid, gathered, shape, entries⟩ := @reshape_eq_ok _ _ z [16, D] (by
    rw [shaped]
    simp [← Nat.mul_assoc])
  refine ⟨grid, gathered, shape, fun r c d => ?_⟩
  apply entries
  rw [shaped]
  simp [ravel]
  ring

/-- What `pool` returns for a grid of `4 * b` rows: the shapes and the entries as sums of tokens. -/
theorem exists_pool {b D : ℕ} (shaped : z.shape = [8 * ((4 * b) * (4 * b)), D]) :
    ∃ mean temporal grid, pool z = .ok (mean, temporal, grid) ∧
      mean.shape = [D] ∧ temporal.shape = [8, D] ∧ grid.shape = [16, D] ∧
      (∀ d < D, mean.entry [d] =
        (∑ n ∈ Finset.range (8 * ((4 * b) * (4 * b))), z.entry [n, d]) /
          (8 * ((4 * b) * (4 * b)) : ℕ)) ∧
      (∀ t < 8, ∀ d < D, temporal.entry [t, d] =
        (∑ y ∈ Finset.range (4 * b), ∑ x ∈ Finset.range (4 * b),
          z.entry [(t * (4 * b) + y) * (4 * b) + x, d]) / ((4 * b) * (4 * b) : ℕ)) ∧
      ∀ r < 4, ∀ c < 4, ∀ d < D, grid.entry [4 * r + c, d] =
        (∑ y ∈ Finset.range b, ∑ x ∈ Finset.range b,
          z.entry [(7 * (4 * b) + (r * b + y)) * (4 * b) + (c * b + x), d]) / (b * b : ℕ) := by
  obtain ⟨zz, split, zzShape, zzEntry⟩ := exists_slices shaped
  obtain ⟨last, taken, lastShape, lastEntry⟩ := NdArray.exists_sub zzShape (show 7 < 8 by omega)
  obtain ⟨blocks, blocked, blocksShape, blocksEntry⟩ := exists_blocks lastShape
  have coarseShape : (blocks.mean [1, 3]).shape = [4, 4, D] := by
    rw [NdArray.mean, NdArray.shape_ofFn, blocksShape]
    rfl
  obtain ⟨grid, gathered, gridShape, gridEntry⟩ := exists_cells coarseShape
  have rows : roundSqrt (8 * ((4 * b) * (4 * b)) / 8) = 4 * b := by
    rw [Nat.mul_div_cancel_left _ (by omega), roundSqrt_mul_self]
  have size : 4 * b / 4 = b := Nat.mul_div_cancel_left b (by omega)
  refine ⟨z.mean [0], zz.mean [1, 2], grid, ?_, ?_, ?_, gridShape, ?_, ?_, ?_⟩
  · simp only [pool, shaped, List.getLast?_cons_cons, List.getLast?_singleton, List.head?_cons,
      Fallible.orRaise, Fallible.ok_bind, nTemporal, rows, size, split, taken, blocked, gathered]
  · rw [NdArray.mean, NdArray.shape_ofFn, shaped]
    rfl
  · rw [NdArray.mean, NdArray.shape_ofFn, zzShape]
    rfl
  · intro d bound
    have inside : Inside [D] [d] := inside_cons.mpr ⟨bound, inside_nil⟩
    rw [NdArray.entry_mean shaped [0] inside]
    change (∑ n ∈ Finset.range _, z.entry [n, d]) / (([_] : List ℕ).prod : ℕ) = _
    rw [List.prod_singleton]
  · intro t inTime d bound
    have inside : Inside [8, D] [t, d] := by simp [inTime, bound]
    rw [NdArray.entry_mean zzShape [1, 2] inside]
    change (∑ y ∈ Finset.range _, ∑ x ∈ Finset.range _, zz.entry [t, y, x, d]) /
      (([_, _] : List ℕ).prod : ℕ) = _
    rw [List.prod_pair]
    simp only [zzEntry]
  · intro r inRow c inColumn d bound
    have inside : Inside [4, 4, D] [r, c, d] := by simp [inRow, inColumn, bound]
    rw [gridEntry, NdArray.entry_mean blocksShape [1, 3] inside]
    change (∑ y ∈ Finset.range _, ∑ x ∈ Finset.range _, blocks.entry [r, y, c, x, d]) /
      (([_, _] : List ℕ).prod : ℕ) = _
    rw [List.prod_pair]
    congr 1
    apply Finset.sum_congr rfl
    intro y inBlockRow
    apply Finset.sum_congr rfl
    intro x inBlockColumn
    rw [Finset.mem_range] at inBlockRow inBlockColumn
    have inSlice : Inside [4 * b, 4 * b, D] [r * b + y, c * b + x, d] := by
      simp only [inside_cons, inside_nil, and_true, bound]
      exact ⟨block_lt inRow inBlockRow, block_lt inColumn inBlockColumn⟩
    rw [blocksEntry, lastEntry _ inSlice, zzEntry]

end Reads

/-! ## The partition -/

/-- The tokens of the last slice in a block: `b` rows from row `r * b` and `b` columns from column
`c * b` of a grid with `4 * b` columns. -/
def cellTokens (b r c : ℕ) : Finset ℕ :=
  (Finset.range b ×ˢ Finset.range b).image fun position =>
    7 * (4 * b) ^ 2 + (r * b + position.1) * (4 * b) + (c * b + position.2)

/-- Row and column of a position in a grid of width `g` are unique. -/
theorem grid_position_inj {g y x y' x' : ℕ} (inside : x < g) (inside' : x' < g)
    (same : y * g + x = y' * g + x') : y = y' ∧ x = x' := by
  have rows := congrArg (· / g) same
  have columns := congrArg (· % g) same
  simp only [Nat.mul_add_mod_of_lt inside, Nat.mul_add_mod_of_lt inside'] at columns
  have positive : 0 < g := by omega
  rw [Nat.add_comm (y * g), Nat.add_comm (y' * g), Nat.add_mul_div_right _ _ positive,
    Nat.add_mul_div_right _ _ positive, Nat.div_eq_of_lt inside, Nat.div_eq_of_lt inside'] at rows
  exact ⟨by omega, columns⟩

theorem mem_cellTokens {b r c token : ℕ} :
    token ∈ cellTokens b r c ↔ ∃ y < b, ∃ x < b,
      token = 7 * (4 * b) ^ 2 + (r * b + y) * (4 * b) + (c * b + x) := by
  simp only [cellTokens, Finset.mem_image, Finset.mem_product, Finset.mem_range, Prod.exists]
  constructor
  · rintro ⟨y, x, ⟨inRow, inColumn⟩, rfl⟩
    exact ⟨y, inRow, x, inColumn, rfl⟩
  · rintro ⟨y, inRow, x, inColumn, rfl⟩
    exact ⟨y, x, ⟨inRow, inColumn⟩, rfl⟩

/-- A position in a grid of `4 * b` rows or columns lies in exactly one of four blocks. -/
theorem position_in_block {b n : ℕ} (bound : n < 4 * b) : n / b < 4 ∧ n % b < b ∧
    n = n / b * b + n % b := by
  have positive : 0 < b := by omega
  exact ⟨(Nat.div_lt_iff_lt_mul positive).mpr bound, Nat.mod_lt n positive,
    (Nat.div_add_mod' n b).symm⟩

section Cells

variable {b : ℕ}

theorem position_injOn {r c : ℕ} (inColumn : c < 4) :
    Set.InjOn (fun position : ℕ × ℕ =>
        7 * (4 * b) ^ 2 + (r * b + position.1) * (4 * b) + (c * b + position.2))
      (Finset.range b ×ˢ Finset.range b : Finset (ℕ × ℕ)) := by
  rintro ⟨y, x⟩ inBlock ⟨y', x'⟩ inBlock' same
  simp only [Finset.coe_product, Set.mem_prod, Finset.mem_coe, Finset.mem_range]
    at inBlock inBlock'
  have rows : r * b + y = r * b + y' ∧ c * b + x = c * b + x' :=
    grid_position_inj (block_lt inColumn inBlock.2) (block_lt inColumn inBlock'.2)
      (by simpa [Nat.add_assoc] using same)
  rw [Prod.mk.injEq]
  omega

theorem card_cellTokens {r c : ℕ} (inColumn : c < 4) : (cellTokens b r c).card = b ^ 2 := by
  rw [cellTokens, Finset.card_image_of_injOn (position_injOn inColumn), Finset.card_product,
    Finset.card_range, pow_two]

/-- A sum over the tokens of a block, row by row. -/
theorem sum_cellTokens {M : Type*} [AddCommMonoid M] {r c : ℕ} (inColumn : c < 4) (f : ℕ → M) :
    ∑ token ∈ cellTokens b r c, f token =
      ∑ y ∈ Finset.range b, ∑ x ∈ Finset.range b,
        f ((7 * (4 * b) + (r * b + y)) * (4 * b) + (c * b + x)) := by
  rw [cellTokens, Finset.sum_image (position_injOn inColumn), Finset.sum_product]
  apply Finset.sum_congr rfl
  intro y _
  apply Finset.sum_congr rfl
  intro x _
  congr 1
  ring

theorem cellTokens_subset {r c token : ℕ} (inRow : r < 4) (inColumn : c < 4)
    (member : token ∈ cellTokens b r c) : 7 * (4 * b) ^ 2 ≤ token ∧ token < 8 * (4 * b) ^ 2 := by
  obtain ⟨y, inBlockRow, x, inBlockColumn, rfl⟩ := mem_cellTokens.mp member
  have slice := block_lt (block_lt inRow inBlockRow) (block_lt inColumn inBlockColumn)
  rw [← pow_two] at slice
  omega

/-- Every token of the last slice lies in one of the sixteen blocks and in no other. -/
theorem existsUnique_cell {token : ℕ} (first : 7 * (4 * b) ^ 2 ≤ token)
    (last : token < 8 * (4 * b) ^ 2) :
    ∃! cell : ℕ × ℕ, cell.1 < 4 ∧ cell.2 < 4 ∧ token ∈ cellTokens b cell.1 cell.2 := by
  obtain ⟨offset, rfl⟩ := Nat.exists_eq_add_of_le first
  have inSlice : offset < (4 * b) * (4 * b) := by
    rw [← pow_two]
    omega
  have wide : 0 < 4 * b := Nat.pos_of_ne_zero fun narrow => by simp [narrow] at inSlice
  have row : offset / (4 * b) < 4 * b := (Nat.div_lt_iff_lt_mul wide).mpr inSlice
  have column : offset % (4 * b) < 4 * b := Nat.mod_lt offset wide
  have position : offset = offset / (4 * b) * (4 * b) + offset % (4 * b) :=
    (Nat.div_add_mod' offset (4 * b)).symm
  obtain ⟨blockRow, inBlockRow, rowEq⟩ := position_in_block row
  obtain ⟨blockColumn, inBlockColumn, columnEq⟩ := position_in_block column
  refine ⟨(offset / (4 * b) / b, offset % (4 * b) / b), ⟨blockRow, blockColumn, ?_⟩, ?_⟩
  · refine mem_cellTokens.mpr ⟨_, inBlockRow, _, inBlockColumn, ?_⟩
    rw [← rowEq, ← columnEq, Nat.add_assoc, ← position]
  · rintro ⟨r, c⟩ ⟨inRow, inColumn, member⟩
    obtain ⟨y, yBound, x, xBound, same⟩ := mem_cellTokens.mp member
    rw [Nat.add_assoc, Nat.add_left_cancel_iff, position] at same
    obtain ⟨rowSame, columnSame⟩ := grid_position_inj column (block_lt inColumn xBound) same
    have positive : 0 < b := by omega
    rw [rowSame, columnSame, Nat.add_comm (r * b), Nat.add_comm (c * b),
      Nat.add_mul_div_right _ _ positive, Nat.add_mul_div_right _ _ positive,
      Nat.div_eq_of_lt yBound, Nat.div_eq_of_lt xBound, Nat.zero_add, Nat.zero_add]

/-- The sums over the blocks add up to the sum over the slice. -/
theorem sum_cells {M : Type*} [AddCommMonoid M] (f : ℕ → ℕ → M) (b : ℕ) :
    ∑ r ∈ Finset.range 4, ∑ c ∈ Finset.range 4,
        ∑ y ∈ Finset.range b, ∑ x ∈ Finset.range b, f (r * b + y) (c * b + x) =
      ∑ y ∈ Finset.range (4 * b), ∑ x ∈ Finset.range (4 * b), f y x := by
  rw [sum_range_mul]
  apply Finset.sum_congr rfl
  intro r _
  rw [Finset.sum_comm]
  apply Finset.sum_congr rfl
  intro y _
  rw [sum_range_mul]

end Cells

/-- The grid cells average the sixteen blocks of the last slice, the blocks partition the slice, and
averaging the cells gives the last temporal vector as averaging the temporal vectors gives the
mean. -/
theorem pool_partitions {b D : ℕ} (positive : 1 ≤ b) {z : NdArray K}
    (shaped : z.shape = [8 * (4 * b) ^ 2, D]) :
    ∃ mean temporal grid, pool z = .ok (mean, temporal, grid) ∧
      mean.shape = [D] ∧ temporal.shape = [8, D] ∧ grid.shape = [16, D] ∧
      (∀ r < 4, ∀ c < 4, (cellTokens b r c).Nonempty ∧ (cellTokens b r c).card = b ^ 2 ∧
        ∀ d < D, grid.entry [4 * r + c, d] =
          (∑ token ∈ cellTokens b r c, z.entry [token, d]) / (b ^ 2 : ℕ)) ∧
      (∀ r < 4, ∀ c < 4, ∀ token ∈ cellTokens b r c,
        7 * (4 * b) ^ 2 ≤ token ∧ token < 8 * (4 * b) ^ 2) ∧
      (∀ token, 7 * (4 * b) ^ 2 ≤ token → token < 8 * (4 * b) ^ 2 →
        ∃! cell : ℕ × ℕ, cell.1 < 4 ∧ cell.2 < 4 ∧ token ∈ cellTokens b cell.1 cell.2) ∧
      (∀ d < D, (∑ cell ∈ Finset.range 16, grid.entry [cell, d]) / 16 = temporal.entry [7, d]) ∧
      ∀ d < D, (∑ t ∈ Finset.range 8, temporal.entry [t, d]) / 8 = mean.entry [d] := by
  rw [pow_two] at shaped
  obtain ⟨mean, temporal, grid, pooled, meanShape, temporalShape, gridShape, meanEntry,
    temporalEntry, gridEntry⟩ := exists_pool shaped
  refine ⟨mean, temporal, grid, pooled, meanShape, temporalShape, gridShape, ?_, ?_, ?_, ?_, ?_⟩
  · intro r inRow c inColumn
    have size : (cellTokens b r c).card = b ^ 2 := card_cellTokens inColumn
    refine ⟨Finset.card_pos.mp (by rw [size]; positivity), size, fun d inside => ?_⟩
    rw [gridEntry r inRow c inColumn d inside, sum_cellTokens inColumn, pow_two]
  · intro r inRow c inColumn token member
    exact cellTokens_subset inRow inColumn member
  · intro token first last
    exact existsUnique_cell first last
  · intro d inside
    have cells : ∑ cell ∈ Finset.range 16, grid.entry [cell, d] =
        (∑ y ∈ Finset.range (4 * b), ∑ x ∈ Finset.range (4 * b),
          z.entry [(7 * (4 * b) + y) * (4 * b) + x, d]) / (b * b : ℕ) := by
      rw [← sum_cells fun y x => z.entry [(7 * (4 * b) + y) * (4 * b) + x, d],
        show (16 : ℕ) = 4 * 4 from rfl, sum_range_mul, Finset.sum_div]
      apply Finset.sum_congr rfl
      intro r inRow
      rw [Finset.sum_div]
      apply Finset.sum_congr rfl
      intro c inColumn
      rw [Finset.mem_range] at inRow inColumn
      rw [Nat.mul_comm r 4, gridEntry r inRow c inColumn d inside]
    rw [cells, temporalEntry 7 (by omega) d inside, div_div]
    congr 1
    push_cast
    ring
  · intro d inside
    have slices : ∑ t ∈ Finset.range 8, temporal.entry [t, d] =
        (∑ n ∈ Finset.range (8 * ((4 * b) * (4 * b))), z.entry [n, d]) /
          ((4 * b) * (4 * b) : ℕ) := by
      rw [← Nat.mul_assoc, sum_range_mul, sum_range_mul, Finset.sum_div]
      apply Finset.sum_congr rfl
      intro t inTime
      rw [temporalEntry t (Finset.mem_range.mp inTime) d inside]
    rw [slices, meanEntry d inside, div_div]
    congr 1
    push_cast
    ring

/-- The tokens of a clip whose grid has eight rows, each with its own index as the only channel. -/
def rampTokens : NdArray ℚ :=
  .ofFn [8 * (4 * 2) ^ 2, 1] fun index => index.headD 0

theorem pool_partitions_ramp : ∃ mean temporal grid, pool rampTokens = .ok (mean, temporal, grid) ∧
    grid.entry [4 * 1 + 2, 0] = (468 + 469 + 476 + 477) / 4 ∧
    (∑ cell ∈ Finset.range 16, grid.entry [cell, 0]) / 16 = temporal.entry [7, 0] := by
  obtain ⟨mean, temporal, grid, pooled, -, -, -, cells, -, -, coarse, -⟩ :=
    pool_partitions (b := 2) (D := 1) (z := rampTokens) (by decide) rfl
  have cell := (cells 1 (by decide) 2 (by decide)).2.2 0 (by decide)
  have tokens : cellTokens 2 1 2 = {468, 469, 476, 477} := by decide
  have token {n : ℕ} (inside : n < 512) : rampTokens.entry [n, 0] = n := by
    have index : Inside [8 * (4 * 2) ^ 2, 1] [n, 0] := by simpa using inside
    rw [rampTokens, NdArray.entry_ofFn _ index]
    rfl
  refine ⟨mean, temporal, grid, pooled, ?_, coarse 0 (by decide)⟩
  rw [cell, tokens]
  simp [token]
  norm_num

/-! ## The pooled features of an encoder -/

/-- The encoder that pools token arrays with a grid of `4 * b` rows, for which `pool` returns. -/
def encoderOfTokens {Frame : Type} (b D : ℕ)
    (encode : List Frame → {z : NdArray K // z.shape = [8 * ((4 * b) * (4 * b)), D]}) :
    VideoEncoder Frame {z : NdArray K // z.shape = [8 * ((4 * b) * (4 * b)), D]} K D where
  encode
  pool z :=
    match pool z.1 with
    | .ok (mean, temporal, grid) =>
        { mean := fun d => mean.entry [d]
          temporal := fun t d => temporal.entry [t, d]
          grid := fun cell d => grid.entry [cell, d] }
    | .error _ => { mean := 0, temporal := 0, grid := 0 }

/-- The features of such an encoder are the entries of what `pool` returns on the tokens. -/
theorem pooled_encoderOfTokens {Frame : Type} {b D : ℕ}
    (encode : List Frame → {z : NdArray K // z.shape = [8 * ((4 * b) * (4 * b)), D]})
    (clip : List Frame) : ∃ mean temporal grid,
      pool (encode clip).1 = .ok (mean, temporal, grid) ∧
      (encoderOfTokens b D encode).pooled clip =
        { mean := fun d => mean.entry [d]
          temporal := fun t d => temporal.entry [t, d]
          grid := fun cell d => grid.entry [cell, d] } := by
  obtain ⟨mean, temporal, grid, pooled, -⟩ := exists_pool (encode clip).2
  refine ⟨mean, temporal, grid, pooled, ?_⟩
  simp only [VideoEncoder.pooled, encoderOfTokens, pooled]

end G1Jepa
