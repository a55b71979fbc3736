import G1Jepa.Library.PrefixCode
import G1Jepa.Library.ShiftRegister

/-!
# The checksum of the low-level messages

`_crc_py` and `__Trans` of `utils/crc.py`. The bytes of a message are read as words, all but the
last one, and the words are fed to a shift register bit by bit. Words with the same checksum are the
same or differ in two bits that are at least a word apart.
-/

namespace G1Jepa.Unitree

/-- The polynomial of `_crc_py`. -/
def polynomial : BitVec 32 := 0x04c11db7#32

/-- The body of the inner loop of `_crc_py`. -/
def crcBit (crc current bit : BitVec 32) : BitVec 32 :=
  let shifted := if crc &&& 0x80000000#32 ≠ 0 then (crc <<< 1) ^^^ polynomial else crc <<< 1
  if current &&& bit ≠ 0 then shifted ^^^ polynomial else shifted

/-- The inner loop: `bit` moves from the highest bit of `current` to the lowest one. -/
def crcBits (crc current : BitVec 32) (n : ℕ) : BitVec 32 × BitVec 32 :=
  (List.range n).foldl (fun acc _ => (crcBit acc.1 current acc.2, acc.2 >>> 1))
    (crc, 1#32 <<< 31)

/-- `_crc_py`. -/
def crcPy (data : List (BitVec 32)) : BitVec 32 :=
  data.foldl (fun crc current => (crcBits crc current 32).1) 0xFFFFFFFF#32

/-- One of the words of `__Trans`. -/
def transWord (b0 b1 b2 b3 : BitVec 8) : BitVec 32 :=
  b3.setWidth 32 <<< 24 ||| b2.setWidth 32 <<< 16 ||| b1.setWidth 32 <<< 8 ||| b0.setWidth 32

/-- `__Trans`, which leaves out the last word. -/
def trans (packData : List (BitVec 8)) : List (BitVec 32) :=
  (List.range ((packData.length >>> 2) - 1)).map fun i =>
    transWord (packData.getD (i * 4) 0) (packData.getD (i * 4 + 1) 0)
      (packData.getD (i * 4 + 2) 0) (packData.getD (i * 4 + 3) 0)

/-- The bits of a word in the order in which `_crc_py` takes them. -/
def wordBits (current : BitVec 32) : List Bool :=
  (List.range 32).map fun b => current.getLsbD (31 - b)

/-! ## The checksum as a shift register -/

theorem and_twoPow_ne_zero (x : BitVec 32) {i : ℕ} (inside : i < 32) :
    x &&& BitVec.twoPow 32 i ≠ 0 ↔ x.getLsbD i = true := by
  have nonzero : BitVec.twoPow 32 i ≠ 0 := by
    intro zero
    have bit := congrArg (·.getLsbD i) zero
    simp [inside] at bit
  rw [BitVec.and_twoPow]
  split
  · next set => exact iff_of_true nonzero set
  · next unset => exact iff_of_false (fun ne => ne rfl) unset

theorem crcBit_eq (crc current : BitVec 32) {i : ℕ} (inside : i < 32) :
    crcBit crc current (BitVec.twoPow 32 i) =
      ShiftRegister.feed polynomial crc (current.getLsbD i) := by
  have top : (0x80000000#32 : BitVec 32) = BitVec.twoPow 32 31 := rfl
  simp only [crcBit, ShiftRegister.feed, top, and_twoPow_ne_zero _ inside,
    and_twoPow_ne_zero _ (show 31 < 32 by decide), BitVec.msb_eq_getLsbD_last]
  cases crc.getLsbD 31 <;> cases current.getLsbD i <;> simp

theorem crcBits_eq (crc current : BitVec 32) {n : ℕ} (bound : n ≤ 32) :
    crcBits crc current n = (ShiftRegister.run polynomial crc
      ((List.range n).map fun b => current.getLsbD (31 - b)), (1#32 <<< 31) >>> n) := by
  induction n with
  | zero => rfl
  | succ n induction =>
      have bit : (1#32 <<< 31) >>> n = BitVec.twoPow 32 (31 - n) := by
        have inside : n < 32 := bound
        interval_cases n <;> rfl
      have before : crcBits crc current (n + 1) =
          (crcBit (crcBits crc current n).1 current (crcBits crc current n).2,
            (crcBits crc current n).2 >>> 1) := by
        rw [crcBits, List.range_succ, List.foldl_concat]
        rfl
      rw [before, induction (by omega), List.range_succ, List.map_append, ShiftRegister.run_append,
        bit, crcBit_eq _ _ (by omega), ← bit, ← BitVec.shiftRight_add]
      rfl

theorem crcPy_eq (data : List (BitVec 32)) :
    crcPy data = ShiftRegister.run polynomial 0xFFFFFFFF#32 (data.flatMap wordBits) := by
  rw [crcPy]
  generalize 0xFFFFFFFF#32 = crc
  induction data generalizing crc with
  | nil => rfl
  | cons current data induction =>
      rw [List.foldl_cons, induction, List.flatMap_cons, ShiftRegister.run_append,
        crcBits_eq crc current le_rfl]
      rfl

theorem wordBits_code : PrefixCode wordBits := by
  refine PrefixCode.of_length (n := 32) (fun current => by simp [wordBits]) fun v v' same => ?_
  refine BitVec.eq_of_getLsbD_eq fun i inside => ?_
  have bit := congrArg (·[31 - i]?) same
  have place : 31 - i < 32 := by omega
  have back : 31 - (31 - i) = i := by omega
  simpa [wordBits, place, back] using bit

/-- Data of one length with the same checksum are the same or differ in two bits that are at least a
word apart. -/
theorem eq_or_far_of_crcPy_eq {data data' : List (BitVec 32)} (length : data.length = data'.length)
    (same : crcPy data = crcPy data') :
    data = data' ∨ ∃ i j, i + 32 ≤ j ∧ (data.flatMap wordBits)[i]? ≠ (data'.flatMap wordBits)[i]? ∧
      (data.flatMap wordBits)[j]? ≠ (data'.flatMap wordBits)[j]? := by
  rw [crcPy_eq, crcPy_eq] at same
  have bits : (data.flatMap wordBits).length = (data'.flatMap wordBits).length := by
    simp [List.length_flatMap, wordBits, length]
  refine (ShiftRegister.eq_or_far_of_run_eq (by decide) bits same).imp_left fun equal => ?_
  exact (wordBits_code.flatMap length (congrArg (· ++ []) equal)).1

theorem getElem?_flatMap_wordBits (data : List (BitVec 32)) (i : ℕ) :
    (data.flatMap wordBits)[i]? =
      (data[i / 32]?).bind fun current => (wordBits current)[i % 32]? := by
  induction data generalizing i with
  | nil => rfl
  | cons current data induction =>
      have width : (wordBits current).length = 32 := by simp [wordBits]
      rw [List.flatMap_cons]
      rcases Nat.lt_or_ge i 32 with inside | beyond
      · rw [List.getElem?_append_left (by omega), Nat.div_eq_of_lt inside, Nat.mod_eq_of_lt inside]
        rfl
      · rw [List.getElem?_append_right (by omega), width, induction]
        obtain ⟨i, rfl⟩ := Nat.exists_eq_add_of_le' beyond
        rw [Nat.add_sub_cancel, Nat.add_div_right i (by decide), Nat.add_mod_right,
          List.getElem?_cons_succ]

theorem word_of_differ {data data' : List (BitVec 32)} {q i : ℕ}
    (single : ∀ k ≠ q, data[k]? = data'[k]?)
    (differ : (data.flatMap wordBits)[i]? ≠ (data'.flatMap wordBits)[i]?) : i / 32 = q := by
  by_contra other
  rw [getElem?_flatMap_wordBits, getElem?_flatMap_wordBits, single _ other] at differ
  exact differ rfl

/-- A change of one word shows in the checksum. -/
theorem eq_of_crcPy_eq {data data' : List (BitVec 32)} {q : ℕ} (length : data.length = data'.length)
    (same : crcPy data = crcPy data') (single : ∀ k ≠ q, data[k]? = data'[k]?) : data = data' := by
  rcases eq_or_far_of_crcPy_eq length same with equal | ⟨i, j, far, low, high⟩
  · exact equal
  · have first := word_of_differ single low
    have second := word_of_differ single high
    omega

/-! ## Words from bytes -/

/-- The bytes of a word. -/
theorem extract_transWord (b0 b1 b2 b3 : BitVec 8) :
    (transWord b0 b1 b2 b3).extractLsb' 0 8 = b0 ∧
      (transWord b0 b1 b2 b3).extractLsb' 8 8 = b1 ∧
      (transWord b0 b1 b2 b3).extractLsb' 16 8 = b2 ∧
      (transWord b0 b1 b2 b3).extractLsb' 24 8 = b3 := by
  refine ⟨?_, ?_, ?_, ?_⟩
  all_goals
    ext i inside
    interval_cases i <;> simp [transWord]

theorem transWord_injective {b0 b1 b2 b3 c0 c1 c2 c3 : BitVec 8}
    (same : transWord b0 b1 b2 b3 = transWord c0 c1 c2 c3) :
    b0 = c0 ∧ b1 = c1 ∧ b2 = c2 ∧ b3 = c3 := by
  obtain ⟨first, second, third, fourth⟩ := extract_transWord b0 b1 b2 b3
  obtain ⟨first', second', third', fourth'⟩ := extract_transWord c0 c1 c2 c3
  rw [← same] at first' second' third' fourth'
  exact ⟨first.symm.trans first', second.symm.trans second', third.symm.trans third',
    fourth.symm.trans fourth'⟩

variable {n : ℕ} {bytes bytes' last last' : List (BitVec 8)}

theorem length_trans (whole : bytes.length = 4 * n) (four : last.length = 4) :
    (trans (bytes ++ last)).length = n := by
  rw [trans, List.length_map, List.length_range, List.length_append, whole, four,
    Nat.shiftRight_eq_div_pow]
  omega

theorem getElem?_trans (whole : bytes.length = 4 * n) (four : last.length = 4) {k : ℕ}
    (inside : k < n) :
    (trans (bytes ++ last))[k]? = some (transWord (bytes.getD (k * 4) 0)
      (bytes.getD (k * 4 + 1) 0) (bytes.getD (k * 4 + 2) 0) (bytes.getD (k * 4 + 3) 0)) := by
  have words : ((bytes ++ last).length >>> 2) - 1 = n := by
    rw [List.length_append, whole, four, Nat.shiftRight_eq_div_pow]
    omega
  rw [trans, words, List.getElem?_map, List.getElem?_range inside, Option.map_some]
  rw [List.getD_append _ _ _ _ (by omega), List.getD_append _ _ _ _ (by omega),
    List.getD_append _ _ _ _ (by omega), List.getD_append _ _ _ _ (by omega)]

/-- Bytes that agree outside one word are read as words that do. -/
theorem trans_agree (whole : bytes.length = 4 * n) (whole' : bytes'.length = 4 * n)
    (four : last.length = 4) (four' : last'.length = 4) {q : ℕ}
    (agree : ∀ m, m / 4 ≠ q → bytes[m]? = bytes'[m]?) {k : ℕ} (other : k ≠ q) :
    (trans (bytes ++ last))[k]? = (trans (bytes' ++ last'))[k]? := by
  have byte {r : ℕ} (inside : r < 4) : bytes.getD (k * 4 + r) 0 = bytes'.getD (k * 4 + r) 0 := by
    rw [List.getD_eq_getElem?_getD, List.getD_eq_getElem?_getD, agree _ (by omega)]
  by_cases inside : k < n
  · rw [getElem?_trans whole four inside, getElem?_trans whole' four' inside]
    rw [byte (show 1 < 4 by decide), byte (show 2 < 4 by decide), byte (show 3 < 4 by decide)]
    rw [show bytes.getD (k * 4) 0 = bytes'.getD (k * 4) 0 from byte (show 0 < 4 by decide)]
  · rw [List.getElem?_eq_none (by rw [length_trans whole four]; omega),
      List.getElem?_eq_none (by rw [length_trans whole' four']; omega)]

/-- The words determine all other bytes. -/
theorem trans_injective (whole : bytes.length = 4 * n) (whole' : bytes'.length = 4 * n)
    (four : last.length = 4) (four' : last'.length = 4)
    (same : trans (bytes ++ last) = trans (bytes' ++ last')) : bytes = bytes' := by
  have word {k : ℕ} (inside : k < n) := by
    have words := congrArg (·[k]?) same
    simp only [getElem?_trans whole four inside, getElem?_trans whole' four' inside] at words
    exact transWord_injective (Option.some.inj words)
  refine List.ext_getElem (whole.trans whole'.symm) fun m below below' => ?_
  obtain ⟨first, second, third, fourth⟩ := word (show m / 4 < n by omega)
  rw [← List.getD_eq_getElem bytes 0 below, ← List.getD_eq_getElem bytes' 0 below']
  have place : m = m / 4 * 4 ∨ m = m / 4 * 4 + 1 ∨ m = m / 4 * 4 + 2 ∨ m = m / 4 * 4 + 3 := by
    omega
  rcases place with place | place | place | place <;> rw [place]
  · exact first
  · exact second
  · exact third
  · exact fourth

end G1Jepa.Unitree
