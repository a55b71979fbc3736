import Mathlib

/-!
# Packing values into bytes

`struct.pack` of Python with a little-endian format without alignment: a format is a list of codes,
each of which takes one value and writes it in a fixed number of bytes, but for the pad bytes, which
take none. An integer outside the range of its code is an error. The bytes of a format have one
length, and they determine the values.
-/

namespace StructPack

/-- The codes of a format. -/
inductive Code
  | x
  | b
  | B
  | h
  | H
  | i
  | I
  | f
  deriving DecidableEq

/-- The values that are packed. A float is given by its bits in single precision. -/
inductive Value
  | int (v : ℤ)
  | float (bits : BitVec 32)
  deriving DecidableEq

/-- A signed or an unsigned integer of a fixed width. -/
def Value.sint {n : ℕ} (v : BitVec n) : Value := .int v.toInt

def Value.uint {n : ℕ} (v : BitVec n) : Value := .int v.toNat

theorem Value.sint_injective {n : ℕ} : Function.Injective (sint (n := n)) :=
  fun _ _ same => BitVec.eq_of_toInt_eq (Value.int.inj same)

theorem Value.uint_injective {n : ℕ} : Function.Injective (uint (n := n)) :=
  fun _ _ same => BitVec.eq_of_toNat_eq (Int.ofNat_inj.mp (Value.int.inj same))

namespace Code

/-- The number of bytes. -/
def size : Code → ℕ
  | .x | .b | .B => 1
  | .h | .H => 2
  | .i | .I | .f => 4

/-- The least integer of a code, and the first one above its range. -/
def low : Code → ℤ
  | .b => -2 ^ 7
  | .h => -2 ^ 15
  | .i => -2 ^ 31
  | _ => 0

def high : Code → ℤ
  | .b => 2 ^ 7
  | .B => 2 ^ 8
  | .h => 2 ^ 15
  | .H => 2 ^ 16
  | .i => 2 ^ 31
  | .I => 2 ^ 32
  | _ => 0

/-- The range check of a code. -/
def accepts : Code → Value → Bool
  | .f, .float _ => true
  | .f, .int _ => false
  | _, .float _ => false
  | code, .int v => decide (code.low ≤ v ∧ v < code.high)

end Code

/-- The bytes of a word, the lowest one first. -/
def leBytes (n : ℕ) (v : BitVec (8 * n)) : List (BitVec 8) :=
  (List.range n).map fun k => v.extractLsb' (8 * k) 8

theorem leBytes_injective (n : ℕ) : Function.Injective (leBytes n) := by
  intro v v' same
  refine BitVec.eq_of_getLsbD_eq fun i inside => ?_
  have place : i / 8 < n := by omega
  have byte : v.extractLsb' (8 * (i / 8)) 8 = v'.extractLsb' (8 * (i / 8)) 8 := by
    simpa [leBytes, place] using congrArg (·[i / 8]?) same
  have bit := congrArg (·.getLsbD (i % 8)) byte
  simpa [Nat.mod_lt, Nat.div_add_mod] using bit

/-- The bytes that a code writes for a value in its range. -/
def Code.bytes (code : Code) : Value → List (BitVec 8)
  | .int v => leBytes code.size (BitVec.ofInt (8 * code.size) v)
  | .float bits => leBytes 4 bits

/-- `struct.pack`, where `none` is `struct.error`. -/
def pack : List Code → List Value → Option (List (BitVec 8))
  | [], [] => some []
  | .x :: fmt, values => (pack fmt values).map (0 :: ·)
  | code :: fmt, value :: values =>
      if code.accepts value then (pack fmt values).map (code.bytes value ++ ·) else none
  | _, _ => none

variable {code : Code} {fmt rest : List Code} {value : Value} {values more : List Value}
  {bytes bytes' : List (BitVec 8)} {start : ℕ}

theorem length_bytes (accepted : code.accepts value = true) :
    (code.bytes value).length = code.size := by
  cases code <;> cases value <;> simp_all [Code.accepts, Code.bytes, leBytes, Code.size]

/-- The range of a code has as many integers as its bytes can tell apart. -/
theorem range_of_accepts {v : ℤ} (accepted : code.accepts (.int v) = true) :
    code.low ≤ v ∧ v < code.high ∧ code.high - code.low ≤ 2 ^ (8 * code.size) := by
  cases code with
  | f => exact absurd accepted Bool.false_ne_true
  | _ =>
      obtain ⟨low, high⟩ := of_decide_eq_true accepted
      exact ⟨low, high, by decide⟩

theorem bytes_injective {value' : Value} (accepted : code.accepts value = true)
    (accepted' : code.accepts value' = true) (same : code.bytes value = code.bytes value') :
    value = value' := by
  cases value with
  | float bits =>
      cases value' with
      | float bits' => exact congrArg _ (leBytes_injective 4 same)
      | int v => cases code <;> simp [Code.accepts] at accepted accepted'
  | int v =>
      cases value' with
      | float bits' => cases code <;> simp [Code.accepts] at accepted accepted'
      | int v' =>
          have words := congrArg BitVec.toNat (leBytes_injective code.size same)
          rw [BitVec.toNat_ofInt, BitVec.toNat_ofInt, Nat.cast_pow, Nat.cast_ofNat] at words
          obtain ⟨low, high, width⟩ := range_of_accepts accepted
          obtain ⟨low', high', -⟩ := range_of_accepts accepted'
          have positive : (0 : ℤ) < 2 ^ (8 * code.size) := by positivity
          have residues : v % 2 ^ (8 * code.size) = v' % 2 ^ (8 * code.size) := by
            have := Int.emod_nonneg v positive.ne'
            have := Int.emod_nonneg v' positive.ne'
            omega
          have near : |v - v'| < 2 ^ (8 * code.size) := abs_lt.mpr ⟨by omega, by omega⟩
          have zero := Int.eq_zero_of_abs_lt_dvd (Int.ModEq.dvd (Int.ModEq.symm residues)) near
          exact congrArg _ (Int.sub_eq_zero.mp zero)

theorem pack_pad : pack (.x :: fmt) values = (pack fmt values).map (0 :: ·) := by
  cases values <;> rfl

theorem pack_value (other : code ≠ .x) : pack (code :: fmt) (value :: values) =
    if code.accepts value then (pack fmt values).map (code.bytes value ++ ·) else none := by
  cases code <;> first | exact absurd rfl other | rfl

/-- What a code other than a pad byte takes and writes. -/
theorem pack_cons (other : code ≠ .x) : pack (code :: fmt) values = some bytes ↔
    ∃ value rest tail, values = value :: rest ∧ code.accepts value = true ∧
      pack fmt rest = some tail ∧ bytes = code.bytes value ++ tail := by
  cases values with
  | nil => cases code <;> simp_all [pack]
  | cons value rest =>
      rw [pack_value other]
      constructor
      · intro packed
        split at packed
        · next accepted =>
            obtain ⟨tail, written, rfl⟩ := Option.map_eq_some_iff.mp packed
            exact ⟨value, rest, tail, rfl, accepted, written, rfl⟩
        · exact absurd packed (by simp)
      · rintro ⟨value, rest, tail, same, accepted, written, rfl⟩
        obtain ⟨rfl, rfl⟩ := List.cons.inj same
        rw [if_pos accepted, written, Option.map_some]

theorem length_pack (packed : pack fmt values = some bytes) :
    bytes.length = (fmt.map Code.size).sum := by
  induction fmt generalizing values bytes with
  | nil =>
      cases values with
      | nil => exact congrArg List.length (Option.some.inj packed).symm
      | cons value values => exact absurd packed (by simp [pack])
  | cons code fmt induction =>
      by_cases pad : code = .x
      · subst pad
        rw [pack_pad] at packed
        obtain ⟨tail, written, rfl⟩ := Option.map_eq_some_iff.mp packed
        rw [List.length_cons, induction written, List.map_cons, List.sum_cons, Nat.add_comm]
        rfl
      · obtain ⟨value, rest, tail, rfl, accepted, written, rfl⟩ := (pack_cons pad).mp packed
        rw [List.length_append, length_bytes accepted, induction written, List.map_cons,
          List.sum_cons]

/-- The bytes of a format determine the values. -/
theorem pack_injective (packed : pack fmt values = some bytes)
    (packed' : pack fmt more = some bytes) : values = more := by
  induction fmt generalizing values more bytes with
  | nil =>
      cases values with
      | nil => cases more <;> simp_all [pack]
      | cons value values => exact absurd packed (by simp [pack])
  | cons code fmt induction =>
      by_cases pad : code = .x
      · subst pad
        rw [pack_pad] at packed packed'
        obtain ⟨tail, written, rfl⟩ := Option.map_eq_some_iff.mp packed
        obtain ⟨tail', written', same⟩ := Option.map_eq_some_iff.mp packed'
        obtain rfl := List.tail_eq_of_cons_eq same
        exact induction written written'
      · obtain ⟨value, rest, tail, rfl, accepted, written, rfl⟩ := (pack_cons pad).mp packed
        obtain ⟨value', rest', tail', rfl, accepted', written', same⟩ := (pack_cons pad).mp packed'
        obtain ⟨front, rfl⟩ := List.append_inj same
          ((length_bytes accepted).trans (length_bytes accepted').symm)
        rw [bytes_injective accepted accepted' front, induction written written']

/-- Every code of a format that begins at byte `start` has a multiple of its size before it. -/
def Aligned : ℕ → List Code → Prop
  | _, [] => True
  | start, code :: fmt => code.size ∣ start ∧ Aligned (start + code.size) fmt

instance decidableAligned : ∀ (start : ℕ) (fmt : List Code), Decidable (Aligned start fmt)
  | _, [] => isTrue trivial
  | start, code :: fmt =>
      have := decidableAligned (start + code.size) fmt
      inferInstanceAs (Decidable (_ ∧ _))

/-- The bytes of a code lie in one word. -/
theorem word_of_aligned (whole : code.size ∣ start) {m : ℕ} (inside : m < code.size) :
    (start + m) / 4 = start / 4 := by
  cases code <;> simp only [Code.size] at whole inside <;> omega

/-- Bytes that agree outside the word `q` do so behind those of a code. -/
theorem agree_append {value' : Value} {tail tail' : List (BitVec 8)} {q : ℕ}
    (accepted : code.accepts value = true) (accepted' : code.accepts value' = true)
    (front : ∀ m < code.size, (start + m) / 4 ≠ q →
      (code.bytes value)[m]? = (code.bytes value')[m]?)
    (rest : ∀ m, (start + code.size + m) / 4 ≠ q → tail[m]? = tail'[m]?) (m : ℕ)
    (other : (start + m) / 4 ≠ q) :
    (code.bytes value ++ tail)[m]? = (code.bytes value' ++ tail')[m]? := by
  have length := length_bytes accepted
  have length' := length_bytes accepted'
  rcases Nat.lt_or_ge m code.size with inside | beyond
  · rw [List.getElem?_append_left (by omega), List.getElem?_append_left (by omega)]
    exact front m inside other
  · rw [List.getElem?_append_right (by omega), List.getElem?_append_right (by omega), length,
      length']
    refine rest _ ?_
    rwa [Nat.add_assoc, Nat.add_sub_cancel' beyond]

/-- Where a format is aligned, a change of one value shows in one word. -/
theorem exists_word_of_single {k : ℕ} (aligned : Aligned start fmt)
    (packed : pack fmt values = some bytes) (packed' : pack fmt more = some bytes')
    (single : ∀ m ≠ k, values[m]? = more[m]?) :
    ∃ q, ∀ m, (start + m) / 4 ≠ q → bytes[m]? = bytes'[m]? := by
  induction fmt generalizing start k values more bytes bytes' with
  | nil =>
      refine ⟨0, fun m _ => ?_⟩
      rw [List.eq_nil_of_length_eq_zero (length_pack packed),
        List.eq_nil_of_length_eq_zero (length_pack packed')]
  | cons code fmt induction =>
      obtain ⟨whole, aligned⟩ := aligned
      by_cases pad : code = .x
      · subst pad
        rw [pack_pad] at packed packed'
        obtain ⟨tail, written, rfl⟩ := Option.map_eq_some_iff.mp packed
        obtain ⟨tail', written', rfl⟩ := Option.map_eq_some_iff.mp packed'
        obtain ⟨q, rest⟩ := induction aligned written written' single
        refine ⟨q, fun m other => ?_⟩
        cases m with
        | zero => rfl
        | succ m => exact rest m (by rwa [Code.size, Nat.add_assoc, Nat.add_comm 1])
      · obtain ⟨value, values, tail, rfl, accepted, written, rfl⟩ := (pack_cons pad).mp packed
        obtain ⟨value', more, tail', rfl, accepted', written', rfl⟩ := (pack_cons pad).mp packed'
        cases k with
        | zero =>
            obtain rfl : values = more :=
              List.ext_getElem? fun m => single (m + 1) (Nat.succ_ne_zero m)
            obtain rfl := Option.some.inj (written.symm.trans written')
            refine ⟨start / 4, agree_append accepted accepted' (fun m inside other => ?_)
              fun _ _ => rfl⟩
            exact absurd (word_of_aligned whole inside) other
        | succ k =>
            obtain rfl : value = value' := Option.some.inj (single 0 (Nat.succ_ne_zero k).symm)
            obtain ⟨q, rest⟩ := induction aligned written written' fun m other =>
              single (m + 1) fun same => other (Nat.succ.inj same)
            exact ⟨q, agree_append accepted accepted' (fun _ _ _ => rfl) rest⟩

/-- The number of values that a format takes. -/
def arity (fmt : List Code) : ℕ := fmt.countP (· ≠ .x)

theorem pack_append (length : values.length = arity fmt) :
    pack (fmt ++ rest) (values ++ more) =
      (pack fmt values).bind fun front => (pack rest more).map (front ++ ·) := by
  induction fmt generalizing values with
  | nil =>
      obtain rfl := List.length_eq_zero_iff.mp length
      simp [pack]
  | cons code fmt induction =>
      by_cases pad : code = .x
      · subst pad
        rw [List.cons_append, pack_pad, induction (by simpa [arity] using length), pack_pad,
          Option.map_bind, Option.bind_map]
        congr 1
        funext front
        rw [Function.comp_apply, Option.map_map]
        rfl
      · obtain ⟨value, values, rfl⟩ : ∃ value tail, values = value :: tail := by
          refine List.exists_cons_of_length_pos ?_
          rw [length, arity, List.countP_cons_of_pos (by simpa using pad)]
          exact Nat.succ_pos _
        have taken : values.length = arity fmt := by
          rw [arity, List.countP_cons_of_pos (by simpa using pad)] at length
          exact Nat.succ.inj length
        rw [List.cons_append, List.cons_append, pack_value pad, pack_value pad, induction taken]
        split
        · rw [Option.map_bind, Option.bind_map]
          congr 1
          funext front
          simp [Function.comp_def]
        · rfl

/-! ## Values in range -/

/-- The values fit the format. -/
def Packs (fmt : List Code) (values : List Value) : Prop := (pack fmt values).isSome = true

theorem packs_nil : Packs [] [] := rfl

@[simp] theorem packs_pad : Packs (.x :: fmt) values ↔ Packs fmt values := by
  rw [Packs, pack_pad, Option.isSome_map, Packs]

@[simp] theorem packs_value (other : code ≠ .x) :
    Packs (code :: fmt) (value :: values) ↔ code.accepts value = true ∧ Packs fmt values := by
  rw [Packs, pack_value other]
  split
  · next accepted => rw [Option.isSome_map, Packs]; exact (and_iff_right accepted).symm
  · next refused => exact iff_of_false Bool.false_ne_true fun both => refused both.1

theorem packs_append (length : values.length = arity fmt) :
    Packs (fmt ++ rest) (values ++ more) ↔ Packs fmt values ∧ Packs rest more := by
  rw [Packs, pack_append length, Packs, Packs]
  cases pack fmt values <;> simp

/-- A format that is repeated takes its values for one entry after the other. -/
theorem packs_blocks {α : Type*} {data : α → List Value} (length : ∀ x, (data x).length = arity fmt)
    (entries : List α) :
    Packs (List.replicate entries.length fmt).flatten (entries.flatMap data) ↔
      ∀ x ∈ entries, Packs fmt (data x) := by
  induction entries with
  | nil => simp [packs_nil]
  | cons entry entries induction =>
      rw [List.length_cons, List.replicate_succ, List.flatten_cons, List.flatMap_cons,
        packs_append (length entry), induction, List.forall_mem_cons]

variable {n : ℕ}

theorem packs_append_blocks {α : Type*} {data : α → List Value}
    (length : ∀ x, (data x).length = arity fmt) (v : Vector α n) :
    Packs ((List.replicate n fmt).flatten ++ rest) (v.toList.flatMap data ++ more) ↔
      (∀ x ∈ v.toList, Packs fmt (data x)) ∧ Packs rest more := by
  have blocks := packs_blocks length v.toList
  rw [Vector.length_toList] at blocks
  rw [packs_append, blocks]
  simp [List.length_flatMap, length, arity]

theorem packs_append_array {α : Type*} (f : α → Value) (other : code ≠ .x) (v : Vector α n) :
    Packs (List.replicate n code ++ rest) (v.toList.map f ++ more) ↔
      (∀ x ∈ v.toList, code.accepts (f x) = true) ∧ Packs rest more := by
  have entry : ∀ x, [f x].length = arity [code] := by simp [arity, other]
  have blocks : Packs ((List.replicate n [code]).flatten ++ rest)
      (v.toList.flatMap (fun x => [f x]) ++ more) ↔ _ := packs_append_blocks entry v
  rw [List.flatten_replicate_singleton, ← List.map_eq_flatMap] at blocks
  rw [blocks]
  simp only [packs_value other, packs_nil, and_true]

theorem packs_array {α : Type*} (f : α → Value) (other : code ≠ .x) (v : Vector α n) :
    Packs (List.replicate n code) (v.toList.map f) ↔
      ∀ x ∈ v.toList, code.accepts (f x) = true := by
  have ended : Packs (List.replicate n code ++ []) (v.toList.map f ++ []) ↔ _ :=
    packs_append_array f other v
  rwa [List.append_nil, List.append_nil, and_iff_left packs_nil] at ended

theorem accepts_int (integer : code ≠ .f) {v : ℤ} :
    code.accepts (.int v) = true ↔ code.low ≤ v ∧ v < code.high := by
  cases code <;> first | exact absurd rfl integer | exact decide_eq_true_iff

/-- An unsigned value fits a code as long as it is below the end of its range. -/
theorem accepts_uint (integer : code ≠ .f) {v : BitVec n} :
    code.accepts (.uint v) = true ↔ (v.toNat : ℤ) < code.high := by
  have low : code.low ≤ v.toNat := by
    have : code.low ≤ 0 := by cases code <;> decide
    omega
  rw [Value.uint, accepts_int integer, and_iff_right low]

@[simp] theorem accepts_uint8 (v : BitVec 8) : Code.B.accepts (.uint v) = true :=
  (accepts_uint (by decide)).mpr (by rw [Code.high]; exact_mod_cast v.isLt)

@[simp] theorem accepts_uint16 (v : BitVec 16) : Code.H.accepts (.uint v) = true :=
  (accepts_uint (by decide)).mpr (by rw [Code.high]; exact_mod_cast v.isLt)

@[simp] theorem accepts_uint32 (v : BitVec 32) : Code.I.accepts (.uint v) = true :=
  (accepts_uint (by decide)).mpr (by rw [Code.high]; exact_mod_cast v.isLt)

@[simp] theorem accepts_sint16 (v : BitVec 16) : Code.h.accepts (.sint v) = true :=
  (accepts_int (by decide)).mpr ⟨BitVec.le_toInt v, BitVec.toInt_lt⟩

@[simp] theorem accepts_sint32 (v : BitVec 32) : Code.i.accepts (.sint v) = true :=
  (accepts_int (by decide)).mpr ⟨BitVec.le_toInt v, BitVec.toInt_lt⟩

@[simp] theorem accepts_float (bits : BitVec 32) : Code.f.accepts (.float bits) = true := rfl

/-- A signed code takes the lower half of the unsigned values. -/
theorem accepts_b_uint8 (v : BitVec 8) : Code.b.accepts (.uint v) = true ↔ v.toNat < 2 ^ 7 := by
  rw [accepts_uint (by decide), Code.high]
  exact_mod_cast Iff.rfl

theorem accepts_h_uint16 (v : BitVec 16) :
    Code.h.accepts (.uint v) = true ↔ v.toNat < 2 ^ 15 := by
  rw [accepts_uint (by decide), Code.high]
  exact_mod_cast Iff.rfl

end StructPack
