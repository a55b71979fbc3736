import G1Jepa.Crc
import G1Jepa.Library.StructPack

/-!
# The packed messages

`CRC.Crc` of `utils/crc.py` for the four messages that it knows. The fields have the widths of their
IDL types, and floats are given by their bits. The format of the state of the Go2 packs some
unsigned fields with signed codes, so that its checksum fails where a temperature is too high; all
other messages have one. Messages of one type with the same checksum differ in the field `crc` at
most, or in two bits that are at least 32 bits apart.
-/

namespace G1Jepa.Unitree

open StructPack
open StructPack.Value (uint sint float)

/-- A `float32`, by its bits. -/
abbrev Single := BitVec 32

/-- The values that `origData.extend` appends for an array. -/
def uints {w n : ℕ} (v : Vector (BitVec w) n) : List Value := v.toList.map uint

def sints {w n : ℕ} (v : Vector (BitVec w) n) : List Value := v.toList.map sint

def floats {n : ℕ} (v : Vector Single n) : List Value := v.toList.map float

/-- The number before a code of a format. -/
abbrev rep (n : ℕ) (code : Code) : List Code := List.replicate n code

/-- A part of a format that is repeated. -/
abbrev times (n : ℕ) (fmt : List Code) : List Code := (List.replicate n fmt).flatten

namespace UnitreeHg

/-- `unitree_hg.msg.dds_.MotorCmd_`. -/
structure MotorCmd where
  mode : BitVec 8
  q : Single
  dq : Single
  tau : Single
  kp : Single
  kd : Single
  reserve : BitVec 32

/-- `unitree_hg.msg.dds_.LowCmd_`. -/
structure LowCmd where
  modePr : BitVec 8
  modeMachine : BitVec 8
  motorCmd : Vector MotorCmd 35
  reserve : Vector (BitVec 32) 4
  crc : BitVec 32

/-- `unitree_hg.msg.dds_.IMUState_`. -/
structure IMUState where
  quaternion : Vector Single 4
  gyroscope : Vector Single 3
  accelerometer : Vector Single 3
  rpy : Vector Single 3
  temperature : BitVec 16

/-- `unitree_hg.msg.dds_.MotorState_`. -/
structure MotorState where
  mode : BitVec 8
  q : Single
  dq : Single
  ddq : Single
  tauEst : Single
  temperature : Vector (BitVec 16) 2
  vol : Single
  sensor : Vector (BitVec 32) 2
  motorstate : BitVec 32
  reserve : Vector (BitVec 32) 4

/-- `unitree_hg.msg.dds_.LowState_`. -/
structure LowState where
  version : Vector (BitVec 32) 2
  modePr : BitVec 8
  modeMachine : BitVec 8
  tick : BitVec 32
  imuState : IMUState
  motorState : Vector MotorState 35
  wirelessRemote : Vector (BitVec 8) 40
  reserve : Vector (BitVec 32) 4
  crc : BitVec 32

/-- What is appended for one motor. -/
def MotorCmd.values (motor : MotorCmd) : List Value :=
  [uint motor.mode, float motor.q, float motor.dq, float motor.tau, float motor.kp,
    float motor.kd, uint motor.reserve]

/-- `origData` of `__PackHGLowCmd` before the checksum is appended. -/
def LowCmd.values (cmd : LowCmd) : List Value :=
  [uint cmd.modePr, uint cmd.modeMachine] ++ cmd.motorCmd.toList.flatMap MotorCmd.values ++
    uints cmd.reserve

/-- What is appended for the inertial unit. -/
def IMUState.values (imu : IMUState) : List Value :=
  floats imu.quaternion ++ floats imu.gyroscope ++ floats imu.accelerometer ++ floats imu.rpy ++
    [sint imu.temperature]

/-- What is appended for one motor. -/
def MotorState.values (motor : MotorState) : List Value :=
  [uint motor.mode, float motor.q, float motor.dq, float motor.ddq, float motor.tauEst] ++
    sints motor.temperature ++ [float motor.vol] ++ uints motor.sensor ++
    [uint motor.motorstate] ++ uints motor.reserve

/-- `origData` of `__PackHGLowState` before the checksum is appended. -/
def LowState.values (state : LowState) : List Value :=
  uints state.version ++ [uint state.modePr, uint state.modeMachine, uint state.tick] ++
    state.imuState.values ++ state.motorState.toList.flatMap MotorState.values ++
    uints state.wirelessRemote ++ uints state.reserve

end UnitreeHg

namespace UnitreeGo

/-- `unitree_go.msg.dds_.MotorCmd_`. -/
structure MotorCmd where
  mode : BitVec 8
  q : Single
  dq : Single
  tau : Single
  kp : Single
  kd : Single
  reserve : Vector (BitVec 32) 3

/-- `unitree_go.msg.dds_.BmsCmd_`. -/
structure BmsCmd where
  off : BitVec 8
  reserve : Vector (BitVec 8) 3

/-- `unitree_go.msg.dds_.LowCmd_`. -/
structure LowCmd where
  head : Vector (BitVec 8) 2
  levelFlag : BitVec 8
  frameReserve : BitVec 8
  sn : Vector (BitVec 32) 2
  version : Vector (BitVec 32) 2
  bandwidth : BitVec 16
  motorCmd : Vector MotorCmd 20
  bmsCmd : BmsCmd
  wirelessRemote : Vector (BitVec 8) 40
  led : Vector (BitVec 8) 12
  fan : Vector (BitVec 8) 2
  gpio : BitVec 8
  reserve : BitVec 32
  crc : BitVec 32

/-- `unitree_go.msg.dds_.IMUState_`. -/
structure IMUState where
  quaternion : Vector Single 4
  gyroscope : Vector Single 3
  accelerometer : Vector Single 3
  rpy : Vector Single 3
  temperature : BitVec 8

/-- `unitree_go.msg.dds_.MotorState_`. -/
structure MotorState where
  mode : BitVec 8
  q : Single
  dq : Single
  ddq : Single
  tauEst : Single
  qRaw : Single
  dqRaw : Single
  ddqRaw : Single
  temperature : BitVec 8
  lost : BitVec 32
  reserve : Vector (BitVec 32) 2

/-- `unitree_go.msg.dds_.BmsState_`. -/
structure BmsState where
  versionHigh : BitVec 8
  versionLow : BitVec 8
  status : BitVec 8
  soc : BitVec 8
  current : BitVec 32
  cycle : BitVec 16
  bqNtc : Vector (BitVec 8) 2
  mcuNtc : Vector (BitVec 8) 2
  cellVol : Vector (BitVec 16) 15

/-- `unitree_go.msg.dds_.LowState_`. -/
structure LowState where
  head : Vector (BitVec 8) 2
  levelFlag : BitVec 8
  frameReserve : BitVec 8
  sn : Vector (BitVec 32) 2
  version : Vector (BitVec 32) 2
  bandwidth : BitVec 16
  imuState : IMUState
  motorState : Vector MotorState 20
  bmsState : BmsState
  footForce : Vector (BitVec 16) 4
  footForceEst : Vector (BitVec 16) 4
  tick : BitVec 32
  wirelessRemote : Vector (BitVec 8) 40
  bitFlag : BitVec 8
  adcReel : Single
  temperatureNtc1 : BitVec 8
  temperatureNtc2 : BitVec 8
  powerV : Single
  powerA : Single
  fanFrequency : Vector (BitVec 16) 4
  reserve : BitVec 32
  crc : BitVec 32

/-- What is appended for one motor. -/
def MotorCmd.values (motor : MotorCmd) : List Value :=
  [uint motor.mode, float motor.q, float motor.dq, float motor.tau, float motor.kp,
    float motor.kd] ++ uints motor.reserve

/-- `origData` of `__PackLowCmd` before the checksum is appended. -/
def LowCmd.values (cmd : LowCmd) : List Value :=
  uints cmd.head ++ [uint cmd.levelFlag, uint cmd.frameReserve] ++ uints cmd.sn ++
    uints cmd.version ++ [uint cmd.bandwidth] ++ cmd.motorCmd.toList.flatMap MotorCmd.values ++
    [uint cmd.bmsCmd.off] ++ uints cmd.bmsCmd.reserve ++ uints cmd.wirelessRemote ++
    uints cmd.led ++ uints cmd.fan ++ [uint cmd.gpio, uint cmd.reserve]

/-- What is appended for the inertial unit. -/
def IMUState.values (imu : IMUState) : List Value :=
  floats imu.quaternion ++ floats imu.gyroscope ++ floats imu.accelerometer ++ floats imu.rpy ++
    [uint imu.temperature]

/-- What is appended for one motor. -/
def MotorState.values (motor : MotorState) : List Value :=
  [uint motor.mode, float motor.q, float motor.dq, float motor.ddq, float motor.tauEst,
    float motor.qRaw, float motor.dqRaw, float motor.ddqRaw, uint motor.temperature,
    uint motor.lost] ++ uints motor.reserve

/-- What is appended for the battery. -/
def BmsState.values (bms : BmsState) : List Value :=
  [uint bms.versionHigh, uint bms.versionLow, uint bms.status, uint bms.soc,
    sint bms.current, uint bms.cycle] ++ uints bms.bqNtc ++ uints bms.mcuNtc ++
    uints bms.cellVol

/-- `origData` of `__PackLowState` before the checksum is appended. -/
def LowState.values (state : LowState) : List Value :=
  uints state.head ++ [uint state.levelFlag, uint state.frameReserve] ++ uints state.sn ++
    uints state.version ++ [uint state.bandwidth] ++ state.imuState.values ++
    state.motorState.toList.flatMap MotorState.values ++ state.bmsState.values ++
    sints state.footForce ++ sints state.footForceEst ++ [uint state.tick] ++
    uints state.wirelessRemote ++
    [uint state.bitFlag, float state.adcReel, uint state.temperatureNtc1,
      uint state.temperatureNtc2, float state.powerV, float state.powerA] ++
    uints state.fanFrequency ++ [uint state.reserve]

end UnitreeGo

/-! ## The formats -/

/-- The parts of the formats for one motor. -/
def packFmtMotorCmd : List Code :=
  rep 1 .B ++ rep 3 .x ++ rep 5 .f ++ rep 3 .I

def packFmtMotorState : List Code :=
  rep 1 .B ++ rep 3 .x ++ rep 7 .f ++ rep 1 .b ++ rep 3 .x ++ rep 3 .I

def packFmtHGMotorCmd : List Code :=
  rep 1 .B ++ rep 3 .x ++ rep 5 .f ++ rep 1 .I

def packFmtHGMotorState : List Code :=
  rep 1 .B ++ rep 3 .x ++ rep 4 .f ++ rep 2 .h ++ rep 1 .f ++ rep 7 .I

/-- `__packFmtLowCmd`. -/
def packFmtLowCmd : List Code :=
  rep 4 .B ++ rep 4 .I ++ rep 1 .H ++ rep 2 .x ++
    times 20 packFmtMotorCmd ++ rep 4 .B ++
    (rep 55 .B ++ rep 1 .x ++ rep 2 .I)

/-- `__packFmtLowState`. -/
def packFmtLowState : List Code :=
  rep 4 .B ++ rep 4 .I ++ rep 1 .H ++ rep 2 .x ++ (rep 13 .f ++ rep 1 .b ++ rep 3 .x) ++
    times 20 packFmtMotorState ++
    (rep 4 .B ++ rep 1 .i ++ rep 1 .H ++ rep 4 .b ++ rep 15 .H) ++
    (rep 8 .h ++ rep 1 .I ++ rep 41 .B ++ rep 3 .x ++ rep 1 .f ++ rep 2 .b ++ rep 2 .x ++
      rep 2 .f ++ rep 4 .h ++ rep 2 .I)

/-- `__packFmtHGLowCmd`. -/
def packFmtHGLowCmd : List Code :=
  rep 2 .B ++ rep 2 .x ++ times 35 packFmtHGMotorCmd ++ rep 5 .I

/-- `__packFmtHGLowState`. -/
def packFmtHGLowState : List Code :=
  rep 2 .I ++ rep 2 .B ++ rep 2 .x ++ rep 1 .I ++ (rep 13 .f ++ rep 1 .h ++ rep 2 .x) ++
    times 35 packFmtHGMotorState ++
    (rep 40 .B ++ rep 5 .I)

/-! ## The checksum -/

/-- The messages that are told apart by `msg.__idl_typename__`. -/
inductive Msg
  | goLowCmd (cmd : UnitreeGo.LowCmd)
  | goLowState (state : UnitreeGo.LowState)
  | hgLowCmd (cmd : UnitreeHg.LowCmd)
  | hgLowState (state : UnitreeHg.LowState)
  | other (typename : String)

/-- The exceptions: `struct.error`, or a `TypeError` with its text. -/
inductive CrcError
  | structError
  | typeError (text : String)
  deriving DecidableEq

/-- The end that the four packing functions share: the checksum is appended, the data are packed,
and the bytes are read as words. -/
def packWords (fmt : List Code) (values : List Value) (crc : BitVec 32) :
    Except CrcError (List (BitVec 32)) :=
  match pack fmt (values ++ [.uint crc]) with
  | some bytes => .ok (trans bytes)
  | none => .error .structError

namespace Msg

/-- `__PackLowCmd`, `__PackLowState`, `__PackHGLowCmd` and `__PackHGLowState`, by the type. -/
def packed : Msg → Except CrcError (List (BitVec 32))
  | goLowCmd cmd => packWords packFmtLowCmd cmd.values cmd.crc
  | goLowState state => packWords packFmtLowState state.values state.crc
  | hgLowCmd cmd => packWords packFmtHGLowCmd cmd.values cmd.crc
  | hgLowState state => packWords packFmtHGLowState state.values state.crc
  | other _ => .error (.typeError "unknown IDL message type to crc")

/-- `CRC.Crc` with `_crc_py`, which `__Crc32` takes on all platforms but Linux. -/
def crc (msg : Msg) : Except CrcError (BitVec 32) := msg.packed.map crcPy

/-- `msg.crc = value`, which is not possible for an unknown type. -/
def setCrc : Msg → BitVec 32 → Msg
  | goLowCmd cmd, value => goLowCmd { cmd with crc := value }
  | goLowState state, value => goLowState { state with crc := value }
  | hgLowCmd cmd, value => hgLowCmd { cmd with crc := value }
  | hgLowState state, value => hgLowState { state with crc := value }
  | other typename, _ => other typename

/-- `msg.__idl_typename__`. -/
def typename : Msg → String
  | goLowCmd _ => "unitree_go.msg.dds_.LowCmd_"
  | goLowState _ => "unitree_go.msg.dds_.LowState_"
  | hgLowCmd _ => "unitree_hg.msg.dds_.LowCmd_"
  | hgLowState _ => "unitree_hg.msg.dds_.LowState_"
  | other typename => typename

end Msg

/-! ## The values determine the fields -/

variable {s s' : List Value}

theorem array_code {α : Type*} {n : ℕ} {f : α → Value} (injective : Function.Injective f) :
    PrefixCode fun v : Vector α n => v.toList.map f := by
  refine PrefixCode.of_length (fun v => v.length_toList ▸ List.length_map f) fun v v' same => ?_
  exact Vector.toList_inj.mp (List.map_injective_iff.mpr injective same)

@[simp] theorem uints_append {w n : ℕ} {v v' : Vector (BitVec w) n} :
    uints v ++ s = uints v' ++ s' ↔ v = v' ∧ s = s' :=
  (array_code Value.uint_injective).append_iff

@[simp] theorem sints_append {w n : ℕ} {v v' : Vector (BitVec w) n} :
    sints v ++ s = sints v' ++ s' ↔ v = v' ∧ s = s' :=
  (array_code Value.sint_injective).append_iff

@[simp] theorem floats_append {n : ℕ} {v v' : Vector Single n} :
    floats v ++ s = floats v' ++ s' ↔ v = v' ∧ s = s' :=
  (array_code fun _ _ same => Value.float.inj same).append_iff

@[simp] theorem uint_inj {w : ℕ} {v v' : BitVec w} : Value.uint v = .uint v' ↔ v = v' :=
  Value.uint_injective.eq_iff

@[simp] theorem sint_inj {w : ℕ} {v v' : BitVec w} : Value.sint v = .sint v' ↔ v = v' :=
  Value.sint_injective.eq_iff

namespace UnitreeHg

theorem MotorCmd.values_code : PrefixCode MotorCmd.values := by
  rintro ⟨⟩ ⟨⟩ s s' same
  simpa [values, and_assoc] using same

theorem IMUState.values_code : PrefixCode IMUState.values := by
  rintro ⟨⟩ ⟨⟩ s s' same
  simpa [values, and_assoc] using same

theorem MotorState.values_code : PrefixCode MotorState.values := by
  rintro ⟨⟩ ⟨⟩ s s' same
  simpa [values, and_assoc] using same

theorem LowCmd.values_injective {cmd cmd' : LowCmd} (same : cmd.values = cmd'.values) :
    { cmd with crc := 0 } = { cmd' with crc := 0 } := by
  have ended := congrArg (· ++ []) same
  simpa only [values, List.append_assoc, List.cons_append, List.nil_append, List.cons.injEq,
    uint_inj, uints_append, (MotorCmd.values_code.vector 35).append_iff, LowCmd.mk.injEq,
    and_true] using ended

theorem LowState.values_injective {state state' : LowState} (same : state.values = state'.values) :
    { state with crc := 0 } = { state' with crc := 0 } := by
  have ended := congrArg (· ++ []) same
  simpa only [values, List.append_assoc, List.cons_append, List.nil_append, List.cons.injEq,
    uint_inj, uints_append, IMUState.values_code.append_iff,
    (MotorState.values_code.vector 35).append_iff, LowState.mk.injEq, and_true] using ended

end UnitreeHg

namespace UnitreeGo

theorem MotorCmd.values_code : PrefixCode MotorCmd.values := by
  rintro ⟨⟩ ⟨⟩ s s' same
  simpa [values, and_assoc] using same

theorem IMUState.values_code : PrefixCode IMUState.values := by
  rintro ⟨⟩ ⟨⟩ s s' same
  simpa [values, and_assoc] using same

theorem MotorState.values_code : PrefixCode MotorState.values := by
  rintro ⟨⟩ ⟨⟩ s s' same
  simpa [values, and_assoc] using same

theorem BmsState.values_code : PrefixCode BmsState.values := by
  rintro ⟨⟩ ⟨⟩ s s' same
  simpa [values, and_assoc] using same

theorem LowCmd.values_injective {cmd cmd' : LowCmd} (same : cmd.values = cmd'.values) :
    { cmd with crc := 0 } = { cmd' with crc := 0 } := by
  obtain ⟨_, _, _, _, _, _, _, ⟨_, _⟩, _, _, _, _, _, _⟩ := cmd
  obtain ⟨_, _, _, _, _, _, _, ⟨_, _⟩, _, _, _, _, _, _⟩ := cmd'
  have ended := congrArg (· ++ []) same
  simpa only [values, List.append_assoc, List.cons_append, List.nil_append, List.cons.injEq,
    uint_inj, uints_append, (MotorCmd.values_code.vector 20).append_iff, LowCmd.mk.injEq,
    BmsCmd.mk.injEq, and_assoc, and_true] using ended

theorem LowState.values_injective {state state' : LowState} (same : state.values = state'.values) :
    { state with crc := 0 } = { state' with crc := 0 } := by
  have ended := congrArg (· ++ []) same
  simpa only [values, List.append_assoc, List.cons_append, List.nil_append, List.cons.injEq,
    uint_inj, Value.float.injEq, uints_append, sints_append, IMUState.values_code.append_iff,
    BmsState.values_code.append_iff, (MotorState.values_code.vector 20).append_iff,
    LowState.mk.injEq, and_true] using ended

end UnitreeGo

/-! ## Messages as one kind of data -/

section

variable {body : List Code} {values : List Value} {crc crc' : BitVec 32} {words : List (BitVec 32)}

/-- The checksum is the last word of a format. -/
theorem pack_crc (length : values.length = arity body) :
    pack (body ++ [.I]) (values ++ [.uint crc]) =
      (pack body values).map fun bytes => bytes ++ Code.I.bytes (.uint crc) := by
  have last : pack [.I] [.uint crc] = some (Code.I.bytes (.uint crc)) := by
    rw [pack_value (by decide), if_pos (accepts_uint32 crc)]
    exact congrArg some (List.append_nil _)
  rw [pack_append length, last]
  cases pack body values <;> rfl

theorem packWords_eq_ok (length : values.length = arity body) :
    packWords (body ++ [.I]) values crc = .ok words ↔
      ∃ bytes, pack body values = some bytes ∧
        trans (bytes ++ Code.I.bytes (.uint crc)) = words := by
  rw [packWords, pack_crc length]
  cases pack body values <;> simp

end

namespace Msg

/-- The format by the type. -/
def fmt : Msg → List Code
  | goLowCmd _ => packFmtLowCmd
  | goLowState _ => packFmtLowState
  | hgLowCmd _ => packFmtHGLowCmd
  | hgLowState _ => packFmtHGLowState
  | other _ => []

/-- The format without the checksum. -/
def body (msg : Msg) : List Code := msg.fmt.dropLast

/-- The values without the checksum. -/
def values : Msg → List Value
  | goLowCmd cmd => cmd.values
  | goLowState state => state.values
  | hgLowCmd cmd => cmd.values
  | hgLowState state => state.values
  | other _ => []

/-- The type is one of the four. -/
def Known (msg : Msg) : Prop := ∀ typename, msg ≠ other typename

theorem known_of_packed {msg : Msg} {words : List (BitVec 32)} (packs : msg.packed = .ok words) :
    msg.Known := by
  rintro typename rfl
  exact absurd packs (by simp [packed])

/-- The four formats end with the checksum, and what comes before it is made of whole words. -/
theorem formats_end :
    ∀ fmt ∈ [packFmtLowCmd, packFmtLowState, packFmtHGLowCmd, packFmtHGLowState],
      fmt = fmt.dropLast ++ [.I] ∧ 4 ∣ (fmt.dropLast.map Code.size).sum := by
  decide +kernel

/-- No value of the four formats lies in two words. -/
theorem formats_aligned :
    ∀ fmt ∈ [packFmtLowCmd, packFmtLowState, packFmtHGLowCmd, packFmtHGLowState],
      Aligned 0 fmt.dropLast := by
  decide +kernel

theorem fmt_mem {msg : Msg} (known : msg.Known) :
    msg.fmt ∈ [packFmtLowCmd, packFmtLowState, packFmtHGLowCmd, packFmtHGLowState] := by
  cases msg with
  | other typename => exact absurd rfl (known typename)
  | _ => simp [fmt]

theorem length_values (msg : Msg) : msg.values.length = arity msg.body := by
  cases msg with
  | goLowCmd cmd =>
      have count : arity packFmtLowCmd.dropLast = 249 := by decide +kernel
      simp [values, body, fmt, count, UnitreeGo.LowCmd.values, UnitreeGo.MotorCmd.values, uints,
        List.length_flatMap]
  | goLowState state =>
      have count : arity packFmtLowState.dropLast = 348 := by decide +kernel
      simp [values, body, fmt, count, UnitreeGo.LowState.values, UnitreeGo.MotorState.values,
        UnitreeGo.IMUState.values, UnitreeGo.BmsState.values, uints, sints, floats,
        List.length_flatMap]
  | hgLowCmd cmd =>
      have count : arity packFmtHGLowCmd.dropLast = 251 := by decide +kernel
      simp [values, body, fmt, count, UnitreeHg.LowCmd.values, UnitreeHg.MotorCmd.values, uints,
        List.length_flatMap]
  | hgLowState state =>
      have count : arity packFmtHGLowState.dropLast = 588 := by decide +kernel
      simp [values, body, fmt, count, UnitreeHg.LowState.values, UnitreeHg.MotorState.values,
        UnitreeHg.IMUState.values, uints, sints, floats, List.length_flatMap]
  | other typename => rfl

/-- Every message packs its values behind one format, and its checksum last. -/
theorem exists_packed_eq {msg : Msg} (known : msg.Known) :
    ∃ crc, msg.packed = packWords (msg.body ++ [.I]) msg.values crc := by
  rw [body, ← (formats_end _ (fmt_mem known)).1]
  cases msg with
  | goLowCmd cmd => exact ⟨cmd.crc, rfl⟩
  | goLowState state => exact ⟨state.crc, rfl⟩
  | hgLowCmd cmd => exact ⟨cmd.crc, rfl⟩
  | hgLowState state => exact ⟨state.crc, rfl⟩
  | other typename => exact absurd rfl (known typename)

theorem setCrc_setCrc (msg : Msg) (value value' : BitVec 32) :
    (msg.setCrc value).setCrc value' = msg.setCrc value' := by
  cases msg <;> rfl

/-- Messages of one type with the same values have the same fields but for `crc`. -/
theorem setCrc_eq_of_values {msg msg' : Msg} (kind : msg.typename = msg'.typename)
    (known : msg.Known) (known' : msg'.Known) (same : msg.values = msg'.values) :
    msg.setCrc 0 = msg'.setCrc 0 := by
  cases msg with
  | goLowCmd cmd =>
      cases msg' with
      | goLowCmd cmd' => exact congrArg goLowCmd (UnitreeGo.LowCmd.values_injective same)
      | other typename => exact absurd rfl (known' typename)
      | _ => exact absurd kind (by simp [typename])
  | goLowState state =>
      cases msg' with
      | goLowState state' => exact congrArg goLowState (UnitreeGo.LowState.values_injective same)
      | other typename => exact absurd rfl (known' typename)
      | _ => exact absurd kind (by simp [typename])
  | hgLowCmd cmd =>
      cases msg' with
      | hgLowCmd cmd' => exact congrArg hgLowCmd (UnitreeHg.LowCmd.values_injective same)
      | other typename => exact absurd rfl (known' typename)
      | _ => exact absurd kind (by simp [typename])
  | hgLowState state =>
      cases msg' with
      | hgLowState state' => exact congrArg hgLowState (UnitreeHg.LowState.values_injective same)
      | other typename => exact absurd rfl (known' typename)
      | _ => exact absurd kind (by simp [typename])
  | other typename => exact absurd rfl (known typename)

theorem body_eq_of_typename {msg msg' : Msg} (kind : msg.typename = msg'.typename)
    (known : msg.Known) (known' : msg'.Known) : msg.body = msg'.body := by
  cases msg with
  | other typename => exact absurd rfl (known typename)
  | _ =>
      cases msg' with
      | other typename => exact absurd rfl (known' typename)
      | _ => first | rfl | exact absurd kind (by simp [typename])

/-- What a message that is packed has packed. -/
theorem exists_bytes {msg : Msg} {words : List (BitVec 32)} (packs : msg.packed = .ok words) :
    ∃ bytes last, pack msg.body msg.values = some bytes ∧
      bytes.length = 4 * ((msg.body.map Code.size).sum / 4) ∧ last.length = 4 ∧
      trans (bytes ++ last) = words := by
  have known := known_of_packed packs
  obtain ⟨crc, same⟩ := exists_packed_eq known
  rw [same, packWords_eq_ok (length_values msg)] at packs
  obtain ⟨bytes, written, rfl⟩ := packs
  have whole := (formats_end _ (fmt_mem known)).2
  exact ⟨bytes, _, written, (length_pack written).trans (Nat.mul_div_cancel' whole).symm,
    length_bytes (accepts_uint32 crc), rfl⟩

/-- The words of a message determine its fields but for `crc`. -/
theorem setCrc_eq_of_packed {msg received : Msg} {words words' : List (BitVec 32)}
    (kind : received.typename = msg.typename) (packs : received.packed = .ok words)
    (packs' : msg.packed = .ok words') :
    words.length = words'.length ∧
      (words = words' → ∀ c, received.setCrc c = msg.setCrc c) := by
  have known := known_of_packed packs
  have known' := known_of_packed packs'
  obtain ⟨bytes, last, written, whole, four, rfl⟩ := exists_bytes packs
  obtain ⟨bytes', last', written', whole', four', rfl⟩ := exists_bytes packs'
  rw [body_eq_of_typename kind known known'] at written whole
  refine ⟨(length_trans whole four).trans (length_trans whole' four').symm, fun same c => ?_⟩
  obtain rfl := trans_injective whole whole' four four' same
  have fields := setCrc_eq_of_values kind known known' (pack_injective written written')
  rw [← setCrc_setCrc received 0, fields, setCrc_setCrc]

/-- A change of one value is a change of one word. -/
theorem exists_word_of_field {msg received : Msg} {words words' : List (BitVec 32)} {k : ℕ}
    (kind : received.typename = msg.typename) (packs : received.packed = .ok words)
    (packs' : msg.packed = .ok words') (single : ∀ m ≠ k, received.values[m]? = msg.values[m]?) :
    ∃ q : ℕ, ∀ m ≠ q, words[m]? = words'[m]? := by
  have known' := known_of_packed packs'
  obtain ⟨bytes, last, written, whole, four, rfl⟩ := exists_bytes packs
  obtain ⟨bytes', last', written', whole', four', rfl⟩ := exists_bytes packs'
  rw [body_eq_of_typename kind (known_of_packed packs) known'] at written whole
  obtain ⟨q, agree⟩ := exists_word_of_single
    (formats_aligned _ (fmt_mem known')) written written' single
  refine ⟨q, fun m other => trans_agree whole whole' four four' (fun m outside => ?_) other⟩
  exact agree m (by rwa [Nat.zero_add])

end Msg

/-! ## Values in range -/

section

open StructPack.Code (x b B h H i I f)

theorem UnitreeHg.MotorCmd.packs (motor : UnitreeHg.MotorCmd) :
    Packs packFmtHGMotorCmd motor.values := by
  have split : packFmtHGMotorCmd = [B, x, x, x, f, f, f, f, f, I] := rfl
  rw [split, values]
  simp [packs_nil]

theorem UnitreeHg.MotorState.packs (motor : UnitreeHg.MotorState) :
    Packs packFmtHGMotorState motor.values := by
  have split : packFmtHGMotorState = B :: x :: x :: x :: f :: f :: f :: f ::
      (rep 2 h ++ f :: (rep 2 I ++ I :: rep 4 I)) := rfl
  rw [split, values]
  simp [uints, sints, packs_append_array, packs_array]

theorem UnitreeGo.MotorCmd.packs (motor : UnitreeGo.MotorCmd) :
    Packs packFmtMotorCmd motor.values := by
  have split : packFmtMotorCmd = B :: x :: x :: x :: f :: f :: f :: f :: f :: rep 3 I := rfl
  rw [split, values]
  simp [uints, packs_array]

theorem UnitreeGo.MotorState.packs_iff (motor : UnitreeGo.MotorState) :
    Packs packFmtMotorState motor.values ↔ motor.temperature.toNat < 2 ^ 7 := by
  have split : packFmtMotorState = B :: x :: x :: x :: f :: f :: f :: f :: f :: f :: f :: b ::
      x :: x :: x :: I :: rep 2 I := rfl
  rw [split, values]
  simp [uints, packs_array, accepts_b_uint8]

theorem UnitreeHg.MotorCmd.length_values (motor : UnitreeHg.MotorCmd) :
    motor.values.length = arity packFmtHGMotorCmd := rfl

theorem UnitreeHg.MotorState.length_values (motor : UnitreeHg.MotorState) :
    motor.values.length = arity packFmtHGMotorState := by
  have count : arity packFmtHGMotorState = 15 := by decide
  simp [values, uints, sints, count]

theorem UnitreeGo.MotorCmd.length_values (motor : UnitreeGo.MotorCmd) :
    motor.values.length = arity packFmtMotorCmd := by
  have count : arity packFmtMotorCmd = 9 := by decide
  simp [values, uints, count]

theorem UnitreeGo.MotorState.length_values (motor : UnitreeGo.MotorState) :
    motor.values.length = arity packFmtMotorState := by
  have count : arity packFmtMotorState = 12 := by decide
  simp [values, uints, count]

theorem UnitreeHg.LowCmd.packs (cmd : UnitreeHg.LowCmd) :
    Packs packFmtHGLowCmd.dropLast cmd.values := by
  have split : packFmtHGLowCmd.dropLast = B :: B :: x :: x ::
      (times 35 packFmtHGMotorCmd ++ rep 4 I) := by
    decide +kernel
  rw [split, values]
  simp [packs_append_blocks MotorCmd.length_values, MotorCmd.packs, uints, packs_array]

theorem UnitreeHg.LowState.packs (state : UnitreeHg.LowState) :
    Packs packFmtHGLowState.dropLast state.values := by
  have split : packFmtHGLowState.dropLast = rep 2 I ++ (B :: B :: x :: x :: I ::
      (rep 4 f ++ (rep 3 f ++ (rep 3 f ++ (rep 3 f ++ (h :: x :: x ::
        (times 35 packFmtHGMotorState ++ (rep 40 B ++ rep 4 I)))))))) := by
    decide +kernel
  rw [split, values, IMUState.values]
  simp [packs_append_blocks MotorState.length_values, MotorState.packs, uints, floats,
    packs_append_array, packs_array]

theorem UnitreeGo.LowCmd.packs (cmd : UnitreeGo.LowCmd) :
    Packs packFmtLowCmd.dropLast cmd.values := by
  have split : packFmtLowCmd.dropLast = rep 2 B ++ (B :: B :: (rep 2 I ++ (rep 2 I ++
      (H :: x :: x :: (times 20 packFmtMotorCmd ++ (B :: (rep 3 B ++ (rep 40 B ++
        (rep 12 B ++ (rep 2 B ++ [B, x, I])))))))))) := by
    decide +kernel
  rw [split, values]
  simp [packs_append_blocks MotorCmd.length_values, MotorCmd.packs, uints, packs_append_array,
    packs_nil]

/-- No temperature and no fan frequency is in the upper half of its range. -/
structure UnitreeGo.LowState.Signed (state : UnitreeGo.LowState) : Prop where
  imu : state.imuState.temperature.toNat < 2 ^ 7
  motors : ∀ motor ∈ state.motorState.toList, motor.temperature.toNat < 2 ^ 7
  bqNtc : ∀ temperature ∈ state.bmsState.bqNtc.toList, temperature.toNat < 2 ^ 7
  mcuNtc : ∀ temperature ∈ state.bmsState.mcuNtc.toList, temperature.toNat < 2 ^ 7
  temperatureNtc1 : state.temperatureNtc1.toNat < 2 ^ 7
  temperatureNtc2 : state.temperatureNtc2.toNat < 2 ^ 7
  fans : ∀ frequency ∈ state.fanFrequency.toList, frequency.toNat < 2 ^ 15

theorem UnitreeGo.LowState.packs_iff (state : UnitreeGo.LowState) :
    Packs packFmtLowState.dropLast state.values ↔ state.Signed := by
  have split : packFmtLowState.dropLast = rep 2 B ++ (B :: B :: (rep 2 I ++ (rep 2 I ++
      (H :: x :: x :: (rep 4 f ++ (rep 3 f ++ (rep 3 f ++ (rep 3 f ++ (b :: x :: x ::
        x :: (times 20 packFmtMotorState ++ (B :: B :: B :: B :: i :: H :: (rep 2 b ++
          (rep 2 b ++ (rep 15 H ++ (rep 4 h ++ (rep 4 h ++ (I :: (rep 40 B ++
            (B :: x :: x :: x :: f :: b :: b :: x :: x :: f :: f ::
              (rep 4 h ++ [I])))))))))))))))))))) := by
    decide +kernel
  rw [split, values, IMUState.values, BmsState.values]
  simp only [packs_append_blocks MotorState.length_values, MotorState.packs_iff, uints, sints,
    floats, packs_append_array, packs_value, packs_pad, List.append_assoc, List.cons_append,
    List.nil_append, ne_eq, reduceCtorEq, not_false_eq_true, accepts_uint8, accepts_uint16,
    accepts_uint32, accepts_sint16, accepts_sint32, accepts_float, accepts_b_uint8,
    accepts_h_uint16, implies_true, true_and, and_true, packs_nil]
  constructor
  · rintro ⟨imu, motors, bqNtc, mcuNtc, first, second, fans⟩
    exact ⟨imu, motors, bqNtc, mcuNtc, first, second, fans⟩
  · intro signed
    exact ⟨signed.imu, signed.motors, signed.bqNtc, signed.mcuNtc, signed.temperatureNtc1,
      signed.temperatureNtc2, signed.fans⟩

end

/-! ## The checksum -/

namespace Msg

theorem crc_eq_ok {msg : Msg} {c : BitVec 32} :
    msg.crc = .ok c ↔ ∃ words, msg.packed = .ok words ∧ crcPy words = c := by
  rw [crc]
  cases msg.packed <;> simp [Except.map]

theorem packed_returns_iff (msg : Msg) :
    (∃ words, msg.packed = .ok words) ↔ msg.Known ∧ Packs msg.body msg.values := by
  constructor
  · rintro ⟨words, packs⟩
    obtain ⟨bytes, last, written, -⟩ := exists_bytes packs
    exact ⟨known_of_packed packs, Option.isSome_iff_exists.mpr ⟨bytes, written⟩⟩
  · rintro ⟨known, fits⟩
    obtain ⟨crc, same⟩ := exists_packed_eq known
    obtain ⟨bytes, written⟩ := Option.isSome_iff_exists.mp fits
    exact ⟨_, same.trans ((packWords_eq_ok (length_values msg)).mpr ⟨bytes, written, rfl⟩)⟩

/-- Every message of a known type has a checksum, but for the state of a Go2 with a value that its
format packs with a signed code and that is in the upper half of its range. -/
theorem crc_returns_iff (msg : Msg) : (∃ c, msg.crc = .ok c) ↔
    msg.Known ∧ ∀ state, msg = goLowState state → state.Signed := by
  have checked : (∃ c, msg.crc = .ok c) ↔ ∃ words, msg.packed = .ok words := by
    simp [crc_eq_ok]
  rw [checked, packed_returns_iff]
  refine and_congr_right fun known => ?_
  cases msg with
  | goLowCmd cmd => exact iff_of_true cmd.packs (by simp)
  | goLowState state => exact state.packs_iff.trans (by simp)
  | hgLowCmd cmd => exact iff_of_true cmd.packs (by simp)
  | hgLowState state => exact iff_of_true state.packs (by simp)
  | other typename => exact absurd rfl (known typename)

/-- No change of one field is missed. -/
theorem setCrc_eq_of_single {msg received : Msg} {c : BitVec 32} {k : ℕ}
    (kind : received.typename = msg.typename) (computed : msg.crc = .ok c)
    (passed : received.crc = .ok c) (single : ∀ m ≠ k, received.values[m]? = msg.values[m]?) :
    received.setCrc c = msg.setCrc c := by
  obtain ⟨words', packs', sum'⟩ := crc_eq_ok.mp computed
  obtain ⟨words, packs, sum⟩ := crc_eq_ok.mp passed
  obtain ⟨length, determined⟩ := setCrc_eq_of_packed kind packs packs'
  obtain ⟨q, agree⟩ := exists_word_of_field kind packs packs' single
  exact determined (eq_of_crcPy_eq length (sum.trans sum'.symm) agree) c

end Msg

end G1Jepa.Unitree
