import G1Jepa.AnalyzeError
import G1Jepa.Library.BoundedDeque

/-!
# The calibration file and the online trigger

The two halves of `jepa_trigger.py`: `exportCalib` freezes the statistics of clean episodes in a
file, and `OnlineJepaTrigger` loads such a file and decides in every control step of an episode
whether to replan.
-/

namespace G1Jepa

/-! ## Text -/

/-- `str` of an integer. -/
def pyStr (n : ℤ) : String := n.repr

/-- `text.strip()`. -/
def strip (text : List Char) : List Char :=
  ((text.dropWhile Char.isWhitespace).reverse.dropWhile Char.isWhitespace).reverse

/-- `int` of a text of ASCII digits with an optional sign. -/
def pyInt (text : List Char) : Except PyError ℤ :=
  Fallible.orRaise (.valueError "invalid literal for int() with base 10")
    (match strip text with
    | '-' :: digits => (String.ofList digits).toNat?.map fun n : ℕ => -(n : ℤ)
    | '+' :: digits => (String.ofList digits).toNat?.map fun n : ℕ => (n : ℤ)
    | digits => (String.ofList digits).toNat?.map fun n : ℕ => (n : ℤ))

/-- `text.split(separator)[i]` for a separator of one character. -/
def splitPiece (separator : Char) (i : ℕ) (text : List Char) : Except PyError (List Char) :=
  Fallible.orRaise .indexError (text.splitOn separator)[i]?

/-- `int(tag.split("f")[1].split("s")[0])`. -/
def tagFrames (tag : String) : Except PyError ℤ := do
  let piece ← splitPiece 'f' 1 tag.toList
  let digits ← splitPiece 's' 0 piece
  pyInt digits

/-- `int(tag.split("s")[1].split("_")[0])`. -/
def tagStride (tag : String) : Except PyError ℤ := do
  let piece ← splitPiece 's' 1 tag.toList
  let digits ← splitPiece '_' 0 piece
  pyInt digits

/-! ## Exporting a calibration -/

/-- The content of a calibration file. -/
structure CalibJson (K : Type) where
  tag : String
  feature : FeatureName
  k : ℕ
  metric : Metric
  warmup : ℕ
  nCalib : ℕ
  camera : String
  frames : ℤ
  stride : ℤ
  globalMu : NanOr K
  globalSd : NanOr K
  buckets : Dict String (NanOr K × NanOr K)
  source : Option String := none

variable {K : Type} [Field K] [LinearOrder K] {D : ℕ}

/-- The rows of one episode that `export_calib` accumulates. -/
def exportRows (np : Numpy K) (ep : Latents K D) (name : FeatureName) (k : ℕ) (metric : Metric)
    (warmup : ℕ) : List (ErrorRow K) :=
  (errorRows np ep name k metric).filter fun row =>
    !(row.e.isNone || decide (row.t < warmup))

/-- The two loops pass over the same rows, although they write the condition differently. -/
theorem exportRows_eq_calibrateRows (np : Numpy K) (ep : Latents K D) (name : FeatureName) (k : ℕ)
    (metric : Metric) (warmup : ℕ) :
    exportRows np ep name k metric warmup = calibrateRows np ep name k metric warmup := by
  apply List.filter_congr
  intro row _
  have complement : decide (row.t < warmup) = !validMask warmup row := by
    rw [validMask, ← decide_not]
    exact decide_eq_decide.mpr not_le.symm
  rw [ErrorRow.masked, complement]

/-- `"wrist" in tag` selects the camera. -/
def tagCamera (tag : String) : String :=
  if "wrist".toList <:+: tag.toList then "robot0_eye_in_hand" else "agentview"

/-- `export_calib` on the episodes of a split. -/
def exportCalib (np : Numpy K) (split : List (Latents K D)) (tag : String)
    (feature : FeatureName) (k : ℕ) (metric : Metric) (warmup nCalib : ℕ) :
    Except PyError (CalibJson K) := do
  let eps := split.take nCalib
  let samples := eps.flatMap fun ep => rowSamples true (exportRows np ep feature k metric warmup)
  let buckets := Dict.group samples
  let allv := samples.map Prod.snd
  let frames ← tagFrames tag
  let stride ← tagStride tag
  .ok
    { tag, feature, k, metric, warmup, nCalib := eps.length, camera := tagCamera tag
      frames, stride
      globalMu := Numpy.mean allv
      globalSd := regularisedStd np allv
      buckets := Dict.ofItems ((Dict.items buckets).filterMap fun bucket =>
        if 15 ≤ bucket.2.length then
          some (pyStr bucket.1, Numpy.mean bucket.2, regularisedStd np bucket.2)
        else none) }

/-! ## The online trigger -/

/-- The constructor arguments that are not read from the calibration. -/
structure TriggerArgs (K : Type) [Field K] where
  kappaHigh : K := 25 / 10
  kappaLow : K := 1
  consec : ℕ := 2
  step : ℕ := 2

/-- The attributes that the constructor sets and no method changes. -/
structure TriggerConfig (K : Type) [Field K] extends TriggerArgs K where
  framesN : ℕ
  stride : ℕ
  k : ℕ
  feature : FeatureName
  metric : Metric
  warmup : ℕ
  camera : String
  buckets : Dict ℤ (NanOr K × NanOr K)
  gmu : NanOr K
  gsd : NanOr K

/-- `{int(b): tuple(v) for b, v in cal["buckets"].items()}`. -/
def loadBuckets (cal : CalibJson K) : Except PyError (Dict ℤ (NanOr K × NanOr K)) := do
  let pairs ← (Dict.items cal.buckets).mapM fun bucket => do
    let b ← pyInt bucket.1.toList
    .ok (b, bucket.2)
  .ok (Dict.ofItems pairs)

/-- The constructor; `deque(maxlen=frames * stride)` rejects a negative length. -/
def TriggerConfig.init (args : TriggerArgs K) (cal : CalibJson K) :
    Except PyError (TriggerConfig K) := do
  let buckets ← loadBuckets cal
  if cal.frames * cal.stride < 0 then .error (.valueError "maxlen must be non-negative")
  else
    .ok
      { toTriggerArgs := args
        framesN := cal.frames.toNat, stride := cal.stride.toNat, k := cal.k
        feature := cal.feature, metric := cal.metric, warmup := cal.warmup, camera := cal.camera
        buckets, gmu := cal.globalMu, gsd := cal.globalSd }

/-- `self.buckets.get(b, (self.gmu, self.gsd))`. -/
def TriggerConfig.lookup (cfg : TriggerConfig K) (b : ℤ) : NanOr K × NanOr K :=
  (cfg.buckets.lookup b).getD (cfg.gmu, cfg.gsd)

/-- The trigger with default arguments under a calibration that has no bucket. -/
def TriggerConfig.ofGlobal (gmu gsd : K) : TriggerConfig K where
  framesN := 16
  stride := 1
  k := 1
  feature := .mean
  metric := .abs
  warmup := 16
  camera := "agentview"
  buckets := ∅
  gmu := some gmu
  gsd := some gsd

/-- An entry of `dbg_log`. -/
structure DbgRow (K : Type) where
  t : ℕ
  bucket : ℤ
  fallback : Bool
  e : K
  mu : NanOr K
  sd : NanOr K
  z : NanOr K

/-- The attributes that `reset` initialises. -/
structure TriggerState (Row : Type) (K : Type) [Field K] (D : ℕ) (cfg : TriggerConfig K) where
  buf : BoundedDeque (List Row) (cfg.framesN * cfg.stride)
  hist : BoundedDeque (cfg.feature.Idx D → K) (2 * cfg.k + 1)
  run : ℕ
  armed : Bool
  nEncodes : ℕ
  zLog : List (ℕ × NanOr K)
  dbgLog : List (DbgRow K)

/-- The phase number of a state in `PHASE_ID`. -/
def phaseId : PolicyState → ℤ
  | .approach => 0
  | .descend => 1
  | .grasp => 2
  | .lift => 3
  | .done => 4

def policyPhaseStep (policy : ScriptedPickPlace K) : ℕ :=
  policy.phaseStep

/-- The bucket under which the current error is standardised. -/
def onlineBucket (policy : ScriptedPickPlace K) : ℤ :=
  bucket (phaseId policy.state) (policyPhaseStep policy)

/-- The error of the linear prediction of the newest of the vectors in a history. -/
def historyError {ι : Type} [Fintype ι] (np : Numpy K) (k : ℕ) (metric : Metric)
    (h : List (ι → K)) : Option K := do
  let last := h.length - 1
  let current ← h[last]?
  let lag ← h[last - k]?
  let lag₂ ← h[last - 2 * k]?
  let pred := (2 : K) • lag - lag₂
  let resid := np.norm (pred - current)
  match metric with
  | .rel =>
      let denom := max (np.norm (lag - lag₂)) (1 / 10 ^ 3)
      some (resid / denom)
  | .abs => some resid

/-- `(e - mu) / sd` of two Python floats, which raises when the deviation is zero. -/
def zScore (e : K) (pair : NanOr K × NanOr K) : Except PyError (NanOr K) :=
  if pair.2 = some 0 then .error .zeroDivisionError else .ok (standardise e pair)

namespace OnlineJepaTrigger

variable {Row Z E R : Type}

def reset (cfg : TriggerConfig K) : TriggerState Row K D cfg where
  buf := .empty
  hist := .empty
  run := 0
  armed := true
  nEncodes := 0
  zLog := []
  dbgLog := []

variable {cfg : TriggerConfig K}

/-- The last part of `step_`: debounce and hysteresis. -/
def hysteresis (st : TriggerState Row K D cfg) (z : NanOr K) : Bool × TriggerState Row K D cfg :=
  if !st.armed then
    if z.below cfg.kappaLow then (false, { st with armed := true, run := 0 }) else (false, st)
  else if z.exceeds cfg.kappaHigh then
    let st := { st with run := st.run + 1 }
    if cfg.consec ≤ st.run then (true, { st with run := 0, armed := false }) else (false, st)
  else
    (false, { st with run := 0 })

/-- Append the current image to the frame buffer. -/
def observe (env : Env K E R Row) (st : TriggerState Row K D cfg) (s : E) :
    TriggerState Row K D cfg :=
  { st with buf := st.buf.append (env.renderFrame s cfg.camera 384) }

/-- Append a pooled latent to the history. -/
def pushLatent (st : TriggerState Row K D cfg) (pooled : cfg.feature.Idx D → K) :
    TriggerState Row K D cfg :=
  { st with hist := st.hist.append pooled, nEncodes := st.nEncodes + 1 }

/-- Append an error and its z value to the two logs. -/
def appendLogs (st : TriggerState Row K D cfg) (t : ℕ) (policy : ScriptedPickPlace K) (e : K)
    (z : NanOr K) : TriggerState Row K D cfg :=
  let b := onlineBucket policy
  let pair := cfg.lookup b
  { st with
    zLog := st.zLog ++ [(t, z)]
    dbgLog := st.dbgLog ++ [{ t, bucket := b, fallback := !decide (b ∈ cfg.buckets), e
                              mu := pair.1, sd := pair.2, z }] }

/-- One call in each control step; it is the only method that changes the trigger. -/
def step (env : Env K E R Row) (encoder : VideoEncoder (List Row) Z K D)
    (st : TriggerState Row K D cfg) (t : ℕ) (s : E) (policy : ScriptedPickPlace K) :
    Except PyError (Bool × TriggerState Row K D cfg) := do
  let st := observe env st s
  if cfg.step = 0 then .error .zeroDivisionError
  else if t % cfg.step ≠ 0 ∨ t < cfg.warmup then .ok (false, st)
  else
    let frames ← stack st.buf.items
    let clip ← buildClip frames (frames.length - 1) cfg.framesN cfg.stride
    let st := pushLatent st ((encoder.pooled clip).feature cfg.feature)
    if st.hist.items.length < 2 * cfg.k + 1 then .ok (false, st)
    else
      let e ← Fallible.orRaise .indexError
        (historyError env.np cfg.k cfg.metric st.hist.items)
      let z ← zScore e (cfg.lookup (onlineBucket policy))
      .ok (hysteresis (appendLogs st t policy e z) z)

/-- The trigger encodes a clip in step `t`. -/
def EncodesAt (cfg : TriggerConfig K) (t : ℕ) : Prop :=
  t % cfg.step = 0 ∧ cfg.warmup ≤ t

instance (cfg : TriggerConfig K) (t : ℕ) : Decidable (EncodesAt cfg t) :=
  inferInstanceAs (Decidable (_ ∧ _))

/-- What a call of `step_` can do: only observe, also encode, or also judge an error. -/
inductive Stepped (env : Env K E R Row) (encoder : VideoEncoder (List Row) Z K D)
    (st : TriggerState Row K D cfg) (t : ℕ) (s : E) (policy : ScriptedPickPlace K) :
    Bool → TriggerState Row K D cfg → Prop
  | idle : ¬EncodesAt cfg t → Stepped env encoder st t s policy false (observe env st s)
  | filling {clip : List (List Row)} {after : TriggerState Row K D cfg} : EncodesAt cfg t →
      buildClip (observe env st s).buf.items ((observe env st s).buf.items.length - 1)
        cfg.framesN cfg.stride = .ok clip →
      after = pushLatent (observe env st s) ((encoder.pooled clip).feature cfg.feature) →
      after.hist.items.length < 2 * cfg.k + 1 →
      Stepped env encoder st t s policy false after
  | judged {clip : List (List Row)} {pushed : TriggerState Row K D cfg} {e : K} {z : NanOr K} :
      EncodesAt cfg t →
      buildClip (observe env st s).buf.items ((observe env st s).buf.items.length - 1)
        cfg.framesN cfg.stride = .ok clip →
      pushed = pushLatent (observe env st s) ((encoder.pooled clip).feature cfg.feature) →
      ¬pushed.hist.items.length < 2 * cfg.k + 1 →
      historyError env.np cfg.k cfg.metric pushed.hist.items = some e →
      zScore e (cfg.lookup (onlineBucket policy)) = .ok z →
      Stepped env encoder st t s policy (hysteresis (appendLogs pushed t policy e z) z).1
        (hysteresis (appendLogs pushed t policy e z) z).2

/-- The inversion of `step_`. -/
theorem stepped_of_step {env : Env K E R Row} {encoder : VideoEncoder (List Row) Z K D}
    {st after : TriggerState Row K D cfg} {t : ℕ} {s : E} {policy : ScriptedPickPlace K}
    {fired : Bool} (called : step env encoder st t s policy = .ok (fired, after)) :
    Stepped env encoder st t s policy fired after := by
  simp only [step] at called
  split at called
  · contradiction
  · split at called
    case isTrue skipped =>
      obtain ⟨rfl, rfl⟩ := Prod.mk.inj (Except.ok.inj called)
      refine .idle fun encodes => ?_
      rcases skipped with misaligned | early
      · exact misaligned encodes.1
      · exact absurd encodes.2 (Nat.not_le_of_lt early)
    case isFalse encodes =>
      rw [not_or, not_not, not_lt] at encodes
      obtain ⟨frames, stacked, afterStack⟩ := Fallible.bind_eq_ok.mp called
      obtain rfl : frames = (observe env st s).buf.items := by
        rw [stack] at stacked
        split at stacked
        · contradiction
        · exact (Except.ok.inj stacked).symm
      obtain ⟨clip, built, afterClip⟩ := Fallible.bind_eq_ok.mp afterStack
      split at afterClip
      case isTrue short =>
        obtain ⟨rfl, rfl⟩ := Prod.mk.inj (Except.ok.inj afterClip)
        exact .filling encodes built rfl short
      case isFalse full =>
        obtain ⟨e, computed, afterError⟩ := Fallible.bind_eq_ok.mp afterClip
        obtain ⟨z, judged, afterScore⟩ := Fallible.bind_eq_ok.mp afterError
        obtain ⟨rfl, rfl⟩ := Prod.mk.inj (Except.ok.inj afterScore)
        exact .judged encodes built rfl full (Fallible.orRaise_eq_ok.mp computed) judged

section Frame

variable (st : TriggerState Row K D cfg) (z : NanOr K)

@[simp] theorem hysteresis_buf : (hysteresis st z).2.buf = st.buf := by
  grind [hysteresis]

@[simp] theorem hysteresis_hist : (hysteresis st z).2.hist = st.hist := by
  grind [hysteresis]

@[simp] theorem hysteresis_zLog : (hysteresis st z).2.zLog = st.zLog := by
  grind [hysteresis]

@[simp] theorem hysteresis_dbgLog : (hysteresis st z).2.dbgLog = st.dbgLog := by
  grind [hysteresis]

end Frame

end OnlineJepaTrigger

end G1Jepa
