import G1Jepa.Warmup
import Mathlib

/-!
# Exporting and loading a calibration

`export_calib` leaves out the buckets with few samples and writes the others under string keys;
the trigger turns the keys back into integers and falls back to the global pair. `calibrate` keeps
every bucket and stores the global pair in the small ones. Both lookups are `bucketPair`.
-/

namespace G1Jepa

/-! ## Keys -/

theorem not_isWhitespace_of_isDigit {c : Char} (digit : c.isDigit = true) :
    c.isWhitespace = false := by
  rw [Char.isDigit, Bool.and_eq_true, decide_eq_true_eq, decide_eq_true_eq] at digit
  by_contra white
  rw [Bool.not_eq_false, Char.isWhitespace] at white
  simp only [Bool.or_eq_true, decide_eq_true_eq] at white
  rcases white with ((rfl | rfl) | rfl) | rfl <;> exact absurd digit.1 (by decide)

/-- A text without white space is its own `strip`. -/
theorem strip_eq_self {text : List Char} (dense : ∀ c ∈ text, c.isWhitespace = false) :
    strip text = text := by
  have keeps : ∀ {text : List Char}, (∀ c ∈ text, c.isWhitespace = false) →
      text.dropWhile Char.isWhitespace = text := by
    intro text dense
    cases text with
    | nil => rfl
    | cons c rest => rw [List.dropWhile_cons_of_neg (by simp [dense c])]
  rw [strip, keeps dense, keeps fun c member => dense c (List.mem_reverse.mp member),
    List.reverse_reverse]

theorem isDigit_of_mem_repr {n : ℕ} {c : Char} (member : c ∈ n.repr.toList) :
    c.isDigit = true := by
  rw [Nat.toList_repr] at member
  exact Nat.isDigit_of_mem_toDigits (by decide) (by decide) member

theorem notMem_repr {c : Char} (letter : c.isDigit = false) (n : ℕ) : c ∉ n.repr.toList := by
  intro member
  rw [isDigit_of_mem_repr member] at letter
  contradiction

theorem strip_repr (n : ℕ) : strip n.repr.toList = n.repr.toList :=
  strip_eq_self fun _ member => not_isWhitespace_of_isDigit (isDigit_of_mem_repr member)

theorem pyInt_repr (n : ℕ) : pyInt n.repr.toList = .ok (n : ℤ) := by
  have unsigned : ∀ {sign : Char} {digits : List Char}, sign.isDigit = false →
      n.repr.toList ≠ sign :: digits := by
    intro sign digits notDigit equality
    have member : sign ∈ n.repr.toList := equality ▸ List.mem_cons_self
    rw [isDigit_of_mem_repr member] at notDigit
    contradiction
  rw [pyInt, strip_repr]
  split
  case h_1 digits equality => exact absurd equality (unsigned (by decide))
  case h_2 digits equality => exact absurd equality (unsigned (by decide))
  case h_3 =>
    rw [String.ofList_toList, Nat.toNat?_repr]
    rfl

theorem pyInt_neg_repr (n : ℕ) : pyInt ('-' :: n.repr.toList) = .ok (-(n : ℤ)) := by
  have dense : ∀ c ∈ '-' :: n.repr.toList, c.isWhitespace = false := by
    intro c member
    rcases List.mem_cons.mp member with rfl | digit
    · decide
    · exact not_isWhitespace_of_isDigit (isDigit_of_mem_repr digit)
  rw [pyInt, strip_eq_self dense]
  change Fallible.orRaise _ ((String.ofList n.repr.toList).toNat?.map _) = _
  rw [String.ofList_toList, Nat.toNat?_repr]
  rfl

/-- `int(str(n))` is `n`. -/
theorem pyInt_pyStr (n : ℤ) : pyInt (pyStr n).toList = .ok n := by
  rw [pyStr, Int.repr_eq_if]
  split
  case isTrue nonneg => rw [pyInt_repr, Int.toNat_of_nonneg nonneg]
  case isFalse negative =>
    rw [String.toList_append, show "-".toList = ['-'] from rfl, List.singleton_append,
      pyInt_neg_repr, Int.toNat_of_nonneg (by omega), neg_neg]

theorem pyStr_injective : Function.Injective pyStr := by
  intro left right same
  have decoded := pyInt_pyStr left
  rw [same, pyInt_pyStr] at decoded
  exact (Except.ok.inj decoded).symm

/-! ## Tags -/

/-- `f"f{frames}s{stride}_{camera}"`, the part of a directory name behind the split. -/
def latentTag (frames stride : ℕ) (camera : String) : String :=
  "f" ++ frames.repr ++ "s" ++ stride.repr ++ "_" ++ camera

theorem splitPiece_zero (separator : Char) (text : List Char) :
    splitPiece separator 0 text = .ok (text.takeWhile (· != separator)) := by
  have head : (text.splitOn separator)[0]? = some (text.takeWhile (· != separator)) := by
    induction text with
    | nil => rfl
    | cons c text induction =>
        rw [List.splitOn_cons_eq_if_modifyHead, List.takeWhile_cons]
        by_cases same : c = separator
        · simp [same]
        · obtain ⟨first, rest, pieces⟩ :=
            List.exists_cons_of_ne_nil (List.splitOn_ne_nil separator text)
          rw [pieces] at induction ⊢
          obtain rfl : first = _ := Option.some.inj induction
          simp [same]
  rw [splitPiece, head]
  rfl

/-- The piece behind the first separator ends before the second one, if there is one. -/
theorem splitPiece_one {separator : Char} {before : List Char} (absent : separator ∉ before)
    (behind : List Char) :
    splitPiece separator 1 (before ++ separator :: behind) =
      .ok (behind.takeWhile (· != separator)) := by
  rw [← splitPiece_zero, splitPiece, List.splitOn_append_cons_self_of_not_mem absent]
  rfl

theorem takeWhile_append_cons {separator : Char} {before : List Char} (absent : separator ∉ before)
    (c : Char) (behind : List Char) :
    (before ++ c :: behind).takeWhile (· != separator) =
      before ++ if c = separator then [] else c :: behind.takeWhile (· != separator) := by
  have keeps : ∀ x ∈ before, (x != separator) = true := by
    intro x member
    rw [bne_iff_ne]
    rintro rfl
    exact absent member
  rw [List.takeWhile_append_of_pos keeps, List.takeWhile_cons]
  by_cases same : c = separator <;> simp [same]

/-- The digits of a number up to the letter that follows them. -/
theorem digits_before {letter : Char} (notDigit : letter.isDigit = false) (n : ℕ)
    (behind : List Char) :
    (n.repr.toList ++ letter :: behind).takeWhile (· != letter) = n.repr.toList := by
  rw [takeWhile_append_cons (notMem_repr notDigit n), if_pos rfl, List.append_nil]

theorem toList_latentTag (frames stride : ℕ) (camera : String) :
    (latentTag frames stride camera).toList =
      'f' :: (frames.repr.toList ++ 's' :: (stride.repr.toList ++ '_' :: camera.toList)) := by
  simp [latentTag]

/-- The letters of the camera stand behind everything that the two parsers read. -/
theorem tagFrames_latentTag (frames stride : ℕ) (camera : String) :
    tagFrames (latentTag frames stride camera) = .ok (frames : ℤ) := by
  have absent : 'f' ∉ ([] : List Char) := List.not_mem_nil
  have piece := splitPiece_one absent
    (frames.repr.toList ++ 's' :: (stride.repr.toList ++ '_' :: camera.toList))
  rw [takeWhile_append_cons (notMem_repr (by decide) frames), if_neg (by decide)] at piece
  rw [tagFrames, toList_latentTag, ← List.nil_append ('f' :: _), piece, Fallible.ok_bind,
    splitPiece_zero, Fallible.ok_bind, digits_before (by decide), pyInt_repr]

theorem tagStride_latentTag (frames stride : ℕ) (camera : String) :
    tagStride (latentTag frames stride camera) = .ok (stride : ℤ) := by
  have absent : 's' ∉ 'f' :: frames.repr.toList := by
    rw [List.mem_cons, not_or]
    exact ⟨by decide, notMem_repr (by decide) frames⟩
  have piece := splitPiece_one absent (stride.repr.toList ++ '_' :: camera.toList)
  rw [takeWhile_append_cons (notMem_repr (by decide) stride), if_neg (by decide)] at piece
  rw [tagStride, toList_latentTag, ← List.cons_append, piece, Fallible.ok_bind, splitPiece_zero,
    Fallible.ok_bind, digits_before (by decide), pyInt_repr]

/-! ## Lookups -/

section Lookup

variable {K : Type} [Field K] [LinearOrder K] {D : ℕ} {np : Numpy K} {split : List (Latents K D)}
  {tag : String} {feature : FeatureName} {k warmup nCalib : ℕ} {metric : Metric}

/-- The statistics under which the errors of a bucket are standardised: its own when it has at
least 15 samples, otherwise those of all samples. -/
def bucketPair (np : Numpy K) (samples : List (ℤ × K)) (b : ℤ) : NanOr K × NanOr K :=
  if 15 ≤ (Dict.samplesOf samples b).length then
    (Numpy.mean (Dict.samplesOf samples b), regularisedStd np (Dict.samplesOf samples b))
  else (Numpy.mean (samples.map Prod.snd), regularisedStd np (samples.map Prod.snd))

/-- The samples that `calibrate` and `export_calib` collect from a list of episodes. -/
def calibrationSamples (np : Numpy K) (eps : List (Latents K D)) (feature : FeatureName) (k : ℕ)
    (metric : Metric) (warmup : ℕ) : List (ℤ × K) :=
  eps.flatMap fun ep => rowSamples true (calibrateRows np ep feature k metric warmup)

/-- What `export_calib` stores for a bucket with the given samples. -/
def storedPair (np : Numpy K) (values : List K) : Option (NanOr K × NanOr K) :=
  if 15 ≤ values.length then some (Numpy.mean values, regularisedStd np values) else none

theorem calibrateSamples_lookup (np : Numpy K) (samples : List (ℤ × K)) (b : ℤ) :
    (calibrateSamples np samples).lookup b = bucketPair np samples b := by
  let gmu := Numpy.mean (samples.map Prod.snd)
  let gsd := regularisedStd np (samples.map Prod.snd)
  have mu := Dict.lookup_ofItems_map
    (fun values : List K => if 15 ≤ values.length then Numpy.mean values else gmu)
    (Dict.group samples) b
  have sd := Dict.lookup_ofItems_map
    (fun values : List K => if 15 ≤ values.length then regularisedStd np values else gsd)
    (Dict.group samples) b
  rw [Calibrated.lookup, calibrateSamples, bucketPair]
  dsimp only
  rw [mu, sd, Dict.lookup_group]
  by_cases empty : Dict.samplesOf samples b = []
  · rw [if_pos empty, empty]
    rfl
  · rw [if_neg empty, Option.map_some, Option.map_some, Option.getD_some, Option.getD_some]
    split <;> rfl

/-- What `export_calib` writes about the samples of the calibration episodes. -/
structure Exports (np : Numpy K) (samples : List (ℤ × K)) (json : CalibJson K) : Prop where
  buckets : json.buckets = Dict.ofItems ((Dict.items (Dict.group samples)).filterMap fun bucket =>
    (storedPair np bucket.2).map fun pair => (pyStr bucket.1, pair))
  globalMu : json.globalMu = Numpy.mean (samples.map Prod.snd)
  globalSd : json.globalSd = regularisedStd np (samples.map Prod.snd)

theorem exportCalib_eq_ok {json : CalibJson K}
    (exported : exportCalib np split tag feature k metric warmup nCalib = .ok json) :
    Exports np (calibrationSamples np (split.take nCalib) feature k metric warmup) json := by
  rw [exportCalib] at exported
  simp only [exportRows_eq_calibrateRows] at exported
  obtain ⟨frames, -, rest⟩ := Fallible.bind_eq_ok.mp exported
  obtain ⟨stride, -, returned⟩ := Fallible.bind_eq_ok.mp rest
  obtain rfl := Except.ok.inj returned
  refine ⟨congrArg Dict.ofItems (List.filterMap_congr fun bucket _ => ?_), rfl, rfl⟩
  rw [storedPair]
  split <;> rfl

/-- The export needs nothing but a tag from which the clip geometry can be read. -/
theorem exists_exportCalib {frames stride : ℤ} (readFrames : tagFrames tag = .ok frames)
    (readStride : tagStride tag = .ok stride) :
    ∃ json, exportCalib np split tag feature k metric warmup nCalib = .ok json ∧
      json.frames = frames ∧ json.stride = stride := by
  cases exported : exportCalib np split tag feature k metric warmup nCalib with
  | error failure =>
      rw [exportCalib, readFrames, Fallible.ok_bind, readStride, Fallible.ok_bind] at exported
      contradiction
  | ok json =>
      rw [exportCalib, readFrames, Fallible.ok_bind, readStride, Fallible.ok_bind] at exported
      obtain rfl := Except.ok.inj exported
      exact ⟨_, rfl, rfl, rfl⟩

omit [Field K] [LinearOrder K] in
/-- A file whose keys are the texts of integers is loaded with every pair under its number. -/
theorem exists_loadBuckets {json : CalibJson K}
    (keys : ∀ item ∈ Dict.items json.buckets, ∃ b, item.1 = pyStr b) :
    ∃ buckets, loadBuckets json = .ok buckets ∧
      ∀ b, buckets.lookup b = json.buckets.lookup (pyStr b) := by
  let decode : String → ℤ := fun key => (pyInt key.toList).toOption.getD 0
  have inverse : Function.LeftInverse decode pyStr := by
    intro b
    simp only [decode, pyInt_pyStr]
    rfl
  have loaded : (Dict.items json.buckets).mapM (fun bucket => do
      let b ← pyInt bucket.1.toList
      Except.ok (b, bucket.2)) =
      .ok ((Dict.items json.buckets).map fun item => (decode item.1, item.2)) := by
    apply Fallible.mapM_eq_map
    intro item member
    obtain ⟨b, key⟩ := keys item member
    rw [key, pyInt_pyStr, Fallible.ok_bind, inverse b]
  refine ⟨_, by rw [loadBuckets, loaded, Fallible.ok_bind], fun b => ?_⟩
  exact Dict.lookup_ofItems_decode inverse keys b

omit [LinearOrder K] in
/-- A trigger that has loaded such a file looks up the pair under the text of the bucket. -/
theorem lookup_of_init {json : CalibJson K} {args : TriggerArgs K} {cfg : TriggerConfig K}
    (keys : ∀ item ∈ Dict.items json.buckets, ∃ b, item.1 = pyStr b)
    (loaded : TriggerConfig.init args json = .ok cfg) (b : ℤ) :
    cfg.lookup b = (json.buckets.lookup (pyStr b)).getD (json.globalMu, json.globalSd) := by
  obtain ⟨buckets, read, found⟩ := exists_loadBuckets keys
  rw [TriggerConfig.init, read, Fallible.ok_bind] at loaded
  split at loaded
  · contradiction
  · obtain rfl := Except.ok.inj loaded
    rw [TriggerConfig.lookup]
    dsimp only
    rw [found]

omit [LinearOrder K] in
theorem toTriggerArgs_of_init {json : CalibJson K} {args : TriggerArgs K} {cfg : TriggerConfig K}
    (loaded : TriggerConfig.init args json = .ok cfg) : cfg.toTriggerArgs = args := by
  obtain ⟨buckets, -, rest⟩ := Fallible.bind_eq_ok.mp loaded
  split at rest
  · contradiction
  · obtain rfl := Except.ok.inj rest
    rfl

namespace Exports

variable {samples : List (ℤ × K)} {json : CalibJson K} (exports : Exports np samples json)

include exports

theorem key_eq_pyStr {item : String × (NanOr K × NanOr K)}
    (member : item ∈ Dict.items json.buckets) : ∃ b, item.1 = pyStr b := by
  rw [exports.buckets] at member
  obtain ⟨bucket, -, stored⟩ := List.mem_filterMap.mp (Dict.mem_of_mem_items_ofItems member)
  obtain ⟨pair, -, rfl⟩ := Option.map_eq_some_iff.mp stored
  exact ⟨bucket.1, rfl⟩

theorem lookup_pyStr (b : ℤ) :
    json.buckets.lookup (pyStr b) = ((Dict.group samples).lookup b).bind (storedPair np) := by
  rw [exports.buckets]
  exact Dict.lookup_ofItems_filterMap pyStr_injective (fun _ => storedPair np) (List.Perm.refl _) b

/-- The loaded trigger looks up the pair of the calibration. -/
theorem lookup_init {args : TriggerArgs K} {cfg : TriggerConfig K}
    (loaded : TriggerConfig.init args json = .ok cfg) (b : ℤ) :
    cfg.lookup b = bucketPair np samples b := by
  rw [lookup_of_init (fun item => exports.key_eq_pyStr) loaded, exports.lookup_pyStr,
    Dict.lookup_group, exports.globalMu, exports.globalSd, bucketPair]
  by_cases empty : Dict.samplesOf samples b = []
  · rw [if_pos empty, empty]
    rfl
  · rw [if_neg empty, Option.bind_some, storedPair]
    split <;> rfl

/-- A loadable calibration: the deque of the trigger needs a length that is not negative. -/
theorem exists_init (args : TriggerArgs K) (nonneg : 0 ≤ json.frames * json.stride) :
    ∃ cfg, TriggerConfig.init args json = .ok cfg := by
  obtain ⟨buckets, read, -⟩ := exists_loadBuckets fun item => exports.key_eq_pyStr
  exact ⟨_, by rw [TriggerConfig.init, read, Fallible.ok_bind, if_neg (by omega)]⟩

end Exports

/-- The offline z value of a row that is not masked. -/
theorem zscores_getElem? {ep : Latents K D} {cal : Calibrated K} {fine : Bool} {i : ℕ}
    {row : ErrorRow K} {e : K} (listed : (errorRows np ep feature k metric)[i]? = some row)
    (error : row.e = some e) (used : row.masked warmup = false) :
    (zscores np ep feature k metric cal warmup fine)[i]? =
      some (standardise e (cal.lookup (row.bucketOf fine))) := by
  have inside := ((errors_getElem?_eq_some np).mp
    ((errorRows_getElem?_eq_some np).mp listed).2.1).1
  have length : (errors np (feat ep feature) k metric).length = (feat ep feature).length := by
    simp [errors]
  rw [zscores, List.getElem?_map, List.getElem?_range (length ▸ inside), Option.map_some, listed,
    Option.bind_eq_bind, Option.bind_some, used, error]
  rfl

variable [IsStrictOrderedRing K]

theorem regularisedStd_pos {np : Numpy K} {values : List K} {sd : K}
    (found : regularisedStd np values = some sd) : 0 < sd := by
  rw [regularisedStd, Option.map_eq_some_iff] at found
  obtain ⟨deviation, root, rfl⟩ := found
  have nonempty : values ≠ [] := by
    rintro rfl
    contradiction
  obtain ⟨root', same, nonneg⟩ := np.std_of_ne_nil nonempty
  rw [root, Option.some.injEq] at same
  have : (0 : K) < 1 / 10 ^ 9 := by positivity
  linarith

theorem bucketPair_snd_pos {np : Numpy K} {samples : List (ℤ × K)} {b : ℤ} {sd : K}
    (found : (bucketPair np samples b).2 = some sd) : 0 < sd := by
  rw [bucketPair] at found
  split at found <;> exact regularisedStd_pos found

theorem bucketPair_snd_ne_zero (np : Numpy K) (samples : List (ℤ × K)) (b : ℤ) :
    (bucketPair np samples b).2 ≠ some 0 :=
  fun zero => lt_irrefl 0 (bucketPair_snd_pos zero)

/-- The trigger that loads an exported calibration looks up the pair that `calibrate` returns for
every bucket, so its z value of an error is the one of `zscores`. A tag that names the clip
geometry can always be exported and loaded. -/
theorem export_load_lookup (args : TriggerArgs K) :
    (∀ frames stride, tagFrames tag = .ok frames → tagStride tag = .ok stride →
      0 ≤ frames * stride →
      ∃ json cfg, exportCalib np split tag feature k metric warmup nCalib = .ok json ∧
        TriggerConfig.init args json = .ok cfg) ∧
      ∀ json cfg, exportCalib np split tag feature k metric warmup nCalib = .ok json →
        TriggerConfig.init args json = .ok cfg →
        (∀ b, cfg.lookup b =
          (calibrate np (split.take nCalib) feature k metric warmup true).lookup b) ∧
        ∀ (ep : Latents K D) (i : ℕ) (row : ErrorRow K) (e : K),
          (errorRows np ep feature k metric)[i]? = some row → row.e = some e →
          row.masked warmup = false →
          ∃ z, zScore e (cfg.lookup (row.bucketOf true)) = .ok z ∧
            (zscores np ep feature k metric
              (calibrate np (split.take nCalib) feature k metric warmup true) warmup true)[i]? =
              some z := by
  constructor
  · intro frames stride readFrames readStride nonneg
    obtain ⟨json, exported, rfl, rfl⟩ : ∃ json,
        exportCalib np split tag feature k metric warmup nCalib = .ok json ∧
          json.frames = frames ∧ json.stride = stride := exists_exportCalib readFrames readStride
    obtain ⟨cfg, loaded⟩ := (exportCalib_eq_ok exported).exists_init args nonneg
    exact ⟨json, cfg, exported, loaded⟩
  · intro json cfg exported loaded
    have stored := (exportCalib_eq_ok exported).lookup_init loaded
    have same : ∀ b, cfg.lookup b =
        (calibrate np (split.take nCalib) feature k metric warmup true).lookup b := by
      intro b
      rw [stored, calibrate, calibrateSamples_lookup]
      rfl
    refine ⟨same, fun ep i row e listed error used => ?_⟩
    have regular : (cfg.lookup (row.bucketOf true)).2 ≠ some 0 := by
      rw [stored]
      exact bucketPair_snd_ne_zero np _ _
    refine ⟨_, if_neg regular, ?_⟩
    rw [zscores_getElem? listed error used, same]

end Lookup

/-- The default tag names clips of 16 frames that are taken with stride 1. -/
theorem tag_f16s1_wrist : tagFrames "f16s1_wrist" = .ok 16 ∧ tagStride "f16s1_wrist" = .ok 1 := by
  have tag : "f16s1_wrist" = latentTag 16 1 "wrist" := by
    rw [← String.toList_inj, toList_latentTag, Nat.toList_repr, Nat.toList_repr]
    rfl
  rw [tag]
  exact ⟨tagFrames_latentTag 16 1 "wrist", tagStride_latentTag 16 1 "wrist"⟩

theorem export_load_lookup_wrist :
    ∃ ep, computeLatents (.zero Unit ℚ 1) {} (List.replicate 24 ()) (.blank 24) = .ok ep ∧
      ∃ json cfg, exportCalib .rational [ep] "f16s1_wrist" .mean 1 .abs 16 100 = .ok json ∧
        TriggerConfig.init {} json = .ok cfg ∧
        cfg.lookup 2 = (calibrate .rational [ep] .mean 1 .abs 16 true).lookup 2 := by
  obtain ⟨ep, computed, -⟩ := exists_blank_latents 24 (by decide)
  obtain ⟨exports, preserved⟩ := @export_load_lookup ℚ _ _ 1 .rational [ep] "f16s1_wrist" .mean 1
    16 100 .abs _ {}
  obtain ⟨json, cfg, exported, loaded⟩ := exports 16 1 tag_f16s1_wrist.1 tag_f16s1_wrist.2
    (by decide)
  exact ⟨ep, computed, json, cfg, exported, loaded, (preserved json cfg exported loaded).1 2⟩

end G1Jepa
