import G1Jepa.CalibrationRoundTrip
import G1Jepa.EpisodeFiles
import G1Jepa.Library.FillMissing

/-!
# The cache of latents

`compute_latents.py` names its output directory after the split, the clip and the camera, and
skips every episode whose file is there. The step, the tail and the model are not part of the
name, so a file that was written with other values of them is reused.
-/

namespace G1Jepa

inductive Split
  | clean
  | perturbed
  deriving DecidableEq, Repr

def Split.key : Split → String
  | .clean => "clean"
  | .perturbed => "perturbed"

/-- The command line of `compute_latents.py`. -/
structure EncodeArgs extends LatentArgs where
  split : Split
  n : ℕ := 100
  root : String := "data"
  out : String := "latents"
  camera : String := "agentview"
  model : String := "./vjepa2-vitl"
  device : String := "cuda:5"

/-- The directory of the episodes. -/
def EncodeArgs.src (args : EncodeArgs) : String := joinPath args.root args.split.key

/-- `f"{split}_f{frames}s{stride}_{camera}"` -/
def EncodeArgs.cacheName (args : EncodeArgs) : String :=
  args.split.key ++ "_f" ++ args.frames.repr ++ "s" ++ args.stride.repr ++ "_" ++ args.camera

/-- What stands behind the split in this name; `export_calib` takes it as its `--tag`. -/
def EncodeArgs.tag (args : EncodeArgs) : String :=
  latentTag args.frames args.stride args.camera

/-- The directory of the latents. -/
def EncodeArgs.dst (args : EncodeArgs) : String := joinPath args.out args.cacheName

variable {K Row Z : Type} {D : ℕ}

/-- The files of one episode; cameras go by their names here. -/
structure NamedFiles (K Row : Type) where
  lowdim : Option (EpisodeRecord K)
  mp4 : String → Option (Video Row)
  npz : String → Option (List (List Row))

/-- `load_episode` with the name of a camera as it stands on the command line. -/
def loadNamed (dir : ℕ → NamedFiles K Row) (root : String) (idx : ℕ) (camera : String) :
    Except PyError (List (List Row) × EpisodeRecord K) := do
  let files := dir idx
  let base := episodeBase root idx
  let data ← Fallible.orRaise (.fileNotFoundError (base ++ ".npz")) files.lowdim
  let mp4 := base ++ "_" ++ camera ++ ".mp4"
  let npz := base ++ "_" ++ camera ++ ".npz"
  match files.mp4 camera with
  | some video =>
      let yielded ← Fallible.orRaise (.valueError ("could not read " ++ mp4)) video
      let frames ← stack yielded
      .ok (frames, data)
  | none =>
      let frames ← Fallible.orRaise
        (.fileNotFoundError ("找不到 " ++ mp4 ++ " 或 " ++ npz)) (files.npz camera)
      .ok (frames, data)

/-- The files that `save_episode` leaves, under the names of their cameras. -/
def EpisodeFiles.named (files : EpisodeFiles K Row) : NamedFiles K Row where
  lowdim := files.lowdim
  mp4 name := (cameras.find? fun camera => camera.key = name).bind files.mp4
  npz name := (cameras.find? fun camera => camera.key = name).bind files.npz

theorem find?_key (camera : Camera) :
    (cameras.find? fun other => other.key = camera.key) = some camera := by
  cases camera <;> rfl

/-- Loading by the name of a camera is loading by the camera. -/
theorem loadNamed_key (dir : EpisodeDir K Row) (root : String) (idx : ℕ) (camera : Camera) :
    loadNamed (fun i => (dir i).named) root idx camera.key = loadEpisode dir root idx camera := by
  simp only [loadNamed, EpisodeFiles.named, find?_key, Option.bind_some]
  rfl

/-- The directories of episodes under their paths. -/
abbrev Sources (K Row : Type) := String → ℕ → NamedFiles K Row

/-- The files of latents under the path of their directory. -/
abbrev LatentStore (K : Type) (D : ℕ) := String → ℕ → Option (Latents K D)

/-- One iteration of the main loop for an episode without a file. -/
def encodeEpisode (sources : Sources K Row) (args : EncodeArgs)
    (encoder : VideoEncoder (List Row) Z K D) (i : ℕ) : Except PyError (Latents K D) := do
  let (frames, data) ← loadNamed (sources args.src) args.src i args.camera
  computeLatents encoder args.toLatentArgs frames data

/-- `main`: the files afterwards, also when the run ends with an exception. The constructor of the
encoder is a parameter; it takes the model and the device. -/
def computeLatentsMain (jepaEncoder : String → String →
      Except PyError (VideoEncoder (List Row) Z K D))
    (sources : Sources K Row) (args : EncodeArgs) (store : LatentStore K D) :
    LatentStore K D × Except PyError Unit :=
  match jepaEncoder args.model args.device with
  | .error failure => (store, .error failure)
  | .ok encoder =>
      let (dir, outcome) :=
        FillMissing.fill (encodeEpisode sources args encoder) (store args.dst) args.n
      (Function.update store args.dst dir, outcome)

/-- An output root without files. -/
def LatentStore.empty : LatentStore K D := fun _ _ => none

/-! ## What the name of a directory decides -/

theorem repr_toList_injective : Function.Injective fun n : ℕ => n.repr.toList := by
  intro m n same
  simp only [Nat.toList_repr] at same
  rw [← @Nat.ofDigitChars_ten_toDigits m, same, Nat.ofDigitChars_ten_toDigits]

/-- Two lists that agree also agree before and behind the first occurrence of an item. -/
theorem append_cons_inj {α : Type} {item : α} {xs ys us vs : List α} (left : item ∉ xs)
    (right : item ∉ ys) (same : xs ++ item :: us = ys ++ item :: vs) : xs = ys ∧ us = vs := by
  induction xs generalizing ys with
  | nil =>
      cases ys with
      | nil => exact ⟨rfl, (List.cons.inj same).2⟩
      | cons y ys =>
          obtain rfl : item = y := (List.cons.inj same).1
          exact absurd List.mem_cons_self right
  | cons x xs induction =>
      cases ys with
      | nil =>
          obtain rfl : x = item := (List.cons.inj same).1
          exact absurd List.mem_cons_self left
      | cons y ys =>
          obtain ⟨rfl, rest⟩ := List.cons.inj same
          obtain ⟨rfl, behind⟩ :=
            induction (List.not_mem_of_not_mem_cons left) (List.not_mem_of_not_mem_cons right) rest
          exact ⟨rfl, behind⟩

theorem joinPath_right_injective (root : String) : Function.Injective (joinPath root) := by
  intro left right same
  rw [joinPath, joinPath] at same
  split at same
  · exact (String.append_right_inj _).mp same
  · exact (String.append_right_inj _).mp same

/-- The name of a directory decides the split, the clip and the camera. -/
theorem cacheName_inj {a b : EncodeArgs} (same : a.cacheName = b.cacheName) :
    a.split = b.split ∧ a.frames = b.frames ∧ a.stride = b.stride ∧ a.camera = b.camera := by
  have letters := congrArg String.toList same
  simp only [EncodeArgs.cacheName, String.toList_append, List.append_assoc] at letters
  have split : a.split = b.split := by
    cases left : a.split <;> cases right : b.split <;> simp [left, right, Split.key] at letters ⊢
  rw [split, List.append_cancel_left_eq, List.append_cancel_left_eq] at letters
  have digits : ∀ n : ℕ, 's' ∉ n.repr.toList ∧ '_' ∉ n.repr.toList := fun n =>
    ⟨notMem_repr rfl n, notMem_repr rfl n⟩
  obtain ⟨frames, rest⟩ := append_cons_inj (digits _).1 (digits _).1 letters
  obtain ⟨stride, camera⟩ := append_cons_inj (digits _).2 (digits _).2 rest
  exact ⟨split, repr_toList_injective frames, repr_toList_injective stride, String.ext camera⟩

/-- `export_calib` reads the clip back from the tag of a directory, whatever the camera is called:
its two parsers stop at the letter behind the digits. -/
theorem tag_decodes (args : EncodeArgs) :
    args.cacheName = args.split.key ++ "_" ++ args.tag ∧
      tagFrames args.tag = .ok (args.frames : ℤ) ∧ tagStride args.tag = .ok (args.stride : ℤ) := by
  refine ⟨?_, tagFrames_latentTag _ _ _, tagStride_latentTag _ _ _⟩
  rw [← String.toList_inj]
  simp [EncodeArgs.cacheName, EncodeArgs.tag, latentTag]

/-! ## A reused cache -/

variable {jepaEncoder : String → String → Except PyError (VideoEncoder (List Row) Z K D)}
  {sources : Sources K Row} {args : EncodeArgs} {store : LatentStore K D}

/-- What is computed for an episode without a file. -/
def encodeFresh (jepaEncoder : String → String → Except PyError (VideoEncoder (List Row) Z K D))
    (sources : Sources K Row) (args : EncodeArgs) (i : ℕ) : Except PyError (Latents K D) := do
  let encoder ← jepaEncoder args.model args.device
  encodeEpisode sources args encoder i

/-- A run fills its directory where files are missing. -/
theorem computeLatentsMain_dst :
    (computeLatentsMain jepaEncoder sources args store).1 args.dst =
      (FillMissing.fill (encodeFresh jepaEncoder sources args) (store args.dst) args.n).1 := by
  have compute : ∀ i, encodeFresh jepaEncoder sources args i =
      jepaEncoder args.model args.device >>= fun encoder => encodeEpisode sources args encoder i :=
    fun i => rfl
  rw [computeLatentsMain]
  cases loaded : jepaEncoder args.model args.device with
  | error failure =>
      have fails : ∀ i ep, encodeFresh jepaEncoder sources args i ≠ .ok ep := by
        intro i ep computed
        rw [compute, loaded] at computed
        contradiction
      change store args.dst = _
      funext i
      cases file : store args.dst i with
      | some ep => exact (FillMissing.fill_of_cached file).symm
      | none =>
          symm
          apply Option.eq_none_iff_forall_ne_some.mpr
          intro ep written
          exact fails i ep ((FillMissing.fill_eq_some_iff file).mp written).2.2
  | ok encoder =>
      have same : encodeFresh jepaEncoder sources args = encodeEpisode sources args encoder := by
        funext i
        rw [compute, loaded, Fallible.ok_bind]
      rw [same]
      exact Function.update_self ..

theorem computeLatentsMain_of_ne {path : String} (other : path ≠ args.dst) :
    (computeLatentsMain jepaEncoder sources args store).1 path = store path := by
  rw [computeLatentsMain]
  cases jepaEncoder args.model args.device with
  | error failure => rfl
  | ok encoder => exact Function.update_of_ne other _ _

/-- A file that is there is never written again. -/
theorem computeLatentsMain_of_cached {path : String} {i : ℕ} {ep : Latents K D}
    (cached : store path i = some ep) :
    (computeLatentsMain jepaEncoder sources args store).1 path i = some ep := by
  by_cases here : path = args.dst
  · subst here
    rw [computeLatentsMain_dst]
    exact FillMissing.fill_of_cached cached
  · rw [computeLatentsMain_of_ne here]
    exact cached

/-- The settings that decide the files besides those in the name of the directory. -/
structure EncodeArgs.SameSettings (a b : EncodeArgs) : Prop where
  root : a.root = b.root
  model : a.model = b.model
  device : a.device = b.device
  step : a.step = b.step
  tail : a.tail = b.tail

theorem dst_inj {a b : EncodeArgs} (out : a.out = b.out) (same : a.dst = b.dst) :
    a.split = b.split ∧ a.frames = b.frames ∧ a.stride = b.stride ∧ a.camera = b.camera := by
  apply cacheName_inj
  apply joinPath_right_injective b.out
  rw [EncodeArgs.dst, EncodeArgs.dst, out] at same
  exact same

/-- Two invocations with the same settings that share a directory compute the same files. -/
theorem encodeFresh_congr {a b : EncodeArgs} (out : a.out = b.out) (same : a.dst = b.dst)
    (settings : a.SameSettings b) :
    encodeFresh jepaEncoder sources a = encodeFresh jepaEncoder sources b := by
  obtain ⟨split, frames, stride, camera⟩ := dst_inj out same
  have latent : a.toLatentArgs = b.toLatentArgs := by
    cases left : a.toLatentArgs
    cases right : b.toLatentArgs
    have step := settings.step
    have tail := settings.tail
    simp only [left, right] at frames stride step tail
    rw [frames, stride, step, tail]
  have src : a.src = b.src := by
    rw [EncodeArgs.src, EncodeArgs.src, settings.root, split]
  funext i
  simp only [encodeFresh, encodeEpisode]
  rw [settings.model, settings.device, latent, src, camera]

/-- After two invocations, files that were there before the second are left as they are, and the
files of the second are those of a fresh run exactly when the files that were there before it are.
That is so when the first started from an empty root and the two agree in all settings that the
name of a directory they share leaves open. -/
theorem latent_cache_reuse
    (jepaEncoder : String → String → Except PyError (VideoEncoder (List Row) Z K D))
    (sources : Sources K Row) (store : LatentStore K D) (a b : EncodeArgs) (out : a.out = b.out) :
    let first := (computeLatentsMain jepaEncoder sources a store).1
    let second := (computeLatentsMain jepaEncoder sources b first).1
    let fresh := (computeLatentsMain jepaEncoder sources b .empty).1
    (∀ i ep, first b.dst i = some ep → second b.dst i = some ep) ∧
      ((∀ i < b.n, second b.dst i = fresh b.dst i) ↔
        ∀ i < b.n, ∀ ep, first b.dst i = some ep → fresh b.dst i = some ep) ∧
      (store = .empty → (a.dst = b.dst → a.SameSettings b) →
        ∀ i < b.n, second b.dst i = fresh b.dst i) := by
  intro first second fresh
  have secondFill : second b.dst =
      (FillMissing.fill (encodeFresh jepaEncoder sources b) (first b.dst) b.n).1 :=
    computeLatentsMain_dst
  have freshFill : fresh b.dst =
      (FillMissing.fill (encodeFresh jepaEncoder sources b) (fun _ => none) b.n).1 :=
    computeLatentsMain_dst
  refine ⟨fun i ep cached => computeLatentsMain_of_cached cached, ?_, ?_⟩
  · rw [secondFill, freshFill]
    exact FillMissing.fill_eq_fill_empty_iff
  · rintro rfl settings i below
    rw [secondFill, freshFill]
    by_cases same : a.dst = b.dst
    · have firstFill : first b.dst =
          (FillMissing.fill (encodeFresh jepaEncoder sources b) (fun _ => none) a.n).1 := by
        rw [← encodeFresh_congr out same (settings same), ← same]
        exact computeLatentsMain_dst
      rw [firstFill]
      exact FillMissing.fill_fill a.n b.n below
    · have untouched : first b.dst = fun _ => none :=
        computeLatentsMain_of_ne fun equal => same equal.symm
      rw [untouched]

/-- Episodes of two frames, at every path. -/
def twoFrames : Sources ℚ Unit := fun _ _ =>
  { lowdim := some (.blank 2), mp4 := fun _ => none, npz := fun _ => some [[()], [()]] }

/-- An invocation on the clean split that encodes every `step`th frame. -/
def cleanArgs (step : ℕ) : EncodeArgs := { step, split := .clean }

/-- The encoder of the example, for every model and device. -/
def zeroEncoder : String → String → Except PyError (VideoEncoder (List Unit) Unit ℚ 1) :=
  fun _ _ => .ok (.zero (List Unit) ℚ 1)

/-- A run on an empty root whose first episode is encoded at the time stamps `ts`. -/
theorem exists_first_file {step : ℕ} {ts : List ℕ}
    (encoded : Fallible.Returns (encodeFresh zeroEncoder twoFrames (cleanArgs step) 0)
      fun ep => ep.t = ts) :
    ∃ ep, (computeLatentsMain zeroEncoder twoFrames (cleanArgs step) .empty).1
      (cleanArgs step).dst 0 = some ep ∧ ep.t = ts := by
  obtain ⟨ep, computed, times⟩ := encoded.exists_eq_ok
  refine ⟨ep, ?_, times⟩
  rw [computeLatentsMain_dst]
  apply FillMissing.fill_empty_eq_some_iff.mpr
  have positive : 0 < (cleanArgs step).n := Nat.succ_pos 99
  exact ⟨positive, fun i below => absurd below i.not_lt_zero, computed⟩

/-- The files of a run with step `2` are reused by a run with step `1`, which has twice as many
time stamps when it starts from an empty root. -/
theorem latent_cache_stale :
    let first := (computeLatentsMain zeroEncoder twoFrames (cleanArgs 2) .empty).1
    let second := (computeLatentsMain zeroEncoder twoFrames (cleanArgs 1) first).1
    let fresh := (computeLatentsMain zeroEncoder twoFrames (cleanArgs 1) .empty).1
    second (cleanArgs 1).dst 0 ≠ fresh (cleanArgs 1).dst 0 := by
  intro first second fresh same
  obtain ⟨old, written, oldTimes⟩ : ∃ ep, first (cleanArgs 2).dst 0 = some ep ∧ ep.t = [0] :=
    exists_first_file (by decide)
  obtain ⟨new, recomputed, newTimes⟩ : ∃ ep, fresh (cleanArgs 1).dst 0 = some ep ∧ ep.t = [0, 1] :=
    exists_first_file (by decide)
  have kept : second (cleanArgs 1).dst 0 = some old := computeLatentsMain_of_cached written
  rw [kept, recomputed, Option.some.injEq] at same
  rw [same, newTimes] at oldTimes
  contradiction

theorem latent_cache_reuse_clean :
    let first := (computeLatentsMain zeroEncoder twoFrames (cleanArgs 2) .empty).1
    let second := (computeLatentsMain zeroEncoder twoFrames (cleanArgs 2) first).1
    let fresh := (computeLatentsMain zeroEncoder twoFrames (cleanArgs 2) .empty).1
    ∀ i < 100, second (cleanArgs 2).dst i = fresh (cleanArgs 2).dst i :=
  (latent_cache_reuse zeroEncoder twoFrames .empty (cleanArgs 2) (cleanArgs 2) rfl).2.2 rfl
    fun _ => ⟨rfl, rfl, rfl, rfl, rfl⟩

end G1Jepa
