import G1Jepa.ComputeLatents
import Mathlib.Data.List.TakeDrop

/-!
# The files of an episode

`save_episode` writes one video per camera and falls back to arrays when the video writer raises;
`load_episode` prefers a video to an array. A video that the fallback leaves behind, half written
or from an earlier run, therefore hides the array that was just saved.
-/

namespace G1Jepa

variable {K Row : Type}

/-- The cameras in the order of the dictionary `CAMERAS`. -/
def cameras : List Camera := [.agentview, .wrist]

/-- The key of a camera in the names of files. -/
def Camera.key : Camera → String
  | .agentview => "agentview"
  | .wrist => "wrist"

/-- What a video file holds: the frames that a reader yields, or `none` when reading it raises. -/
abbrev Video (Row : Type) := Option (List (List Row))

/-- The files of one episode; `none` stands for a file that does not exist. -/
structure EpisodeFiles (K Row : Type) where
  lowdim : Option (EpisodeRecord K)
  mp4 : Camera → Option (Video Row)
  npz : Camera → Option (List (List Row))

/-- A directory of episodes, by their number. -/
abbrev EpisodeDir (K Row : Type) := ℕ → EpisodeFiles K Row

/-- What `collect_episode` hands to `save_episode`: one frame for each recorded action. -/
structure CollectedEpisode (K Row : Type) where
  data : EpisodeRecord K
  frames : Camera → List (List Row)
  nonempty : data.action ≠ []
  aligned : ∀ camera, (frames camera).length = data.action.length

/-- How the video writer of one camera ends. -/
inductive WriterOutcome (Row : Type)
  /-- All frames are written and the file is closed. -/
  | finished
  /-- An exception leaves this file, or no file, under the name of the video. -/
  | raised (leftover : Option (Video Row))

/-- The format that `save_episode` reports. -/
inductive SaveFormat
  | mp4
  | npz
  deriving DecidableEq, Repr

/-- The loop over the cameras in the `try` block: whether it ran to its end, and the videos. -/
def writeVideos (writer : Camera → WriterOutcome Row) (frames : Camera → List (List Row)) :
    List Camera → (Camera → Option (Video Row)) → Bool × (Camera → Option (Video Row))
  | [], mp4 => (true, mp4)
  | camera :: rest, mp4 =>
      match writer camera with
      | .finished =>
          writeVideos writer frames rest (Function.update mp4 camera (some (some (frames camera))))
      | .raised leftover => (false, Function.update mp4 camera leftover)

/-- The fallback loop. -/
def writeArrays (frames : Camera → List (List Row)) :
    List Camera → (Camera → Option (List (List Row))) →
      Except PyError (Camera → Option (List (List Row)))
  | [], npz => .ok npz
  | camera :: rest, npz => do
      let arr ← stack (frames camera)
      writeArrays frames rest (Function.update npz camera (some arr))

/-- `save_episode`, given how the video writers end. -/
def saveEpisode (dir : EpisodeDir K Row) (idx : ℕ) (data : EpisodeRecord K)
    (frames : Camera → List (List Row)) (useMp4 : Bool) (writer : Camera → WriterOutcome Row) :
    Except PyError (EpisodeDir K Row × SaveFormat) :=
  let files := { dir idx with lowdim := some data }
  let (done, mp4) :=
    if useMp4 then writeVideos writer frames cameras files.mp4 else (false, files.mp4)
  if done then .ok (Function.update dir idx { files with mp4 }, .mp4)
  else do
    let npz ← writeArrays frames cameras files.npz
    .ok (Function.update dir idx { files with mp4, npz }, .npz)

/-- `os.path.join` of a directory and a relative name. -/
def joinPath (root name : String) : String :=
  if root = "" || root.endsWith "/" then root ++ name else root ++ "/" ++ name

/-- `f"ep_{idx:05d}"` under the root. -/
def episodeBase (root : String) (idx : ℕ) : String :=
  joinPath root ("ep_" ++ String.ofList (List.leftpad 5 '0' idx.repr.toList))

/-- `load_episode`: the frames and the record. -/
def loadEpisode (dir : EpisodeDir K Row) (root : String) (idx : ℕ) (camera : Camera) :
    Except PyError (List (List Row) × EpisodeRecord K) := do
  let files := dir idx
  let base := episodeBase root idx
  let data ← Fallible.orRaise (.fileNotFoundError (base ++ ".npz")) files.lowdim
  let mp4 := base ++ "_" ++ camera.key ++ ".mp4"
  let npz := base ++ "_" ++ camera.key ++ ".npz"
  match files.mp4 camera with
  | some video =>
      let yielded ← Fallible.orRaise (.valueError ("could not read " ++ mp4)) video
      let frames ← stack yielded
      .ok (frames, data)
  | none =>
      let frames ← Fallible.orRaise
        (.fileNotFoundError ("找不到 " ++ mp4 ++ " 或 " ++ npz)) (files.npz camera)
      .ok (frames, data)

/-! ## What is loaded after a save -/

variable {data : EpisodeRecord K} {frames : Camera → List (List Row)}
  {writer : Camera → WriterOutcome Row}

/-- A file under the name of a video does no harm when it is absent or holds the saved frames. -/
def Harmless (frames : List (List Row)) (file : Option (Video Row)) : Prop :=
  file = none ∨ file = some (some frames)

/-- The first writer that raises leaves a harmless file, and so are the files that were there
before under the names of the cameras that come after it. -/
def LeftoversHarmless (writer : Camera → WriterOutcome Row) (frames : Camera → List (List Row))
    (prior : Camera → Option (Video Row)) : List Camera → Prop
  | [] => True
  | camera :: rest =>
      match writer camera with
      | .finished => LeftoversHarmless writer frames prior rest
      | .raised leftover =>
          Harmless (frames camera) leftover ∧
            ∀ other ∈ rest, Harmless (frames other) (prior other)

theorem mem_cameras (camera : Camera) : camera ∈ cameras := by
  cases camera <;> simp [cameras]

theorem cameras_nodup : cameras.Nodup := by
  decide

theorem writeVideos_of_notMem {list : List Camera} {mp4 : Camera → Option (Video Row)}
    {camera : Camera} (absent : camera ∉ list) :
    (writeVideos writer frames list mp4).2 camera = mp4 camera := by
  induction list generalizing mp4 with
  | nil => rfl
  | cons first rest induction =>
      obtain ⟨other, later⟩ := List.ne_and_not_mem_of_not_mem_cons absent
      rw [writeVideos]
      cases writer first with
      | finished => exact (induction later).trans (Function.update_of_ne other _ _)
      | raised leftover => exact Function.update_of_ne other _ _

/-- When no writer raises, every video holds the saved frames. -/
theorem writeVideos_of_done {list : List Camera} {mp4 : Camera → Option (Video Row)}
    (nodup : list.Nodup) (done : (writeVideos writer frames list mp4).1 = true) :
    ∀ camera ∈ list,
      (writeVideos writer frames list mp4).2 camera = some (some (frames camera)) := by
  induction list generalizing mp4 with
  | nil => simp
  | cons first rest induction =>
      rw [List.nodup_cons] at nodup
      rw [writeVideos] at done ⊢
      cases outcome : writer first with
      | raised leftover =>
          rw [outcome] at done
          contradiction
      | finished =>
          rw [outcome] at done
          intro camera member
          rcases List.mem_cons.mp member with rfl | later
          · exact (writeVideos_of_notMem nodup.1).trans (Function.update_self ..)
          · exact induction nodup.2 done camera later

theorem leftoversHarmless_congr {prior prior' : Camera → Option (Video Row)} {list : List Camera}
    (same : ∀ camera ∈ list, prior camera = prior' camera) :
    LeftoversHarmless writer frames prior list ↔ LeftoversHarmless writer frames prior' list := by
  induction list with
  | nil => rfl
  | cons first rest induction =>
      rw [List.forall_mem_cons] at same
      rw [LeftoversHarmless, LeftoversHarmless]
      cases writer first with
      | finished => exact induction same.2
      | raised leftover =>
          refine and_congr_right fun _ => forall₂_congr fun other member => ?_
          rw [same.2 other member]

/-- The videos after the loop are harmless exactly when the leftovers are. -/
theorem writeVideos_harmless_iff {list : List Camera} {mp4 : Camera → Option (Video Row)}
    (nodup : list.Nodup) :
    (∀ camera ∈ list, Harmless (frames camera) ((writeVideos writer frames list mp4).2 camera)) ↔
      LeftoversHarmless writer frames mp4 list := by
  induction list generalizing mp4 with
  | nil => simp [LeftoversHarmless]
  | cons first rest induction =>
      rw [List.nodup_cons] at nodup
      have others : ∀ {file : Option (Video Row)}, ∀ camera ∈ rest,
          Function.update mp4 first file camera = mp4 camera := by
        intro file camera member
        have apart : camera ≠ first := fun same => nodup.1 (same ▸ member)
        exact Function.update_of_ne apart _ _
      rw [List.forall_mem_cons, LeftoversHarmless, writeVideos]
      cases writer first with
      | finished =>
          simp only
          rw [writeVideos_of_notMem nodup.1, Function.update_self, induction nodup.2,
            leftoversHarmless_congr others]
          exact and_iff_right (.inr rfl)
      | raised leftover =>
          simp only
          rw [Function.update_self]
          refine and_congr_right fun _ => forall₂_congr fun other member => ?_
          rw [others other member]

/-- The fallback loop stores the frames of every camera that has any. -/
theorem exists_writeArrays {list : List Camera} {npz : Camera → Option (List (List Row))}
    (nonempty : ∀ camera, frames camera ≠ []) :
    ∃ written, writeArrays frames list npz = .ok written ∧
      (∀ camera ∈ list, written camera = some (frames camera)) ∧
      ∀ camera ∉ list, written camera = npz camera := by
  induction list generalizing npz with
  | nil => exact ⟨npz, rfl, by simp, fun _ _ => rfl⟩
  | cons first rest induction =>
      obtain ⟨written, wrote, stored, kept⟩ :=
        @induction (Function.update npz first (some (frames first)))
      refine ⟨written, ?_, fun camera member => ?_, fun camera absent => ?_⟩
      · rw [writeArrays, stack, if_neg (nonempty first), Fallible.ok_bind, wrote]
      · by_cases later : camera ∈ rest
        · exact stored camera later
        · obtain rfl := (List.mem_cons.mp member).resolve_right later
          exact (kept camera later).trans (Function.update_self ..)
      · obtain ⟨other, later⟩ := List.ne_and_not_mem_of_not_mem_cons absent
        exact (kept camera later).trans (Function.update_of_ne other _ _)

theorem lowdim_of_loadEpisode {dir : EpisodeDir K Row} {root : String} {idx : ℕ}
    {camera : Camera} {loaded : List (List Row) × EpisodeRecord K}
    (returned : loadEpisode dir root idx camera = .ok loaded) :
    (dir idx).lowdim = some loaded.2 := by
  obtain ⟨data, read, rest⟩ := Fallible.bind_eq_ok.mp returned
  rw [Fallible.orRaise_eq_ok.mp read]
  split at rest
  · obtain ⟨yielded, -, rest⟩ := Fallible.bind_eq_ok.mp rest
    obtain ⟨frames, -, rest⟩ := Fallible.bind_eq_ok.mp rest
    rw [← Except.ok.inj rest]
  · obtain ⟨frames, -, rest⟩ := Fallible.bind_eq_ok.mp rest
    rw [← Except.ok.inj rest]

/-- What is loaded for a camera whose frames were saved as a video or as an array. -/
theorem loadEpisode_eq_ok_iff {dir : EpisodeDir K Row} {root : String} {idx : ℕ} {camera : Camera}
    {saved : List (List Row)} (nonempty : saved ≠ []) (lowdim : (dir idx).lowdim = some data)
    (stored : (dir idx).mp4 camera = some (some saved) ∨ (dir idx).npz camera = some saved) :
    loadEpisode dir root idx camera = .ok (saved, data) ↔
      Harmless saved ((dir idx).mp4 camera) := by
  rw [loadEpisode, lowdim, Fallible.orRaise, Fallible.ok_bind]
  rcases video : (dir idx).mp4 camera with - | - | yielded
  · have array : (dir idx).npz camera = some saved :=
      stored.resolve_left (by rw [video]; simp)
    simp only [array, Fallible.orRaise, Fallible.ok_bind]
    exact iff_of_true trivial (.inl rfl)
  · refine iff_of_false (fun loaded => ?_) ?_
    · contradiction
    · rintro (absent | whole)
      · contradiction
      · simp at whole
  · simp only [Fallible.orRaise, Fallible.ok_bind]
    rw [stack, Harmless]
    split
    case isTrue empty =>
      refine iff_of_false (fun loaded => ?_) ?_
      · contradiction
      · rintro (absent | whole)
        · contradiction
        · simp only [Option.some.injEq] at whole
          exact nonempty (whole ▸ empty)
    case isFalse => simp [Fallible.ok_bind]

/-- The files after a save: the record, the videos that the writers leave behind, and the saved
frames of every camera as a video or as an array. -/
theorem exists_saveEpisode (dir : EpisodeDir K Row) (idx : ℕ) (useMp4 : Bool)
    (writer : Camera → WriterOutcome Row) (nonempty : ∀ camera, frames camera ≠ []) :
    ∃ dir' format, saveEpisode dir idx data frames useMp4 writer = .ok (dir', format) ∧
      (dir' idx).lowdim = some data ∧
      (dir' idx).mp4 = (if useMp4 then (writeVideos writer frames cameras (dir idx).mp4).2
        else (dir idx).mp4) ∧
      ∀ camera, (dir' idx).mp4 camera = some (some (frames camera)) ∨
        (dir' idx).npz camera = some (frames camera) := by
  obtain ⟨written, wrote, stored, -⟩ :=
    @exists_writeArrays _ frames cameras (dir idx).npz nonempty
  have arrays : ∀ camera, written camera = some (frames camera) := fun camera =>
    stored camera (mem_cameras camera)
  let videos := (writeVideos writer frames cameras (dir idx).mp4).2
  cases useMp4 with
  | false =>
      refine ⟨Function.update dir idx ⟨some data, (dir idx).mp4, written⟩, .npz, ?_, ?_⟩
      · simp [saveEpisode, wrote]
      · rw [Function.update_self]
        exact ⟨rfl, rfl, fun camera => .inr (arrays camera)⟩
  | true =>
      cases done : (writeVideos writer frames cameras (dir idx).mp4).1 with
      | false =>
          refine ⟨Function.update dir idx ⟨some data, videos, written⟩, .npz, ?_, ?_⟩
          · simp [saveEpisode, wrote, done, videos]
          · rw [Function.update_self]
            exact ⟨rfl, rfl, fun camera => .inr (arrays camera)⟩
      | true =>
          refine ⟨Function.update dir idx ⟨some data, videos, (dir idx).npz⟩, .mp4, ?_, ?_⟩
          · simp [saveEpisode, done, videos]
          · rw [Function.update_self]
            exact ⟨rfl, rfl, fun camera =>
              .inl (writeVideos_of_done cameras_nodup done camera (mem_cameras camera))⟩

theorem CollectedEpisode.frames_ne_nil (episode : CollectedEpisode K Row) (camera : Camera) :
    episode.frames camera ≠ [] := by
  intro empty
  have length := episode.aligned camera
  rw [empty, List.length_nil, eq_comm, List.length_eq_zero_iff] at length
  exact episode.nonempty length

/-- A save returns, and the saved frames are loaded back for every camera, one for each recorded
action, exactly when no video that is left behind hides them. -/
theorem saveEpisode_loads_back_iff (dir : EpisodeDir K Row) (root : String) (idx : ℕ)
    (episode : CollectedEpisode K Row) (useMp4 : Bool) (writer : Camera → WriterOutcome Row) :
    ∃ dir' format,
      saveEpisode dir idx episode.data episode.frames useMp4 writer = .ok (dir', format) ∧
      ((∀ camera, ∃ loaded, loadEpisode dir' root idx camera = .ok loaded ∧
          loaded.1 = episode.frames camera ∧ loaded.1.length = loaded.2.action.length) ↔
        if useMp4 then LeftoversHarmless writer episode.frames (dir idx).mp4 cameras
        else ∀ camera, Harmless (episode.frames camera) ((dir idx).mp4 camera)) := by
  obtain ⟨dir', format, saved, lowdim, videos, stored⟩ :=
    @exists_saveEpisode K Row episode.data episode.frames dir idx useMp4 writer
      episode.frames_ne_nil
  refine ⟨dir', format, saved, ?_⟩
  have loads : ∀ camera, (∃ loaded, loadEpisode dir' root idx camera = .ok loaded ∧
      loaded.1 = episode.frames camera ∧ loaded.1.length = loaded.2.action.length) ↔
      Harmless (episode.frames camera) ((dir' idx).mp4 camera) := by
    intro camera
    rw [← loadEpisode_eq_ok_iff (episode.frames_ne_nil camera) lowdim (stored camera)]
    constructor
    · rintro ⟨⟨frames, data⟩, loaded, rfl, -⟩
      have record := lowdim_of_loadEpisode loaded
      rw [lowdim, Option.some.injEq] at record
      rw [loaded, record]
    · intro loaded
      exact ⟨_, loaded, rfl, episode.aligned camera⟩
  rw [forall_congr' loads, videos]
  cases useMp4 with
  | false => rfl
  | true =>
      rw [if_pos rfl, if_pos rfl, ← writeVideos_harmless_iff cameras_nodup]
      exact forall_congr' fun camera =>
        ⟨fun harmless _ => harmless, fun harmless => harmless (mem_cameras camera)⟩

/-- The episodes that `collect_episode` returns are collected episodes. -/
theorem exists_collectedEpisode {E R : Type} [Field K] [LinearOrder K] {env : Env K E R Row}
    {args : CollectArgs K} {s sim : E} (positive : 0 < args.maxSteps)
    (collected : collectEpisode env args s = .ok (data, frames, sim)) :
    ∃ episode : CollectedEpisode K Row, episode.data = data ∧ episode.frames = frames := by
  obtain ⟨⟨state, left⟩, reached, returned⟩ := Fallible.bind_eq_ok.mp collected
  obtain ⟨rfl, rest⟩ := Prod.mk.inj (Except.ok.inj returned)
  obtain ⟨rfl, -⟩ := Prod.mk.inj rest
  obtain ⟨n, steps⟩ := Nat.exists_eq_add_of_lt positive
  rw [steps, Nat.zero_add] at reached
  refine ⟨⟨_, _, ?_, ?_⟩, rfl, rfl⟩
  · exact action_ne_nil_of_collectLoop reached
  · exact aligned_of_collectLoop reached

/-- A directory without files. -/
def emptyDir : EpisodeDir ℚ Unit := fun _ => ⟨none, fun _ => none, fun _ => none⟩

/-- The writer of the first camera raises after one of two frames; the file that it leaves behind
is loaded, although both frames are in the array that was written instead. -/
theorem loadEpisode_partial_video :
    ∃ dir' format,
      saveEpisode emptyDir 0 (.blank 2) (fun _ => [[()], [()]]) true
          (fun _ => .raised (some (some [[()]]))) = .ok (dir', format) ∧
        ∃ loaded, loadEpisode dir' "data/clean" 0 .agentview = .ok loaded ∧
          loaded.1.length = 1 ∧ loaded.2.action.length = 2 :=
  ⟨_, _, rfl, _, rfl, rfl, rfl⟩

end G1Jepa
