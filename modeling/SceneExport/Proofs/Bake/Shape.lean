import Mathlib
import SceneExport.Proofs.Bake.Schedule
import SceneExport.Proofs.Curve.Gaps
import SceneExport.Proofs.Curve.Insertion
import SceneExport.Proofs.Rounding.Whole

/-!
# The shape of a baked action

A bake that goes through gives one group for every included bone, in the order of the skeleton. A
group has the ten channels of a transform, and each of them has one key at every frame of the range.
Putting these keys in one by one, in the order of frames, gives the same channel: each of them goes
behind the ones that are there. A bake that fails does so at the first task of its schedule that
fails.
-/
namespace SceneExport

namespace Bake.FrameRange

variable {range : FrameRange} {frame : Int}

/-- All frames of a range in their order. -/
def frames (range : FrameRange) : List Int :=
  Int.range range.start (range.stop + 1)

/-- All frames of the range are numbers that floats hold exactly, as those of 32 bits are. -/
def Exact (range : FrameRange) : Prop :=
  range.start.natAbs < 0x20000000000000 ∧ range.stop.natAbs < 0x20000000000000

lemma mem_frames : frame ∈ range.frames ↔ range.start ≤ frame ∧ frame ≤ range.stop := by
  rw [frames, Int.mem_range_iff, Int.lt_add_one_iff]

lemma framesFrom_size (range : FrameRange) : framesFrom range.start range.size = range.frames := by
  rw [framesFrom_eq_map, frames, Int.range, size, sub_add_eq_add_sub]

lemma pairwise_frames (range : FrameRange) : range.frames.Pairwise (· < ·) := by
  rw [frames, Int.range, List.pairwise_map]
  refine List.pairwise_lt_range.imp fun hlt => ?_
  omega

lemma Exact.natAbs_lt (h : range.Exact) (hframe : frame ∈ range.frames) :
    frame.natAbs < 0x20000000000000 := by
  obtain ⟨hstart, hstop⟩ := h
  obtain ⟨hlo, hhi⟩ := mem_frames.mp hframe
  omega

end Bake.FrameRange

namespace Curve

/-- A key behind all others is put in at the end. -/
lemma insertKey_of_lt {α : Type} [Scalar α] {keys : List (Key α)} {frame : α} (value : α)
    (h : ∀ k ∈ keys, Scalar.order k.frame frame = .lt) :
    insertKey keys frame value = keys ++ [.plain frame value] := by
  have hend := insertKey_missing value h (List.forall_mem_nil _)
  rwa [List.append_nil] at hend

/-- The key of a sample. -/
def keyOf (sample : Int × Float) : Key Float :=
  .plain (Float.ofInt sample.1) sample.2

/-- The empty channel with the samples put in one by one. -/
def putIn (target : Target) (index : Nat) (samples : List (Int × Float)) : Curve Float :=
  samples.foldl (fun c sample => c.insert (Float.ofInt sample.1) sample.2) ⟨target, index, []⟩

variable {range : Bake.FrameRange} {samples : List (Int × Float)}

/-- Samples in the order of their frames go behind one another. -/
theorem putIn_eq (target : Target) (index : Nat)
    (hexact : ∀ sample ∈ samples, sample.1.natAbs < 0x20000000000000)
    (hsorted : samples.Pairwise fun a b => a.1 < b.1) :
    putIn target index samples = ⟨target, index, samples.map keyOf⟩ := by
  -- The last sample goes behind all that were put in before it.
  induction samples using List.reverseRecOn with
  | nil => rfl
  | append_singleton before last ih =>
    obtain ⟨hbefore, -, hlast⟩ := List.pairwise_append.mp hsorted
    have hih := ih (fun sample hsample => hexact sample (List.mem_append_left _ hsample)) hbefore
    have hlt : ∀ k ∈ before.map keyOf, Scalar.order k.frame (Float.ofInt last.1) = .lt := by
      intro k hk
      obtain ⟨sample, hsample, rfl⟩ := List.mem_map.mp hk
      exact Rounding.order_ofInt (hexact sample (List.mem_append_left _ hsample))
        (hexact last (by simp)) (hlast sample hsample last (by simp))
    rw [putIn] at hih ⊢
    rw [List.foldl_append, hih, List.foldl_cons, List.foldl_nil, insert, insertKey_of_lt _ hlt,
      List.map_append]
    rfl

/-- The curve has one key at every frame of a range, in their order. All run on as bezier curves.
Where floats hold all frames exactly, no two keys are at one frame, and the curve is made by putting
in samples one by one and then laying the handles. -/
structure Filled (range : Bake.FrameRange) (c : Curve Float) : Prop where
  frames : c.keys.map Key.frame = range.frames.map Float.ofInt
  bezier : ∀ k ∈ c.keys, k.interpolation = .bezier
  ordered : range.Exact → c.keys.Pairwise fun a b => a.frame < b.frame
  inserted : range.Exact → ∃ samples : List (Int × Float), samples.map Prod.fst = range.frames ∧
    c = smooth (putIn c.target c.index samples)

lemma filled_smooth (target : Target) (index : Nat)
    (hsamples : samples.map Prod.fst = range.frames) :
    Filled range (smooth ⟨target, index, samples.map keyOf⟩) := by
  have hframes : (smoothFrom none (samples.map keyOf)).map Key.frame =
      range.frames.map Float.ofInt := by
    rw [map_smoothFrom fun _ _ _ => rfl, ← hsamples, List.map_map, List.map_map]
    rfl
  refine ⟨hframes, fun k hk => ?_, fun hexact => ?_, fun hexact => ⟨samples, hsamples, ?_⟩⟩
  · have hmem : k.interpolation ∈ (samples.map keyOf).map Key.interpolation := by
      rw [← map_smoothFrom (fun _ _ _ => rfl) none]
      exact List.mem_map_of_mem hk
    obtain ⟨_, hmem', hsame⟩ := List.mem_map.mp hmem
    obtain ⟨sample, -, rfl⟩ := List.mem_map.mp hmem'
    exact hsame.symm
  · have hsorted : ((smoothFrom none (samples.map keyOf)).map Key.frame).Pairwise (· < ·) := by
      rw [hframes, List.pairwise_map]
      exact range.pairwise_frames.imp_of_mem fun hy hz hlt =>
        Rounding.ofInt_lt_ofInt (hexact.natAbs_lt hy) (hexact.natAbs_lt hz) hlt
    exact List.pairwise_map.mp hsorted
  · have hsorted : samples.Pairwise fun a b => a.1 < b.1 :=
      List.pairwise_map.mp (hsamples ▸ range.pairwise_frames)
    rw [putIn_eq _ _ (fun sample hsample => ?_) hsorted]
    · rfl
    · exact hexact.natAbs_lt (hsamples ▸ List.mem_map_of_mem hsample)

end Curve

/-- The group of a bone: the channels of a transform in their order, each filled. -/
structure Group.Shaped (range : Bake.FrameRange) (bone : Bone Float) (g : Group Float) : Prop where
  name : g.name = bone.name
  channels : g.channels.map (fun c => (c.target, c.index)) =
    [(.location, 0), (.location, 1), (.location, 2),
      (.quaternion, 0), (.quaternion, 1), (.quaternion, 2), (.quaternion, 3),
      (.scale, 0), (.scale, 1), (.scale, 2)]
  filled : ∀ c ∈ g.channels, c.Filled range

namespace Bake

variable {range : FrameRange}

/-- An action that is baked from bones over a range. -/
structure Baked (name : String) (range : FrameRange) (bones : List (Bone Float × Nat))
    (action : Action Float) : Prop where
  name_eq : action.name = name
  idRoot_eq : action.idRoot = .object
  range_eq : action.range = (Float.ofInt range.start, Float.ofInt range.stop)
  groups : List.Forall₂ (fun bone g => g.Shaped range bone.1) bones action.groups

lemma map_fst_track {α : Type} {samples : List (Int × List (Transform α))} {i : Nat}
    (h : ∀ sample ∈ samples, i < sample.2.length) :
    (track samples i).map Prod.fst = samples.map Prod.fst := by
  induction samples with
  | nil => rfl
  | cons first rest ih =>
    obtain ⟨frame, transforms⟩ := first
    have hget : transforms[i]? = some _ := List.getElem?_eq_getElem (h _ List.mem_cons_self)
    have hrest := ih fun sample hsample => h sample (List.mem_cons_of_mem _ hsample)
    rw [track] at hrest
    simp only [track, List.filterMap_cons, hget, Option.map_some, List.map_cons, hrest]

lemma map_fst_alignFrom {α : Type} [Scalar α] (previous : Option (Quat α))
    (track : List (Int × Transform α)) :
    (alignFrom previous track).map Prod.fst = track.map Prod.fst := by
  induction track generalizing previous with
  | nil => rfl
  | cons first rest ih => rw [alignFrom, List.map_cons, List.map_cons, ih]

lemma shaped_bakedGroup (bone : Bone Float) {track : List (Int × Transform Float)}
    (htrack : track.map Prod.fst = range.frames) :
    (bakedGroup bone.name track).Shaped range bone := by
  refine ⟨rfl, rfl, fun c hc => ?_⟩
  obtain ⟨⟨target, index⟩, -, rfl⟩ := List.mem_map.mp hc
  have hsamples : (track.map fun x => (x.1, x.2.component target index)).map Prod.fst =
      range.frames := by
    rw [List.map_map]
    exact htrack
  have hfilled := Curve.filled_smooth target index hsamples
  rw [List.map_map] at hfilled
  exact hfilled

/-- The action that is made of samples with a transform for each bone at every frame. -/
lemma baked_of_samples (name : String) {bones : List (Bone Float × Nat)}
    {samples : List (Int × List (Transform Float))} (hframes : samples.map Prod.fst = range.frames)
    (hlength : ∀ sample ∈ samples, sample.2.length = bones.length) :
    Baked name range bones
      { name
        idRoot := .object
        range := (Scalar.ofInt range.start, Scalar.ofInt range.stop)
        groups := bones.zipIdx.map fun ((bone, _), i) =>
          bakedGroup bone.name (alignFrom none (track samples i)) } := by
  refine ⟨rfl, rfl, rfl, List.forall₂_iff_get.mpr ⟨by simp, fun i hi _ => ?_⟩⟩
  simp only [List.get_eq_getElem, List.getElem_map, List.getElem_zipIdx, Nat.zero_add]
  apply shaped_bakedGroup
  rw [map_fst_alignFrom, map_fst_track, hframes]
  intro sample hsample
  rw [hlength sample hsample]
  exact hi

variable {σ : Type}

/-- A bake either passes its whole schedule and gives an action of the right shape, having set every
frame of the range, or it ends with the error of the first task that fails, having set no later
frame. -/
theorem bakeAction_cases (setup : Setup σ Float) (cfg : Config Float) (name : String)
    (range : FrameRange) (s : σ) :
    (∃ action s', (attempt (bakeAction setup cfg name range)).run s = (.ok action, s') ∧
      Passed setup cfg.inverseBias
        (schedule setup (setup.skeleton.included cfg.onlyDeforming) range.frames) s s' ∧
      s' = visited setup.evaluator range.frames s ∧
      Baked name range (setup.skeleton.included cfg.onlyDeforming) action) ∨
    ∃ task e s', (attempt (bakeAction setup cfg name range)).run s = (.error e, s') ∧
      FirstFailure setup cfg.inverseBias
        (schedule setup (setup.skeleton.included cfg.onlyDeforming) range.frames) s task e s' ∧
      task.frame ∈ range.frames ∧
      s' = visited setup.evaluator (range.frames.filter (· ≤ task.frame)) s := by
  have hruns : Runs setup cfg.inverseBias
      (fun action _ => Baked name range (setup.skeleton.included cfg.onlyDeforming) action)
      (bakeAction setup cfg name range)
      (schedule setup (setup.skeleton.included cfg.onlyDeforming) range.frames) s := by
    unfold bakeAction
    rw [← range.framesFrom_size, ← List.append_nil (schedule _ _ _)]
    refine (runs_sampleFrames _ range.size range.start s).bind fun samples _ hsamples =>
      runs_pure ?_
    exact baked_of_samples name (hsamples.1.trans range.framesFrom_size) hsamples.2
  rcases hruns with ⟨action, s', hrun, hpassed, hbaked⟩ | ⟨task, e, s', hrun, hfirst⟩
  · have hstate := hpassed.state_eq
    rw [visits_schedule] at hstate
    exact .inl ⟨action, s', hrun, hpassed, hstate, hbaked⟩
  · obtain ⟨hmem, hstate⟩ := hfirst.state_eq range.pairwise_frames
    exact .inr ⟨task, e, s', hrun, hfirst, hmem, hstate⟩

end Bake

end SceneExport
