import Mathlib
import SceneExport.Pose.Recording
import SceneExport.Proofs.Bake.Shape
import SceneExport.Proofs.Basics
import SceneExport.Proofs.Rounding.Negation

/-!
# Rotations stay on one side

A quaternion and its negative are the same rotation, but a curve between the two is not. So the
rotation at each frame is stored with the sign that puts it on the side of the one stored before it.
Which sign that is depends on the signs chosen at all earlier frames, for each bone on its own. It
follows that no two rotations that are stored for neighbouring frames have a negative dot product,
and that each of them is the sampled one or its negative. All that is asked of the numbers is that
negating a factor turns a negative dot product into one that is not negative.
-/
namespace SceneExport

/-- A negative dot product is no longer so when its first factor is negated. -/
class Quat.NegatesDot (α : Type) [Scalar α] : Prop where
  not_neg_dot_lt : ∀ p q : Quat α, q.dot p < 0 → ¬ (-q).dot p < 0

instance Quat.negatesDotFloat : Quat.NegatesDot Float :=
  ⟨fun _ _ => Rounding.not_neg_dot_lt⟩

namespace Bake

variable {σ α : Type} [Scalar α] {setup : Setup σ α} {bias : α}
    {bones : List (Bone α × Nat)} {s s' : σ}

lemma not_alignRotation_dot_lt [Quat.NegatesDot α] {previous : Option (Quat α)} (q : Quat α)
    {p : Quat α} (hp : p ∈ previous) : ¬ (alignRotation previous q).dot p < 0 := by
  obtain rfl := Option.mem_def.mp hp
  simp only [alignRotation]
  split
  · next hlt => exact Quat.NegatesDot.not_neg_dot_lt p q hlt
  · next hlt => exact hlt

lemma alignRotation_eq (previous : Option (Quat α)) (q : Quat α) :
    alignRotation previous q = q ∨ alignRotation previous q = -q := by
  unfold alignRotation
  split
  · split
    · exact .inr rfl
    · exact .inl rfl
  · exact .inl rfl

/-- Every rotation is on the side of the one before it, as it was stored. -/
lemma isChain_alignFrom [Quat.NegatesDot α] (previous : Option (Quat α))
    (track : List (Int × Transform α)) :
    (∀ p ∈ previous, ∀ first ∈ (alignFrom previous track).head?, ¬ first.2.rotation.dot p < 0) ∧
      (alignFrom previous track).IsChain fun a b => ¬ b.2.rotation.dot a.2.rotation < 0 := by
  -- the rotation that was stored last is carried along
  induction track generalizing previous with
  | nil => exact ⟨by simp [alignFrom], .nil⟩
  | cons x rest ih =>
    obtain ⟨frame, t⟩ := x
    obtain ⟨hnext, hrest⟩ := ih (some (alignRotation previous t.rotation))
    rw [alignFrom]
    refine ⟨fun p hp first hfirst => ?_, List.isChain_cons.mpr ⟨hnext _ rfl, hrest⟩⟩
    obtain rfl := Option.some.inj hfirst
    exact not_alignRotation_dot_lt t.rotation hp

lemma exists_of_mem_alignFrom {previous : Option (Quat α)} {track : List (Int × Transform α)}
    {y : Int × Transform α} (h : y ∈ alignFrom previous track) :
    ∃ x ∈ track, x.1 = y.1 ∧ (y.2.rotation = x.2.rotation ∨ y.2.rotation = -x.2.rotation) := by
  induction track generalizing previous with
  | nil => cases h
  | cons x rest ih =>
    rw [alignFrom] at h
    rcases List.mem_cons.mp h with rfl | h
    · exact ⟨x, List.mem_cons_self, rfl, alignRotation_eq previous x.2.rotation⟩
    · obtain ⟨x', hx', hsame⟩ := ih h
      exact ⟨x', List.mem_cons_of_mem _ hx', hsame⟩

/-- The local pose of a bone, before it is taken apart. -/
def localMatrix (setup : Setup σ α) (bias : α) (state : σ) (frame : Int) (bone : Bone α) (i : Nat) :
    Except Error (Mat4 α) := do
  let pose ← readPose setup state frame bone i
  let parent ← readParent setup state frame bone
  Pose.localPose ⟨bone.rest, pose⟩ parent bias ⟨bone.name, frame⟩

lemma sampleBone_eq_map (state : σ) (frame : Int) (bone : Bone α) (i : Nat) :
    sampleBone setup bias state frame bone i =
      (localMatrix setup bias state frame bone i).map setup.decompose := by
  simp only [sampleBone, localMatrix]
  cases readPose setup state frame bone i with
  | error e => rfl
  | ok pose => cases readParent setup state frame bone <;> rfl

/-- What is read of a bone comes from its local pose. -/
lemma exists_localMatrix {state : σ} {frame : Int} {transforms : List (Transform α)}
    (h : bones.mapM (fun (bone, i) => sampleBone setup bias state frame bone i) = .ok transforms)
    {k : Nat} (hk : k < bones.length) {t : Transform α} (ht : transforms[k]? = some t) :
    ∃ m, localMatrix setup bias state frame bones[k].1 bones[k].2 = .ok m ∧
    setup.decompose m = t := by
  obtain ⟨hk', rfl⟩ := List.getElem?_eq_some_iff.mp ht
  have hread := (forall₂_of_mapM h).get hk hk'
  simp only [List.get_eq_getElem, sampleBone_eq_map] at hread
  cases hm : localMatrix setup bias state frame bones[k].1 bones[k].2 with
  | error e =>
    rw [hm] at hread
    cases hread
  | ok m =>
    rw [hm] at hread
    exact ⟨m, rfl, Except.ok.inj hread⟩

/-- A frame is read in the state that setting it leads to. -/
lemma sampleFrame_eq_ok {frame : Int} {transforms : List (Transform α)}
    (h : (attempt (sampleFrame setup bias bones frame)).run s = (.ok transforms, s')) :
    s' = visited setup.evaluator [frame] s ∧
      bones.mapM (fun (bone, i) => sampleBone setup bias s' frame bone i) = .ok transforms := by
  obtain ⟨_, s₁, hset, hread⟩ := attempt_bind_eq_ok h
  rw [attempt_bind_ok (attempt_get s₁)] at hread
  have hstate : visited setup.evaluator [frame] s = s₁ := congrArg Prod.snd hset
  cases hsamples : bones.mapM (fun (bone, i) => sampleBone setup bias s₁ frame bone i) with
  | error e =>
    rw [hsamples] at hread
    cases hread
  | ok transforms' =>
    rw [hsamples] at hread
    cases hread
    exact ⟨hstate.symm, hsamples⟩

/-- Every frame is read after all frames up to it are set. -/
lemma sampleFrames_eq_ok {count : Nat} {start : Int} {samples : List (Int × List (Transform α))}
    (h : (attempt (sampleFrames setup bias bones count start)).run s = (.ok samples, s')) :
    samples.map Prod.fst = framesFrom start count ∧ ∀ sample ∈ samples, start ≤ sample.1 ∧
      bones.mapM (fun (bone, i) => sampleBone setup bias
        (visited setup.evaluator (Int.range start (sample.1 + 1)) s) sample.1 bone i) =
          .ok sample.2 := by
  induction count generalizing start s s' samples with
  | zero =>
    cases h
    exact ⟨rfl, by simp⟩
  | succ count ih =>
    obtain ⟨transforms, s₁, hfirst, hlater⟩ := attempt_bind_eq_ok h
    obtain ⟨later, s₂, hlater, hdone⟩ := attempt_bind_eq_ok hlater
    cases hdone
    obtain ⟨rfl, htransforms⟩ := sampleFrame_eq_ok hfirst
    obtain ⟨hframes, hsamples⟩ := ih hlater
    refine ⟨congrArg (start :: ·) hframes, fun sample hsample => ?_⟩
    rcases List.mem_cons.mp hsample with rfl | hsample
    · refine ⟨le_rfl, ?_⟩
      rw [int_range_eq_cons (by simp)]
      simpa [Int.range] using htransforms
    · obtain ⟨hle, hread⟩ := hsamples sample hsample
      refine ⟨by omega, ?_⟩
      rw [int_range_eq_cons (by omega), ← List.singleton_append, visited_append]
      exact hread

lemma exists_of_mem_track {β : Type} {samples : List (Int × List (Transform β))} {k : Nat}
    {x : Int × Transform β} (h : x ∈ track samples k) :
    ∃ sample ∈ samples, sample.1 = x.1 ∧ sample.2[k]? = some x.2 := by
  obtain ⟨⟨frame, transforms⟩, hsample, hx⟩ := List.mem_filterMap.mp h
  obtain ⟨t, ht, rfl⟩ := Option.map_eq_some_iff.mp hx
  exact ⟨_, hsample, rfl, ht⟩

/-- The rotations that are stored for a bone are on one side from frame to frame. At each frame the
stored rotation is that of the local pose there or its negative. -/
structure Steadied (setup : Setup σ α) (bias : α) (range : FrameRange) (s : σ) (bone : Bone α × Nat)
    (g : Group α) (rotation : Int → Quat α) : Prop where
  name : g.name = bone.1.name
  stored : ∀ i : Fin 4, ∃ c, g.channel? .quaternion i = some c ∧
    c.keys.map (fun k => (k.frame, k.value)) = range.frames.map fun frame =>
      (Scalar.ofInt frame,
        ![(rotation frame).w, (rotation frame).x, (rotation frame).y, (rotation frame).z] i)
  sameSide : ∀ frame, range.start ≤ frame → frame < range.stop →
    ¬ (rotation (frame + 1)).dot (rotation frame) < 0
  sampled : ∀ frame, range.start ≤ frame → frame ≤ range.stop → ∃ m,
    localMatrix setup bias (visited setup.evaluator (Int.range range.start (frame + 1)) s) frame
      bone.1 bone.2
        = .ok m ∧
      (rotation frame = (setup.decompose m).rotation ∨
        rotation frame = -(setup.decompose m).rotation)

/-- The channels of a rotation in a group, from the rotations at all frames. -/
lemma stored_bakedGroup (name : String) (range : FrameRange) (transform : Int → Transform α)
    (i : Fin 4) :
    ∃ c, (bakedGroup name (range.frames.map fun frame => (frame, transform frame))).channel?
      .quaternion i =
        some c ∧
      c.keys.map (fun k => (k.frame, k.value)) = range.frames.map fun frame =>
        (Scalar.ofInt frame, ![(transform frame).rotation.w, (transform frame).rotation.x,
          (transform frame).rotation.y, (transform frame).rotation.z] i) := by
  refine ⟨Curve.smooth ⟨.quaternion, i, (range.frames.map fun frame => (frame, transform frame)).map
    fun x => Key.plain (Scalar.ofInt x.1) (x.2.component .quaternion i)⟩, ?_, ?_⟩
  · fin_cases i <;> rfl
  · rw [Curve.smooth, Curve.map_smoothFrom fun _ _ _ => rfl, List.map_map, List.map_map]
    refine List.map_congr_left fun frame _ => ?_
    fin_cases i <;> rfl

lemma FrameRange.rel_of_isChain {range : FrameRange} {r : Int → Int → Prop}
    (h : range.frames.IsChain r) {frame : Int} (hstart : range.start ≤ frame)
    (hstop : frame < range.stop) : r frame (frame + 1) := by
  rw [FrameRange.frames, Int.range, List.isChain_map, List.isChain_range] at h
  have hstep := h (frame - range.start).toNat (by omega)
  have hthis : range.start + ((frame - range.start).toNat : Int) = frame := by omega
  have hnext : range.start + ((frame - range.start).toNat.succ : Int) = frame + 1 := by omega
  rwa [hthis, hnext] at hstep

/-- The group of a bone whose samples are read frame by frame. -/
lemma exists_steadied [Quat.NegatesDot α] {range : FrameRange}
    {samples : List (Int × List (Transform α))} {k : Nat} (hk : k < bones.length)
    (hframes : samples.map Prod.fst = range.frames)
    (hsamples : ∀ sample ∈ samples, bones.mapM (fun (bone, i) => sampleBone setup bias
      (visited setup.evaluator (Int.range range.start (sample.1 + 1)) s) sample.1 bone i) =
        .ok sample.2) :
    ∃ rotation, Steadied setup bias range s bones[k]
      (bakedGroup bones[k].1.name (alignFrom none (track samples k))) rotation := by
  have hfst : (alignFrom none (track samples k)).map Prod.fst = range.frames := by
    rw [map_fst_alignFrom, map_fst_track, hframes]
    intro sample hsample
    rw [← (forall₂_of_mapM (hsamples sample hsample)).length_eq]
    exact hk
  have hnodup : ((alignFrom none (track samples k)).map Prod.fst).Nodup := by
    rw [hfst]
    exact range.pairwise_frames.imp ne_of_lt
  obtain ⟨transform, htransform⟩ := exists_eq_map_graph Transform.identity hnodup
  rw [hfst] at htransform
  have hside := (isChain_alignFrom none (track samples k)).2
  rw [htransform, List.isChain_map] at hside
  refine ⟨fun frame => (transform frame).rotation, rfl, ?_,
    fun frame => FrameRange.rel_of_isChain hside, fun frame hstart hstop => ?_⟩
  · rw [htransform]
    exact stored_bakedGroup _ range transform
  · have hmem : (frame, transform frame) ∈ alignFrom none (track samples k) := by
      rw [htransform]
      exact List.mem_map_of_mem (FrameRange.mem_frames.mpr ⟨hstart, hstop⟩)
    obtain ⟨x, hx, hframe, hrotation⟩ := exists_of_mem_alignFrom hmem
    obtain ⟨sample, hsample, hsame, hget⟩ := exists_of_mem_track hx
    obtain rfl : sample.1 = frame := hsame.trans hframe
    obtain ⟨m, hm, hdecompose⟩ := exists_localMatrix (hsamples sample hsample) hk hget
    exact ⟨m, hm, by rwa [hdecompose]⟩

/-- A bake that goes through stores rotations for each included bone that never change sides between
two frames. -/
theorem bakeAction_steadied [Quat.NegatesDot α] {cfg : Config α} {name : String}
    {range : FrameRange} {action : Action α}
    (hok : (attempt (bakeAction setup cfg name range)).run s = (.ok action, s')) :
    List.Forall₂ (fun bone g => ∃ rotation, Steadied setup cfg.inverseBias range s bone g rotation)
      (setup.skeleton.included cfg.onlyDeforming) action.groups := by
  obtain ⟨samples, s₁, hrun, hdone⟩ := attempt_bind_eq_ok hok
  cases hdone
  obtain ⟨hframes, hsamples⟩ := sampleFrames_eq_ok hrun
  refine List.forall₂_iff_get.mpr ⟨by simp, fun k hk _ => ?_⟩
  simp only [List.get_eq_getElem, List.getElem_map, List.getElem_zipIdx, Nat.zero_add]
  exact exists_steadied hk (hframes.trans range.framesFrom_size) fun sample hsample =>
    (hsamples sample hsample).2

/-- A turn of a coin about its axis, by somewhat more than a right angle. -/
def spin (z : Float) : Mat 3 Float :=
  Quat.toMatrix ⟨0.6, 0, 0, z⟩

/-- A coin that is turned one way and the other. -/
def coin : Setup Pose.Recording.Cursor Float where
  skeleton := ⟨[⟨"coin", .identity, none, true⟩], rfl⟩
  evaluator := Pose.Recording.evaluator
    ⟨[(1, [some (Transform.homogeneous (spin 0.8))]),
      (2, [some (Transform.homogeneous (spin (-0.8)))]),
      (3, [some (Transform.homogeneous (spin 0.8))])], none, []⟩
  decompose := Transform.decompose

/-- The two turns of the coin lie on different sides, and its rotations are stored on one. A sine
has no value that a proof could compare, so the sides are those of the turns that the poses are made
of. -/
theorem coin_steadied :
    (Quat.ofRotation (spin (-0.8))).dot (Quat.ofRotation (spin 0.8)) < 0 ∧
    ∃ action cursor,
    (attempt (bakeAction coin Config.usual "toss" ⟨1, 3, by decide⟩)).run ⟨none, 0⟩ =
        (.ok action, cursor) ∧
      List.Forall₂ (fun bone g => ∃ rotation,
          Steadied coin Config.usual.inverseBias ⟨1, 3, by decide⟩ ⟨none, 0⟩ bone g rotation)
        (coin.skeleton.included false) action.groups := by
  refine ⟨by decide +kernel, ?_⟩
  have hpasses :
      ((attempt (bakeAction coin Config.usual "toss" ⟨1, 3, by decide⟩)).run ⟨none, 0⟩).1.isOk =
      true := by decide +kernel
  rcases hrun : (attempt (bakeAction coin Config.usual "toss" ⟨1, 3, by decide⟩)).run ⟨none, 0⟩ with
    ⟨e | action, cursor⟩
  · rw [hrun] at hpasses
    cases hpasses
  · exact ⟨action, cursor, rfl, bakeAction_steadied hrun⟩

end Bake

end SceneExport
