import SceneExport.Action.Basic
import SceneExport.Bake.Config
import SceneExport.Bake.FrameRange
import SceneExport.Matrix.Transform
import SceneExport.Pose.Evaluator
import SceneExport.Pose.Local

/-!
# Baking an action

Every frame of a range is set on the evaluator in turn, and the local pose of every included bone is
read back as location, rotation and scale. The quaternions `q` and `-q` stand for the same rotation;
of the two the one on the side of the previous frame is kept, so rotations do not flip between
frames.

How a matrix is taken apart is a parameter, since what a bake stores where does not depend on it. It
is a function, so every matrix is taken apart after finitely many steps. A search for the nearest
rotation that goes on until it settles need not end on some finite matrices, and where it does not,
neither does the bake: of such a bake the results here say nothing.
-/
namespace SceneExport

/-- The value of one component of a transform. -/
def Transform.component {α : Type} [Scalar α] (t : Transform α) : Target → Nat → α
  | .location, i => (t.location.toList[i]?).getD 0
  | .quaternion, i => (t.rotation.toList[i]?).getD 0
  | .scale, i => (t.scale.toList[i]?).getD 0
  | .euler, _ => 0

namespace Bake

variable {σ α : Type} [Scalar α]

/-- What a bake is made of, apart from the frames. -/
structure Setup (σ α : Type) where
  skeleton : Skeleton α
  evaluator : Pose.Evaluator σ α
  /-- Takes a matrix apart. It is assumed to return on every matrix. -/
  decompose : Mat4 α → Transform α

/-- The pose of the bone at a position, in the present state of the evaluator. -/
def readPose (setup : Setup σ α) (state : σ) (frame : Int) (bone : Bone α) (i : Nat) :
    Except Error (Mat4 α) :=
  match setup.evaluator.pose? state i with
  | some pose => .ok pose
  | none => .error (.missingPose bone.name frame)

/-- Where the parent of a bone rests and where it is. -/
def readParent (setup : Setup σ α) (state : σ) (frame : Int) (bone : Bone α) :
    Except Error (Option (Pose.Placed α)) :=
  match bone.parent.bind fun p => setup.skeleton.bones[p]?.map (p, ·) with
  | some (p, parent) => do
    let pose ← readPose setup state frame parent p
    return some ⟨parent.rest, pose⟩
  | none => .ok none

/-- The local pose of a bone in the present state of the evaluator. -/
def sampleBone (setup : Setup σ α) (bias : α) (state : σ) (frame : Int) (bone : Bone α) (i : Nat) :
    Except Error (Transform α) := do
  let pose ← readPose setup state frame bone i
  let parent ← readParent setup state frame bone
  let m ← Pose.localPose ⟨bone.rest, pose⟩ parent bias ⟨bone.name, frame⟩
  return setup.decompose m

/-- One frame: the transforms of the given bones. -/
def sampleFrame (setup : Setup σ α) (bias : α) (bones : List (Bone α × Nat)) (frame : Int) :
    Step σ (List (Transform α)) := do
  setup.evaluator.setFrame frame
  let state ← get
  liftExcept (bones.mapM fun (bone, i) => sampleBone setup bias state frame bone i)
where
  liftExcept {β : Type} (r : Except Error β) : Step σ β :=
    match r with
    | .ok b => pure b
    | .error e => throw e

/-- `count` frames from `frame` on. -/
def sampleFrames (setup : Setup σ α) (bias : α) (bones : List (Bone α × Nat)) :
    (count : Nat) → (frame : Int) → Step σ (List (Int × List (Transform α)))
  | 0, _ => pure []
  | count + 1, frame => do
    let transforms ← sampleFrame setup bias bones frame
    let later ← sampleFrames setup bias bones count (frame + 1)
    return (frame, transforms) :: later

/-- The quaternion of the same rotation on the side of the previous one. -/
def alignRotation (previous : Option (Quat α)) (q : Quat α) : Quat α :=
  match previous with
  | some p => if q.dot p < 0 then -q else q
  | none => q

/-- Keeps the rotations of one bone on one side from frame to frame. -/
def alignFrom (previous : Option (Quat α)) :
    List (Int × Transform α) → List (Int × Transform α)
  | [] => []
  | (frame, t) :: rest =>
    let q := alignRotation previous t.rotation
    (frame, { t with rotation := q }) :: alignFrom (some q) rest

/-- The channels of one bone, from its transforms. -/
def bakedGroup (name : String) (track : List (Int × Transform α)) : Group α :=
  ⟨name, Group.transformChannels.map fun (target, index) =>
    Curve.smooth ⟨target, index, track.map fun (frame, t) =>
      Key.plain (Scalar.ofInt frame) (t.component target index)⟩⟩

/-- The samples of the bone at position `i` of the included ones. -/
def track (samples : List (Int × List (Transform α))) (i : Nat) : List (Int × Transform α) :=
  samples.filterMap fun (frame, transforms) => transforms[i]?.map (frame, ·)

/-- Bakes what the evaluator plays at present into an action. -/
def bakeAction (setup : Setup σ α) (cfg : Config α) (name : String) (range : FrameRange) :
    Step σ (Action α) := do
  let bones := setup.skeleton.included cfg.onlyDeforming
  let samples ← sampleFrames setup cfg.inverseBias bones range.size range.start
  return {
    name
    idRoot := .object
    range := (Scalar.ofInt range.start, Scalar.ofInt range.stop)
    groups := bones.zipIdx.map fun ((bone, _), i) =>
      bakedGroup bone.name (alignFrom none (track samples i)) }

end Bake

end SceneExport
