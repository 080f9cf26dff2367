import SceneExport.Matrix.Inverse
import SceneExport.Skeleton

/-!
# Local poses

The evaluated matrix of a bone holds all that its parents and constraints did to it. The local pose
is the part that the bone itself has to add to its rest position to get there, so playing it back
without constraints gives the evaluated matrix again.
-/
namespace SceneExport.Pose

variable {α : Type} [Scalar α]

/-- The bone and the frame that a matrix belongs to. -/
structure Site where
  bone : String
  frame : Int
  deriving DecidableEq, Repr

def invert (m : Mat4 α) (bias : α) (site : Site) : Except Bake.Error (Mat4 α) :=
  match m.safeInverse? bias with
  | some inverse => .ok inverse
  | none => .error (.singularMatrix site.bone site.frame)

/-- Where a bone rests and where it is. -/
structure Placed (α : Type) where
  rest : Mat4 α
  pose : Mat4 α

/-- What moves the rest position of a bone to its pose. -/
def Placed.channel (p : Placed α) (bias : α) (site : Site) : Except Bake.Error (Mat4 α) := do
  let inverse ← invert p.rest bias site
  return p.pose * inverse

/-- The local pose of a bone under its parent. -/
def localPose (bone : Placed α) (parent : Option (Placed α)) (bias : α) (site : Site) :
    Except Bake.Error (Mat4 α) := do
  let inverse ← invert bone.rest bias site
  let channel := bone.pose * inverse
  let own ← match parent with
    | none => .ok channel
    | some parent => do
      let above ← parent.channel bias site
      let back ← invert above bias site
      .ok (back * channel)
  return inverse * own * bone.rest

end SceneExport.Pose
