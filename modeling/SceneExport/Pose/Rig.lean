import SceneExport.Action.Basic
import SceneExport.Matrix.Transform
import SceneExport.Pose.Evaluator
import SceneExport.Pose.Local

/-!
# Skeletons moved by actions

A bone is placed by the pose of its parent, its rest position against that of its parent, and its
own basis. The basis comes from the curves of the active action; a component without a curve stays
at the value that changes nothing. Constraints then adjust the pose, and children follow the
adjusted pose.

The poses of a rig are always those of its present settings: every change evaluates them anew, and a
failing evaluation leaves none.
-/
namespace SceneExport.Pose

/-- Changes the pose of a bone at a frame, given the poses of the bones before it. -/
abbrev Constraint (α : Type) := (frame : Int) → (pose : Mat4 α) → (before : List (Mat4 α)) → Mat4 α

section Kinematics

variable {α : Type} [Scalar α]

/-- The pose of a bone without constraints. -/
def inherit (bias : α) (frame : Int) (basis : Bone α → Mat4 α) (placed : List (Bone α × Mat4 α))
    (bone : Bone α) : Except Bake.Error (Mat4 α) :=
  match bone.parent.bind (placed[·]?) with
  | some (parent, pose) => do
    let inverse ← invert parent.rest bias ⟨parent.name, frame⟩
    return pose * inverse * bone.rest * basis bone
  | none => .ok (bone.rest * basis bone)

/-- Places bones behind those that are placed already. -/
def placeFrom (bias : α) (frame : Int) (basis : Bone α → Mat4 α)
    (constraint? : Nat → Option (Constraint α)) (placed : List (Bone α × Mat4 α)) :
    List (Bone α) → Except Bake.Error (List (Mat4 α))
  | [] => .ok (placed.map Prod.snd)
  | bone :: rest => do
    let pose ← inherit bias frame basis placed bone
    let pose :=
      match constraint? placed.length with
      | some constrain => constrain frame pose (placed.map Prod.snd)
      | none => pose
    placeFrom bias frame basis constraint? (placed ++ [(bone, pose)]) rest

/-- The poses of all bones, from their bases. -/
def place (bias : α) (frame : Int) (basis : Bone α → Mat4 α)
    (constraint? : Nat → Option (Constraint α)) (skeleton : Skeleton α) :
    Except Bake.Error (List (Mat4 α)) :=
  placeFrom bias frame basis constraint? [] skeleton.bones

/-- Moves the pose, from frame to frame by the same amount. -/
def Constraint.offset (v : Vector α 4) : Constraint α := fun frame pose _ =>
  .ofFn fun row column =>
    if column.val = 3 then pose.entry row column + v[row] * Scalar.ofInt frame
    else pose.entry row column

def Constraint.fixed (m : Mat4 α) : Constraint α := fun _ _ _ => m

/-- Takes the pose of a bone that comes before, if it does. -/
def Constraint.copy (bone : Nat) : Constraint α := fun _ pose before =>
  before[bone]?.getD pose

/-- The value of one component in a group, or the value that changes nothing. -/
def sample (group : Group α) (frame : α) (target : Target) (index : Nat) : α :=
  ((group.channel? target index).bind fun c => c.evaluate frame).getD (target.identity index)

/-- The components of the basis that an action gives to a bone; none without a group for it. -/
def sampleBone (action : Option (Action α)) (bone : String) (frame : α) : Option (Transform α) := do
  let group ← (← action).group? bone
  let s := sample group frame
  return ⟨⟨s .location 0, s .location 1, s .location 2⟩,
    ⟨s .quaternion 0, s .quaternion 1, s .quaternion 2, s .quaternion 3⟩,
    ⟨s .scale 0, s .scale 1, s .scale 2⟩⟩

end Kinematics

variable {α : Type} [Metric α]

/-- The basis that an action gives to a bone. -/
def basis (action : Option (Action α)) (bone : String) (frame : α) : Mat4 α :=
  match sampleBone action bone frame with
  | some transform => transform.compose
  | none => .identity

structure Rig (α : Type) where
  skeleton : Skeleton α
  library : Library α
  constraint? : Nat → Option (Constraint α)
  bias : α
  action : Option String
  frame : Int
  poses : List (Mat4 α)

namespace Rig

/-- The poses of the present settings. -/
def evaluate (rig : Rig α) : Except Bake.Error (List (Mat4 α)) :=
  let action := rig.action.bind rig.library.get?
  place rig.bias rig.frame (fun bone => basis action bone.name (Scalar.ofInt rig.frame))
    rig.constraint? rig.skeleton

/-- The rig with its poses brought up to date. -/
def refresh (rig : Rig α) : Rig α :=
  { rig with poses := rig.evaluate.toOption.getD [] }

/-- A rig at frame 0, without an action. -/
def new (skeleton : Skeleton α) (library : Library α) (bias : α) : Rig α :=
  refresh
    { skeleton, library, bias
      constraint? := fun _ => none
      action := none
      frame := 0
      poses := [] }

/-- Adds a constraint, in place of one on the same bone. -/
def withConstraint (rig : Rig α) (bone : Nat) (constraint : Constraint α) : Rig α :=
  refresh
    { rig with
      constraint? := fun i => if i = bone then some constraint else rig.constraint? i }

/-- Changes what is added to the diagonal of a matrix without inverse. -/
def withBias (rig : Rig α) (bias : α) : Rig α :=
  refresh { rig with bias }

/-- Takes over changed settings. Fails when they cannot be evaluated, but keeps them. -/
def install (rig : Rig α) : Bake.Step (Rig α) Unit := do
  set rig.refresh
  match rig.evaluate with
  | .ok _ => pure ()
  | .error e => throw e

def setAction (action : Option String) : Bake.Step (Rig α) Unit := do
  let rig ← get
  match action.filter fun name => (rig.library.get? name).isNone with
  | some name => throw (.unknownAction name)
  | none => install { rig with action }

def setFrame (frame : Int) : Bake.Step (Rig α) Unit := do
  install { (← get) with frame }

def evaluator : Evaluator (Rig α) α where
  action := Rig.action
  frame := Rig.frame
  setAction := setAction
  setFrame := setFrame
  pose? rig i := rig.poses[i]?

end Rig

end SceneExport.Pose
