import SceneExport.Decimal.Layout

/-!
# What can stop a bake
-/
namespace SceneExport.Bake

/-- Why a skeleton is refused. -/
inductive Flaw where
  | parentBehind (bone : String) (parent : Nat)
  | repeatedName (bone : String)
  deriving DecidableEq, Repr

def Flaw.message : Flaw → String
  | .parentBehind bone parent =>
    "bone '" ++ bone ++ "' references parent " ++ toString parent ++ " which does not precede it"
  | .repeatedName bone => "duplicate bone name '" ++ bone ++ "'"

inductive Error where
  | notAnArmature (object : String)
  | noAnimationData (object : String)
  | linkedObject (object : String)
  | invalidFrameRange (start stop : Float)
  | invalidSkeleton (reason : String)
  | missingPose (bone : String) (frame : Int)
  | singularMatrix (bone : String) (frame : Int)
  | topologyChanged (object : String) (frame : Int) (expected found : Nat)
  | unknownAction (name : String)
  deriving Repr

/-- The groups that reports sort failures into. -/
inductive Category where
  | precondition
  | validation
  | evaluation
  | arithmetic
  | topology
  deriving DecidableEq, Repr

def Category.label : Category → String
  | .precondition => "precondition"
  | .validation => "validation"
  | .evaluation => "evaluation"
  | .arithmetic => "math"
  | .topology => "topology"

namespace Error

/-- The name of a failure where one is written down. -/
def tag : Error → String
  | .notAnArmature _ => "NotAnArmature"
  | .noAnimationData _ => "NoAnimationData"
  | .linkedObject _ => "LinkedObject"
  | .invalidFrameRange _ _ => "InvalidFrameRange"
  | .invalidSkeleton _ => "InvalidSkeleton"
  | .missingPose _ _ => "MissingPose"
  | .singularMatrix _ _ => "SingularMatrix"
  | .topologyChanged _ _ _ _ => "TopologyChanged"
  | .unknownAction _ => "UnknownAction"

def message : Error → String
  | .notAnArmature object => "Not an armature object: " ++ object
  | .noAnimationData object => "No animation data: " ++ object
  | .linkedObject object => "Armature object is linked: " ++ object
  | .invalidFrameRange start stop =>
    "Invalid frame range [" ++ Decimal.messageText start ++ ", " ++ Decimal.messageText stop ++ "]"
  | .invalidSkeleton reason => "Invalid skeleton: " ++ reason
  | .missingPose bone frame =>
    "No evaluated pose for bone '" ++ bone ++ "' at frame " ++ toString frame
  | .singularMatrix bone frame =>
    "Singular matrix for bone '" ++ bone ++ "' at frame " ++ toString frame
  | .topologyChanged object frame expected found =>
    "Vertex count of '" ++ object ++ "' changed at frame " ++ toString frame ++ ": expected " ++
      toString expected ++ ", found " ++ toString found
  | .unknownAction name => "Unknown action: " ++ name

def category : Error → Category
  | .notAnArmature _ | .noAnimationData _ | .linkedObject _ => .precondition
  | .invalidFrameRange _ _ | .invalidSkeleton _ => .validation
  | .missingPose _ _ | .unknownAction _ => .evaluation
  | .singularMatrix _ _ => .arithmetic
  | .topologyChanged _ _ _ _ => .topology

/-- The object is not one that is baked at all; it is passed over with a note. -/
def isSkip (e : Error) : Bool :=
  e.category = .precondition

end Error

end SceneExport.Bake
