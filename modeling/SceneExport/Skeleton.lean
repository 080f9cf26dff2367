import SceneExport.Bake.Error
import SceneExport.Matrix.Basic

/-!
# Skeletons

The bones of an armature, every parent before its children and every name once. The order rules out
cycles, so whatever is inherited from parents can be computed from front to back, and whatever is
collected from children from back to front.
-/
namespace SceneExport

structure Bone (α : Type) where
  name : String
  /-- Where the bone rests, in the space of the armature. -/
  rest : Mat4 α
  /-- The position of the parent in the skeleton. -/
  parent : Option Nat
  deforms : Bool
  deriving DecidableEq, Repr

namespace Skeleton

variable {α : Type}

/-- The first flaw of bones that stand behind those with the given names. -/
def flawAfter (names : List String) : List (Bone α) → Option Bake.Flaw
  | [] => none
  | bone :: rest =>
    match bone.parent.filter (names.length ≤ ·) with
    | some parent => some (.parentBehind bone.name parent)
    | none =>
      if bone.name ∈ names then some (.repeatedName bone.name)
      else flawAfter (bone.name :: names) rest

/-- The first flaw of a list of bones. -/
def flaw? (bones : List (Bone α)) : Option Bake.Flaw :=
  flawAfter [] bones

end Skeleton

structure Skeleton (α : Type) where
  bones : List (Bone α)
  sound : Skeleton.flaw? bones = none
  deriving Repr

namespace Skeleton

variable {α : Type}

/-- The skeleton of these bones, or the first flaw that rules it out. -/
def ofBones (bones : List (Bone α)) : Except Bake.Flaw (Skeleton α) :=
  match h : flaw? bones with
  | none => .ok ⟨bones, h⟩
  | some flaw => .error flaw

def indexOf? (s : Skeleton α) (name : String) : Option Nat :=
  s.bones.findIdx? fun bone => bone.name = name

/-- The bones whose parent is at position `i`, in order. -/
def children (s : Skeleton α) (i : Nat) : List Nat :=
  (List.range s.bones.length).filter fun j =>
    (s.bones[j]?.bind Bone.parent) = some i

/-- One step of the collection from back to front: a bone that is marked marks its parent. -/
def markParent (mask : List Bool) (bone : Bone α) (i : Nat) : List Bool :=
  match bone.parent with
  | some parent => if mask[i]? = some true then mask.set parent true else mask
  | none => mask

/-- For each bone, whether it or a bone below it deforms the mesh. -/
def deformMask (s : Skeleton α) : List Bool :=
  s.bones.zipIdx.foldr (fun (bone, i) mask => markParent mask bone i) (s.bones.map Bone.deforms)

/-- The bones that a bake samples, with their positions. -/
def included (s : Skeleton α) (onlyDeforming : Bool) : List (Bone α × Nat) :=
  if onlyDeforming then
    s.bones.zipIdx.filter fun (_, i) => s.deformMask[i]? = some true
  else s.bones.zipIdx

end Skeleton

end SceneExport
