import SceneExport.Scalar
import SceneExport.Text.Basic

/-!
# Options of the bake
-/
namespace SceneExport.Bake

/-- What the names of baked actions end in unless the options say otherwise. Exports look for it. -/
def usualSuffix : String := "_B4W_BAKED"

structure Config (α : Type) where
  /-- Added to the name of an action to name its baked form. -/
  suffix : String
  /-- Only bones that deform the mesh, or lead to one that does, are baked. -/
  onlyDeforming : Bool
  cleanKeys : Bool
  cleanThreshold : α
  /-- A channel that stays closer than this to the value that changes nothing is dropped. -/
  identityEpsilon : α
  linearTolerance : α
  /-- Added to the diagonal of a matrix without inverse before it is tried again. -/
  inverseBias : α
  deriving DecidableEq, Repr

namespace Config

variable {α : Type}

/-- The name of the baked form of an action. -/
def bakedName (cfg : Config α) (action : String) : String :=
  action ++ cfg.suffix

/-- Whether a name is that of a baked action. -/
def isBakedName (cfg : Config α) (action : String) : Bool :=
  !cfg.suffix.isEmpty && Text.contains action cfg.suffix

/-- The usual thresholds, in units of the scene. -/
def usual : Config Float where
  suffix := usualSuffix
  onlyDeforming := false
  cleanKeys := true
  cleanThreshold := 1e-3
  identityEpsilon := 1e-4
  linearTolerance := 1e-4
  inverseBias := 1e-8

end Config

end SceneExport.Bake
