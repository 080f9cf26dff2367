import SceneExport.Bake.Error
import SceneExport.Matrix.Basic

/-!
# Evaluators

A bake does not compute animation. It drives an evaluator frame by frame and reads back the poses of
the bones. An evaluator is any machine that can be set to an action and to a frame; setting may fail
and may leave the machine in another state even then.
-/
namespace SceneExport

/-- Steps of a machine with states `σ` that may fail; the state after a failure is kept. -/
abbrev Bake.Step (σ : Type) := ExceptT Bake.Error (StateM σ)

/-- Runs a step and hands back how it went, so that the steps behind it run in any case. -/
def Bake.attempt {σ β : Type} (step : Bake.Step σ β) : StateM σ (Except Bake.Error β) :=
  step.run

namespace Pose

structure Evaluator (σ α : Type) where
  action : σ → Option String
  frame : σ → Int
  setAction : Option String → Bake.Step σ Unit
  setFrame : Int → Bake.Step σ Unit
  /-- The pose of the bone at a position, in the space of the armature. -/
  pose? : σ → Nat → Option (Mat4 α)

end Pose

end SceneExport
