import SceneExport.Action.Basic
import SceneExport.Bake.Config

/-!
# Which actions are played

An object plays the baked form of its action when there is one, and an action with a baked form is
not exported.
-/
namespace SceneExport.Library

variable {α : Type}

/-- The action to play for a name. -/
def playable? (l : Library α) (name : String) : Option (Action α) :=
  if Text.contains name Bake.usualSuffix then l.get? name
  else (l.get? (name ++ Bake.usualSuffix)).or (l.get? name)

/-- Whether an action has a baked form. -/
def hasBaked (l : Library α) (action : Action α) : Bool :=
  (l.get? (action.name ++ Bake.usualSuffix)).isSome

end SceneExport.Library
