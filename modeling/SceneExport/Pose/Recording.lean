import SceneExport.Pose.Evaluator

/-!
# Recorded poses

An evaluator that plays back poses recorded frame by frame. A recording may know only some actions,
and may have frames that it refuses to go to.
-/
namespace SceneExport.Pose

structure Recording (α : Type) where
  /-- The poses of the bones at each recorded frame. -/
  poses : List (Int × List (Option (Mat4 α)))
  /-- The actions it plays; any action if there is no list. -/
  known : Option (List String)
  refused : List (Int × Bake.Error)

namespace Recording

/-- Where the playback of a recording stands. -/
structure Cursor where
  action : Option String
  frame : Int

variable {α : Type}

def knows (r : Recording α) (action : String) : Bool :=
  (r.known.map fun names => names.contains action).getD true

def setAction (r : Recording α) (action : Option String) : Bake.Step Cursor Unit :=
  match action.filter fun name => !r.knows name with
  | some name => throw (.unknownAction name)
  | none => modify fun cursor => { cursor with action }

def setFrame (r : Recording α) (frame : Int) : Bake.Step Cursor Unit :=
  match r.refused.lookup frame with
  | some e => throw e
  | none => modify fun cursor => { cursor with frame }

def evaluator (r : Recording α) : Evaluator Cursor α where
  action := Cursor.action
  frame := Cursor.frame
  setAction := r.setAction
  setFrame := r.setFrame
  pose? cursor i := ((r.poses.lookup cursor.frame).bind (·[i]?)).join

end Recording

end SceneExport.Pose
