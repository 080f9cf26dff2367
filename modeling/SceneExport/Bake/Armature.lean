import SceneExport.Action.Optimize
import SceneExport.Bake.Action

/-!
# Baking an armature

All actions that can be baked on an object are baked one after another. An action that fails is
noted and does not keep the others from being baked. At the end the evaluator is set back to the
action and the frame it had before.
-/
namespace SceneExport.Bake

variable {σ : Type}

/-- An object that is to be baked. -/
structure Subject where
  object : String
  /-- None if the object is no armature. -/
  skeleton : Option (Skeleton Float)
  animated : Bool
  /-- The object comes from another project. -/
  linked : Bool
  /-- The actions to bake; all of them if the list is empty. -/
  actions : List String

/-- The actions that can be baked: those of objects that are not themselves the result of a bake,
out of the wanted ones. -/
def validActions (library : Library Float) (wanted : List String) (cfg : Config Float) :
    List (Action Float) :=
  library.actions.filter fun a =>
    a.idRoot = .object && !cfg.isBakedName a.name && (wanted.isEmpty || wanted.contains a.name)

structure Report where
  baked : List (Action Float)
  failed : List (String × Error)

namespace Report

def isClean (r : Report) : Bool := r.failed.isEmpty

/-- Stores the baked actions; stale ones are refilled in place. -/
def apply (r : Report) (library : Library Float) : Library Float :=
  r.baked.foldl Library.store library

def add (r : Report) (action : String) : Except Error (Action Float) → Report
  | .ok baked => { r with baked := r.baked ++ [baked] }
  | .error e => { r with failed := r.failed ++ [(action, e)] }

end Report

/-- Bakes one action and optimizes the result. -/
def bakeOne (setup : Setup σ Float) (cfg : Config Float) (action : Action Float) :
    Step σ (Action Float) := do
  setup.evaluator.setAction (some action.name)
  match FrameRange.ofActionRange action.range with
  | .error e => throw e
  | .ok range =>
    let baked ← bakeAction setup cfg (cfg.bakedName action.name) range
    return (baked.optimize cfg).1

/-- Bakes actions one after another, whether or not one fails. -/
def bakeEach (setup : Setup σ Float) (cfg : Config Float) :
    Report → List (Action Float) → StateM σ Report
  | report, [] => pure report
  | report, action :: rest => do
    let outcome ← attempt (bakeOne setup cfg action)
    bakeEach setup cfg (report.add action.name outcome) rest

/-- The skeleton of an object that can be baked, or why it cannot. -/
def Subject.check (subject : Subject) : Except Error (Skeleton Float) :=
  match subject.skeleton with
  | none => .error (.notAnArmature subject.object)
  | some skeleton =>
    if !subject.animated then .error (.noAnimationData subject.object)
    else if subject.linked then .error (.linkedObject subject.object)
    else .ok skeleton

/-- Bakes every action that can be baked on an object. -/
def bakeArmature (evaluator : Pose.Evaluator σ Float) (decompose : Mat4 Float → Transform Float)
    (cfg : Config Float) (subject : Subject) (library : Library Float) : Step σ Report := do
  match subject.check with
  | .error e => throw e
  | .ok skeleton =>
    let before ← get
    let setup : Setup σ Float := ⟨skeleton, evaluator, decompose⟩
    let report ← liftM (bakeEach setup cfg ⟨[], []⟩ (validActions library subject.actions cfg))
    evaluator.setAction (evaluator.action before)
    evaluator.setFrame (evaluator.frame before)
    return report

end SceneExport.Bake
