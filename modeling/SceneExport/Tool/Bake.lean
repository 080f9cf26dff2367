import SceneExport.Bake.Armature
import SceneExport.Pose.Rig
import SceneExport.Project.Basic

/-!
# Baking a project

The actions of several objects are baked, each from the library as it was, and the results stored
afterwards.
-/
namespace SceneExport.Tool

open Project (Object)

structure BakeSummary where
  /-- The names of the baked actions. -/
  baked : List String
  /-- Objects that are not baked at all. -/
  skipped : List (String × Bake.Error)
  /-- Actions and objects that failed. -/
  failed : List (String × Bake.Error)

/-- The skeleton of an object, if it is an armature. -/
def skeletonOf? (p : Project) (o : Object) : Option (Skeleton Float) := do
  if o.kind ≠ .armature then none
  let armature ← p.armature? (← o.data)
  return armature.skeleton

/-- Bakes the actions of one object. -/
def bakeObject (decompose : Mat4 Float → Transform Float) (p : Project) (cfg : Bake.Config Float)
    (name : String) : Except Bake.Error Bake.Report :=
  match p.object? name with
  | none => .error (.notAnArmature name)
  | some o =>
    let skeleton := skeletonOf? p o
    let subject : Bake.Subject :=
      { object := o.name, skeleton, animated := o.animation.isSome, linked := o.library.isSome
        actions := o.bakedActions }
    match skeleton with
    | none => .error (.notAnArmature o.name)
    | some skeleton =>
      let rig := Pose.Rig.new skeleton p.actions cfg.inverseBias
      let steps : Bake.Step (Pose.Rig Float) Bake.Report := do
        if let some action := o.animation.bind Project.AnimationData.action then
          Pose.Rig.setAction (some action)
        Bake.bakeArmature Pose.Rig.evaluator decompose cfg subject p.actions
      ((Bake.attempt steps).run rig).1

/-- The objects to bake: those asked for, or all armatures. -/
def objectsToBake (p : Project) (wanted : List String) : List String :=
  if wanted.isEmpty then (p.objects.filter fun o => o.kind = .armature).map Object.name else wanted

/-- Adds what came of one object. -/
def BakeSummary.add (s : BakeSummary) (name : String) : Except Bake.Error Bake.Report → BakeSummary
  | .ok _ => s
  | .error e =>
    if e.isSkip then { s with skipped := s.skipped ++ [(name, e)] }
    else { s with failed := s.failed ++ [(name, e)] }

/-- Bakes objects and stores the baked actions in the library of the project. -/
def bakeScene (decompose : Mat4 Float → Transform Float) (p : Project) (wanted : List String)
    (cfg : Bake.Config Float) : BakeSummary × Project :=
  let outcomes := (objectsToBake p wanted).map fun name => (name, bakeObject decompose p cfg name)
  let summary : BakeSummary :=
    outcomes.foldl (fun s (name, outcome) => BakeSummary.add s name outcome) ⟨[], [], []⟩
  let reports := outcomes.filterMap fun (_, outcome) => outcome.toOption
  ({ summary with
      baked := reports.flatMap fun r => r.baked.map Action.name
      failed := summary.failed ++ reports.flatMap Bake.Report.failed },
    { p with actions := reports.foldl (fun library r => r.apply library) p.actions })

end SceneExport.Tool
