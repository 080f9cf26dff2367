import SceneExport.Export.Walk

/-!
# Exports

An export gives a manifest and the contents of its binary file.
-/
namespace SceneExport.Export

structure Output where
  manifest : Manifest
  /-- None if there is no data. -/
  binary : Option Bytes

/-- Steps that may fail and that keep what the context gathered until then. -/
abbrev ExportM (m : Type → Type) := ExceptT Error (StateT Context m)

/-- Steps that need nothing but the context. -/
abbrev ContextM := ExportM Id

def liftExcept {m : Type → Type} [Monad m] {β : Type} : Except Error β → ExportM m β
  | .ok b => pure b
  | .error e => throw e

/-- A step that needs nothing but the context, among steps that need more. -/
def liftContext {m : Type → Type} [Monad m] {β : Type} (step : ContextM β) : ExportM m β := do
  let (result, context) := (ExceptT.run step).run (← get)
  set context
  liftExcept result

/-- Runs a walk and hands back its manifest. -/
def runWalk (walk : WalkM Unit) (manifest : Manifest) : ContextM Manifest := do
  let (result, w) := (ExceptT.run walk).run ⟨← get, manifest⟩
  set w.context
  liftExcept (result.map fun _ => w.manifest)

/-- The binary file that belongs to an exported file. -/
def binaryName (path : String) : String :=
  Path.stem (Path.fileName path) ++ ".bin"

/-- Exports a project to a path. What the context held before is gone; packed media stay in it. -/
def exportScene (p : Project) (path : String) (html : Bool) : ContextM Output := do
  modify fun c => c.begin path html
  let scenes := p.scenes.filter fun s => !s.doNotExport
  if scenes.isEmpty then throw .nothingToExport
  let source ← liftExcept ((Path.sourceFromExport p.filepath path).mapError .path)
  let config := (← get).config
  let manifest ← runWalk (Walk.run p scenes) (.empty config.formatVersion source)
  let context ← get
  liftExcept context.checkStrict
  let sections := context.sections
  return {
    manifest := { manifest with
      binaries := [sections.table (some (binaryName path))]
      warnings := context.messages.warnings
      errors := context.messages.errors }
    binary := if sections.isEmpty then none else some (sections.blob context.version) }

end SceneExport.Export
