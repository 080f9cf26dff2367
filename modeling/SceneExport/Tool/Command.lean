import SceneExport.Tool.Arguments
import SceneExport.Tool.Bake
import SceneExport.Tool.Reexport

/-!
# Commands of the tool
-/
namespace SceneExport.Tool

/-- What a command prints. -/
structure Printed where
  out : List String
  err : List String

/-- How a command ended. -/
structure Ending where
  code : UInt8
  out : List String
  err : List String

/-- Steps of a command, which print lines on the way. -/
abbrev CommandM (m : Type → Type) := ExceptT Error (StateT Printed m)

variable {m : Type → Type} [Monad m] [Files m]

def printOut (line : String) : CommandM m Unit :=
  modify fun p => { p with out := p.out ++ [line] }

def printErr (line : String) : CommandM m Unit :=
  modify fun p => { p with err := p.err ++ [line] }

/-- A step that prints nothing. -/
def quietly {β : Type} (step : ToolM m β) : CommandM m β := do
  match ← liftM (ExceptT.run step) with
  | .ok b => return b
  | .error e => throw e

/-- A part of an export; its failure is the failure of the command. -/
def exporting {β : Type} (step : m (Except Export.Error β)) : CommandM m β := do
  match ← liftM step with
  | .ok b => return b
  | .error e => throw (.exporting e)

/-- The path to export to: the one given, else the one the project remembers. -/
def outputPath (given saved : Option String) : CommandM m String :=
  match given, saved.filter fun path => !path.isEmpty with
  | some path, _ => quietly (absolutePath path)
  | none, some path => return path
  | none, none => throw .noSavedPath

def runBake (config : Config) (scene : String) (output : Option String) (objects : List String) :
    CommandM m Unit := do
  let p ← quietly (loadScene scene)
  let (summary, p) := bakeScene Transform.decompose p objects config.bake
  summary.baked.forM fun name => printOut ("baked " ++ name)
  summary.skipped.forM fun (name, e) => printOut ("skipped " ++ name ++ ": " ++ e.message)
  quietly (saveScene (output.getD scene) p)
  if !summary.failed.isEmpty then throw (.bakeFailed (summary.failed.map Prod.fst))

def runExportJson (config : Config) (scene : String) (output : Option String) (savePath : Bool) :
    CommandM m Unit := do
  let p ← quietly (loadScene scene)
  let path ← outputPath output p.exportPathJson
  let written ← exporting (runExport config.output (Export.writeJson (m := m) p path))
  (written.manifest.warnings ++ written.manifest.errors).forM fun message => printErr message.text
  if savePath then quietly (saveScene scene { p with exportPathJson := some path })
  printOut "EXPORT OK"

def runExportHtml (config : Config) (scene : String) (output : Option String) (player : String)
    (savePath : Bool) : CommandM m Unit := do
  let p ← quietly (loadScene scene)
  let path ← outputPath output p.exportPathHtml
  let place ← quietly (absolutePath player)
  let player ← exporting (Html.Player.load (m := m) place config.output).run
  let path ← exporting (runExport config.output (Html.writeHtml (m := m) p path player))
  if savePath then quietly (saveScene scene { p with exportPathHtml := some path })
  printOut "HTML EXPORT OK"

def runCommand (config : Config) : Command → CommandM m Unit
  | .bake scene output objects => runBake config scene output objects
  | .exportJson scene output savePath => runExportJson config scene output savePath
  | .exportHtml scene output player savePath => runExportHtml config scene output player savePath
  | .reexport directories reportOnly json html player assets => do
    let reports ← quietly
      (reexport directories { reportOnly, json, html, player, assets, config })
    reports.forM fun report => printOut report.line

/-- How the tool is called. -/
def usage : List String :=
  ["Usage: scene-export [--config FILE] COMMAND",
    "  bake SCENE [-o FILE] [OBJECT...]",
    "  export SCENE [-o FILE] [--save-path]",
    "  export-html SCENE --webplayer DIR [-o FILE] [--save-path]",
    "  reexport DIR... [--report-only] [--json-only | --html-only] [--webplayer DIR] " ++
      "[--assets FILE]"]

/-- Runs the tool. Wrong arguments end with code 2, failures with code 1. -/
def run (arguments : List String) : m Ending := do
  match readInvocation? none arguments with
  | none => return ⟨2, [], usage⟩
  | some invocation =>
    let steps : CommandM m Unit := do
      let config ← quietly (loadConfig invocation.config)
      runCommand config invocation.command
    let (result, printed) ← (ExceptT.run steps).run ⟨[], []⟩
    match result with
    | .ok () => return ⟨0, printed.out, printed.err⟩
    | .error e =>
      let cause := (e.cause?.map fun reason => ["", "Caused by:", "    " ++ reason]).getD []
      return ⟨1, printed.out, printed.err ++ ["Error: " ++ e.message] ++ cause⟩

end SceneExport.Tool
