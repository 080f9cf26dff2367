import SceneExport.Files.Basic
import SceneExport.Project.Codec
import SceneExport.Tool.Config
import SceneExport.Tool.Error
import SceneExport.Tool.Location

/-!
# Files of the tool
-/
namespace SceneExport.Tool

variable {m : Type → Type} [Monad m] [Files m]

/-- Steps of the tool. -/
abbrev ToolM (m : Type → Type) := ExceptT Error m

/-- Reads a file as JSON. -/
def readJson {α : Type} (codec : Json.Codec α) (path : String) (unreadable : String → Error)
    (unparsable : Json.Fault → Error) : ToolM m α := do
  match ← liftM (Files.readText (m := m) path) with
  | .error reason => throw (unreadable reason)
  | .ok text =>
    match codec.ofText text with
    | .error fault => throw (unparsable fault)
    | .ok a => return a

/-- The options in a file, or the usual ones. -/
def loadConfig (path : Option String) : ToolM m Config :=
  match path with
  | none => return .usual
  | some path => readJson Config.codec path (.readConfig path) (.parseConfig path)

/-- The absolute form of a path. -/
def absolutePath (path : String) : ToolM m String := do
  match absolute? (← liftM (Files.workingDirectory (m := m))) path with
  | some full => return full
  | none => throw (.resolve path)

/-- Reads a project. One that does not say where it is saved is saved where it was read from. -/
def loadScene (path : String) : ToolM m Project := do
  let p ← readJson Project.codec path (.readScene path) (.parseScene path)
  if p.isSaved then return p
  else return { p with filepath := ← absolutePath path }

/-- Writes a project in wide form. -/
def saveScene (path : String) (p : Project) : ToolM m Unit := do
  let text := Project.codec.toText .wide p
  match ← liftM (Files.write (m := m) path (Bytes.ofText text)) with
  | .ok () => return ()
  | .error reason => throw (.writeScene path reason)

end SceneExport.Tool
