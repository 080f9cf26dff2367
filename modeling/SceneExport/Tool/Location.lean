import SceneExport.Path
import SceneExport.Text.Basic

/-!
# Absolute paths
-/
namespace SceneExport.Tool

/-- The names of a path that lead somewhere. -/
def stepNames (path : String) : List String :=
  ((Text.pieces (· = '/') path.toList).map String.ofList).filter fun name =>
    name ≠ "" && name ≠ "."

/-- The start of an absolute path: exactly two slashes are kept as they are. -/
def rootOf (path : String) : String :=
  if path.startsWith "//" && !path.startsWith "///" then "//" else "/"

/-- A path from the root on, without `.` and repeated slashes; `..` and a slash at the end stay. An
empty path leads nowhere. -/
def absolute? (workingDirectory path : String) : Option String :=
  if path.isEmpty then none
  else
    let names := stepNames path
    let joined := "/".intercalate names
    let full :=
      if path.startsWith "/" then rootOf path ++ joined
      else if names.isEmpty then workingDirectory
      else if workingDirectory.endsWith "/" then workingDirectory ++ joined
      else workingDirectory ++ "/" ++ joined
    some (if path.endsWith "/" && !full.endsWith "/" then full ++ "/" else full)

/-- The absolute path in its shortest form. -/
def absolutePlace (workingDirectory path : String) : String :=
  Path.normalize ((absolute? workingDirectory path).getD path)

/-- The directory that a path stands in; nothing for a single name. -/
def parentOf (path : String) : String :=
  match Text.lastIndex? (· = '/') path.toList with
  | none => ""
  | some 0 => "/"
  | some i => String.ofList (path.toList.take i)

end SceneExport.Tool
