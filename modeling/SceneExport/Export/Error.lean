import SceneExport.Bake.Error
import SceneExport.Manifest.Codec
import SceneExport.Path
import SceneExport.Template

/-!
# What can stop an export
-/
namespace SceneExport.Export

inductive Error where
  /-- A datablock is malformed, or refers to one that does not exist. -/
  | component (name reason : String)
  | file (path reason : String)
  | path (e : Path.Error)
  | missingResource (path : String)
  | template (e : Template.Error)
  | strict (warnings errors : Nat)
  | nothingToExport
  | manifest (e : Manifest.Error)
  | bake (e : Bake.Error)

/-- The name of the kind of an error. -/
def Error.tag : Error → String
  | .component _ _ => "Component"
  | .file _ _ => "File"
  | .path _ => "Path"
  | .missingResource _ => "MissingResource"
  | .template _ => "Template"
  | .strict _ _ => "Strict"
  | .nothingToExport => "NothingToExport"
  | .manifest _ => "InvalidManifest"
  | .bake e => e.tag

def Error.message : Error → String
  | .component name reason => "Component '" ++ name ++ "': " ++ reason
  | .file name reason => "File error (" ++ name ++ "): " ++ reason
  | .path e => e.message
  | .missingResource name => "Missing resource: " ++ name
  | .template e => "Template error: " ++ e.message
  | .strict warnings errors =>
    "Strict mode: export blocked by " ++ toString warnings ++ " warning(s) and " ++
      toString errors ++ " error(s)"
  | .nothingToExport => "No exported scene found. Can't perform export."
  | .manifest e => "Invalid manifest: " ++ e.message
  | .bake e => e.message

end SceneExport.Export
