import SceneExport.Export.Error

/-!
# What can stop the tool
-/
namespace SceneExport.Tool

inductive Error where
  | readConfig (path reason : String)
  | parseConfig (path : String) (fault : Json.Fault)
  | readScene (path reason : String)
  | parseScene (path : String) (fault : Json.Fault)
  | writeScene (path reason : String)
  | resolve (path : String)
  | readAssets (path reason : String)
  | parseAssets (path : String) (fault : Json.Fault)
  | loadPlayer (path : String) (e : Export.Error)
  | noSavedPath
  | bakeFailed (names : List String)
  | exporting (e : Export.Error)

namespace Error

def message : Error → String
  | .readConfig path _ => "failed to read config " ++ path
  | .parseConfig path _ => "failed to parse config " ++ path
  | .readScene path _ => "failed to read scene " ++ path
  | .parseScene path _ => "failed to parse scene " ++ path
  | .writeScene path _ => "failed to write scene " ++ path
  | .resolve path => "failed to resolve " ++ path
  | .readAssets path _ => "failed to read asset list " ++ path
  | .parseAssets path _ => "failed to parse asset list " ++ path
  | .loadPlayer path _ => "failed to load webplayer from " ++ path
  | .noSavedPath => "scene has no saved export path; pass --output"
  | .bakeFailed names => "bake failed for " ++ ", ".intercalate names
  | .exporting e => e.message

/-- What is behind a failure, in words. -/
def cause? : Error → Option String
  | .readConfig _ reason | .readScene _ reason | .writeScene _ reason | .readAssets _ reason =>
    some reason
  | .parseConfig _ fault | .parseScene _ fault | .parseAssets _ fault => some fault.message
  | .loadPlayer _ e => some e.message
  | .resolve _ | .noSavedPath | .bakeFailed _ | .exporting _ => none

/-- The failure and what is behind it, on one line. -/
def fullMessage (e : Error) : String :=
  match e.cause? with
  | some cause => e.message ++ ": " ++ cause
  | none => e.message

end Error

end SceneExport.Tool
