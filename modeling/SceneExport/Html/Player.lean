import SceneExport.Export.Context

/-!
# The web player

The files of the player that an HTML bundle is built from.
-/
namespace SceneExport.Html

open Export (Error)

structure Player where
  directory : String
  template : String
  script : String
  style : String
  deriving DecidableEq, Repr

variable {m : Type → Type} [Monad m] [Files m]

/-- The text of a file, if there is such a file. -/
def readText? (path : String) : ExceptT Error m (Option String) := do
  if ← liftM (Files.isFile (m := m) path) then
    match ← liftM (Files.readText (m := m) path) with
    | .ok text => return some text
    | .error reason => throw (.file path reason)
  else return none

/-- Loads the player of a directory. The template may stand in a directory of its own; script and
style may be missing. -/
def Player.load (directory : String) (config : Config) : ExceptT Error m Player := do
  let nested := Path.join directory ("template/" ++ config.templateName)
  let flat := Path.join directory config.templateName
  let template ← match ← readText? nested with
    | some text => pure text
    | none =>
      match ← readText? flat with
      | some text => pure text
      | none => throw (.missingResource flat)
  let script ← readText? (Path.join directory config.scriptName)
  let style ← readText? (Path.join directory config.styleName)
  return ⟨directory, template, script.getD "", style.getD ""⟩

end SceneExport.Html
