import SceneExport.Bytes.Base64
import SceneExport.Export.Write
import SceneExport.Html.MetaTag
import SceneExport.Html.Player

/-!
# HTML bundles

A bundle is one document that holds the player and all exported files. The files stand in a table,
by their path in the manifest, in base64. Messages that come up while the table is filled go into
the manifest that is part of it.
-/
namespace SceneExport.Html

open Export (Error Context Output ExportM)

/-- The template of the player with its parts filled in. -/
def bundle (template scripts styles data metaTag : String) : Except Error String :=
  (Template.fill template
    [("scripts", scripts), ("styles", styles), ("built_in_data", data),
      ("b4w_meta", metaTag)]).mapError
    .template

/-- The converted form of a movie, by its extension. -/
def movieVariant? (path : String) : Option String :=
  match Path.extension path with
  | ".ogv" | ".m4v" => some (Path.stem path ++ ".altconv.webm")
  | ".webm" => some (Path.stem path ++ ".altconv.m4v")
  | _ => none

/-- The converted form of a sound, by its extension. -/
def soundVariant? (path : String) : Option String :=
  match Path.extension path with
  | ".mp3" | ".mp4" => some (Path.stem path ++ ".altconv.ogg")
  | ".ogg" => some (Path.stem path ++ ".altconv.mp4")
  | _ => none

/-- The files of a bundle by name; a file that is missing is `null`. -/
abbrev Table := List (String × Json)

section Resources

variable {m : Type → Type} [Monad m] [Files m]

/-- The content of a resource in base64. -/
def encoded? (path directory : String) : ExportM m (Option String) := do
  let (result, media) ← liftM ((← get).media.resolve (m := m) path directory)
  modify fun c => { c with media }
  return (← Export.liftExcept result).map Base64.encode

/-- The content of a resource that must be there. -/
def required (path directory : String) : ExportM m Json := do
  match ← encoded? path directory with
  | some text => return .text text
  | none => throw (.missingResource (Export.Media.diskPath path directory))

/-- Adds the converted form of a file. Packed files have none. -/
def addConverted (directory source converted : String) (table : Table) : ExportM m Table := do
  if (← get).media.isPacked source then
    modify fun c => c.err
      ("Packed media '" ++ source ++ "' has not been exported to '" ++ converted ++ "'")
    return table
  else
    match ← encoded? converted directory with
    | some text => return Entries.put converted (.text text) table
    | none =>
      modify fun c => c.warn ("Converted media '" ++ converted ++ "' not found.")
      return Entries.put converted .null table

def addImage (directory : String) (table : Table) (image : Manifest.ImageEntry) :
    ExportM m Table := do
  if image.source ≠ "FILE" && image.source ≠ "MOVIE" then return table
  let value ← required image.filepath directory
  let table := Entries.put image.filepath value table
  if image.source ≠ "MOVIE" || !(← get).config.convertedMedia then return table
  match movieVariant? image.filepath with
  | none => return table
  | some converted =>
    let table ← addConverted directory image.filepath converted table
    addConverted directory image.filepath (Path.stem image.filepath ++ ".altconv.seq") table

def addSound (directory : String) (table : Table) (sound : Manifest.SoundEntry) :
    ExportM m Table := do
  let value ← required sound.filepath directory
  let table := Entries.put sound.filepath value table
  if !(← get).config.convertedMedia then return table
  match soundVariant? sound.filepath with
  | none => return table
  | some converted => addConverted directory sound.filepath converted table

def addAsset (player : String) (table : Table) (name : String) : ExportM m Table := do
  let full := Path.join player name
  match ← encoded? full "" with
  | some text => return Entries.put name (.text text) table
  | none =>
    modify fun c => c.warn ("Runtime file '" ++ full ++ "' not found.")
    return Entries.put name .null table

/-- The table of an export: the name of the manifest, the manifest, the binary file, images, sounds,
and files of the player. -/
def dataTable (output : Output) (player : String) : ExportM m Table := do
  let before ← get
  let directory := Path.directory before.path
  let mainFile := before.config.mainFile
  let table := Entries.put mainFile .null [("main_file", .text mainFile)]
  let table := match output.manifest.binaryFile?, output.binary with
    | some name, some content => Entries.put name (.text (Base64.encode content)) table
    | _, _ => table
  let table ← output.manifest.images.foldlM (addImage directory) table
  let table ← output.manifest.sounds.foldlM (addSound directory) table
  let table ← before.config.runtimeAssets.foldlM (addAsset player) table
  let messages := (← get).messages
  let manifest := { output.manifest with
    warnings := output.manifest.warnings ++ messages.warnings.drop before.messages.warnings.length
    errors := output.manifest.errors ++ messages.errors.drop before.messages.errors.length }
  return Entries.put mainFile (.text (manifest.toText .compact)) table

/-- Exports a project as the text of a document that will stand at a path. -/
def exportHtml (p : Project) (path : String) (player : Player) : ExportM m String := do
  let jsonPath := Path.join (Path.directory path) (← get).config.mainFile
  let output ← Export.liftContext (Export.exportScene p jsonPath true)
  let table ← dataTable output player.directory
  Export.liftExcept (← get).checkStrict
  let source ← Export.liftExcept ((Path.sourceFromExport p.filepath path).mapError .path)
  Export.liftExcept (bundle player.template player.script player.style
    (Json.object table).compact (metaTag source))

/-- The path of a document, with its extension. -/
def documentPath (path : String) : String :=
  if (String.ofList (path.toList.map Text.asciiLower)).endsWith ".html" then path
  else path ++ ".html"

/-- Exports a project to an HTML file; hands back the path it was written to. -/
def writeHtml (p : Project) (path : String) (player : Player) : ExportM m String := do
  let path := documentPath path
  let html ← exportHtml p path player
  let written ← liftM (Export.writeWhole (m := m) path (Bytes.ofText html))
  Export.liftExcept written
  return path

end Resources

end SceneExport.Html
