import SceneExport.Json.Codec
import SceneExport.Version

/-!
# Options of an export
-/
namespace SceneExport

open Json (Codec Shape)

structure Config where
  /-- The version of the format, as `major.minor`. -/
  formatVersion : String
  /-- Nothing is written when there are messages. -/
  strict : Bool
  /-- Converted variants of movies and sounds go into HTML bundles too. -/
  convertedMedia : Bool
  /-- Files of the player that go into every HTML bundle. -/
  runtimeAssets : List String
  templateName : String
  scriptName : String
  styleName : String
  /-- The name of the manifest inside an HTML bundle. -/
  mainFile : String
  /-- The manifest is written in wide form. -/
  wide : Bool
  deriving DecidableEq, Repr

namespace Config

def usual : Config where
  formatVersion := "6.03"
  strict := false
  convertedMedia := false
  runtimeAssets := ["smaa_area_texture.png", "smaa_search_texture.png"]
  templateName := "webplayer_template.html"
  scriptName := "webplayer.min.js"
  styleName := "webplayer.min.css"
  mainFile := "main.json"
  wide := false

def version? (c : Config) : Option Version :=
  Version.ofText? c.formatVersion

/-- How the manifest is set out. -/
def style (c : Config) : Json.Style :=
  if c.wide then .wide else .compact

def codec : Codec Config :=
  (Shape.field (.defaulted "format_version" .text usual.formatVersion) <|
    .field (.defaulted "strict_mode" .bool usual.strict) <|
    .field (.defaulted "export_converted_media" .bool usual.convertedMedia) <|
    .field (.defaulted "runtime_assets" (.list .text) usual.runtimeAssets) <|
    .field (.defaulted "template_name" .text usual.templateName) <|
    .field (.defaulted "script_name" .text usual.scriptName) <|
    .field (.defaulted "style_name" .text usual.styleName) <|
    .field (.defaulted "html_main_file" .text usual.mainFile) <|
    .field (.defaulted "json_pretty" .bool usual.wide) .done).codec
    (fun (formatVersion, strict, convertedMedia, runtimeAssets, templateName, scriptName, styleName,
        mainFile, wide, _) =>
      { formatVersion, strict, convertedMedia, runtimeAssets, templateName, scriptName, styleName,
        mainFile, wide })
    (fun c => (c.formatVersion, c.strict, c.convertedMedia, c.runtimeAssets, c.templateName,
      c.scriptName, c.styleName, c.mainFile, c.wide, ()))

end Config

end SceneExport
