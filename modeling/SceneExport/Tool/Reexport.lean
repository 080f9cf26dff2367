import SceneExport.Html.Bundle
import SceneExport.Tool.SceneFile

/-!
# Exporting again

Exported files below some directories are traced back to their projects and exported again in place.
Every file gets its line in the report, and one that fails does not stop the others.
-/
namespace SceneExport.Tool

open Json (Codec Shape)

/-- What came of a file. -/
inductive Class where
  | ok
  | badJson
  | unsavedProject
  | old
  | noProject
  | emptyMeta
  | wrongPath
  /-- Not in the list of assets; the file is exported all the same. -/
  | notListed
  | exportFailure (reason : String)
  | crash (reason : String)
  deriving DecidableEq, Repr

namespace Class

def label : Class → String
  | .ok => "[OK]"
  | .badJson => "[BAD JSON]"
  | .unsavedProject => "[UNSAVED BLEND]"
  | .old => "[OLD]"
  | .noProject => "[NO BLEND]"
  | .emptyMeta => "[EMPTY META CONTENT]"
  | .wrongPath => "[WRONG PATH]"
  | .notListed => "[NOT IN MANIFEST]"
  | .exportFailure _ => "[EXPORT FAILURE]"
  | .crash _ => "[CRASH]"

def isWarning : Class → Bool
  | .notListed => true
  | _ => false

def reason? : Class → Option String
  | .exportFailure reason | .crash reason => some reason
  | _ => none

end Class

/-- One line of the report. -/
structure Report where
  path : String
  outcome : Class
  scene : Option String
  deriving DecidableEq, Repr

def Report.line (r : Report) : String :=
  r.outcome.label ++ " " ++ r.path ++ ((r.scene.map (" " ++ ·)).getD "") ++
    ((r.outcome.reason?.map fun reason => " (" ++ reason ++ ")").getD "")

structure ReexportOptions where
  /-- Nothing is exported. -/
  reportOnly : Bool
  json : Bool
  html : Bool
  player : Option String
  /-- The list that every exported manifest should be in. -/
  assets : Option String
  config : Config

/-- The files named in a list of assets, in groups. -/
def assetsCodec : Codec (List (List String)) :=
  let item : Codec String :=
    (Shape.field (.required "load_file" .text) .done).codec Prod.fst (fun s => (s, ()))
  let group : Codec (List String) :=
    (Shape.field (.defaulted "items" (.list item) []) .done).codec Prod.fst
      (fun items => (items, ()))
  .list group

/-- Whether a file name has an extension. A name that starts with its only dot has none. -/
def hasExtension (extension name : String) : Bool :=
  match Text.lastIndex? (· = '.') name.toList with
  | none | some 0 => false
  | some i => name ≠ ".." && String.ofList (name.toList.drop (i + 1)) = extension

/-- The last name of a file below a path. -/
def lastName (path : String) (names : List String) : String :=
  match names.getLast? with
  | some name => name
  | none => ((stepNames path).getLast?).getD ""

section Batch

variable {m : Type → Type} [Monad m] [Files m]

/-- The files with an extension below directories, those of each directory in order. -/
def collectFiles (directories : List String) (extension : String) : m (List String) := do
  let found ← directories.mapM fun directory => do
    let files ← Files.filesBelow directory
    let files := files.filter fun names => hasExtension extension (lastName directory names)
    return (files.mergeSort Files.namesLe).map fun names => names.foldl Files.child directory
  return found.flatten

def workingPlace (path : String) : m String :=
  return absolutePlace (← Files.workingDirectory) path

/-- The files in a list of assets, by their absolute paths. -/
def loadAssets (path : String) : ToolM m (List String) := do
  let groups ← readJson assetsCodec path (.readAssets path) (.parseAssets path)
  let base ← liftM (workingPlace (m := m) (parentOf path))
  return groups.flatten.map fun file => Path.normalize (Path.join base file)

/-- The project that an exported file names, if the file exists. -/
def sourceScene? (path relative : String) : m (Option String) := do
  let directory ← workingPlace (parentOf path)
  let scene := Path.normalize (Path.join directory relative)
  return if ← Files.isFile scene then some scene else none

/-- Runs an export in a context of its own. -/
def runExport {β : Type} (config : SceneExport.Config) (step : Export.ExportM m β) :
    m (Except Export.Error β) := do
  match Export.Context.init config with
  | .error e => return .error e
  | .ok context => return (← (ExceptT.run step).run context).1

/-- What an export came to; the project is named unless all went well. -/
def outcomeOf {β : Type} (path scene : String) : Except Export.Error β → Report
  | .ok _ => ⟨path, .ok, none⟩
  | .error e => ⟨path, .exportFailure e.message, some scene⟩

/-- Loads the project that an exported file names and checks that the project remembers this
file. -/
def traceBack (path relative : String) (saved : Project → Option String) :
    m (Except Report (String × Project × String)) := do
  match ← sourceScene? path relative with
  | none => return .error ⟨path, .noProject, none⟩
  | some scene =>
    match ← (loadScene (m := m) scene).run with
    | .error e => return .error ⟨path, .crash e.fullMessage, some scene⟩
    | .ok p =>
      let own ← workingPlace path
      if (saved p).map Path.normalize = some own then return .ok (scene, p, own)
      else return .error ⟨path, .wrongPath, some scene⟩

/-- The header of a manifest file. -/
def readHeader? (path : String) : m (Option Manifest.Header) := do
  match ← Files.readText path with
  | .error _ => return none
  | .ok text => return (Manifest.Header.ofText text).toOption

def reexportJson (options : ReexportOptions) (assets : Option (List String)) (path : String) :
    m (List Report) := do
  match ← readHeader? path with
  | none => return [⟨path, .badJson, none⟩]
  | some header =>
    if !(header.version?.map Version.isPositive).getD false then return []
    match header.source with
    | none => return [⟨path, .old, none⟩]
    | some "" => return [⟨path, .unsavedProject, none⟩]
    | some relative =>
      match ← traceBack path relative Project.exportPathJson with
      | .error report => return [report]
      | .ok (scene, p, own) =>
        let listed := (assets.map fun list => list.contains own).getD true
        let notes : List Report := if listed then [] else [⟨path, .notListed, some scene⟩]
        if options.reportOnly then return notes
        let result ← runExport options.config.output (Export.writeJson (m := m) p own)
        return notes ++ [outcomeOf path scene result]

def reexportHtml (options : ReexportOptions) (player : Option Html.Player) (path : String) :
    m (List Report) := do
  match ← Files.readText path with
  | .error _ => return [⟨path, .crash "unreadable file", none⟩]
  | .ok text =>
    match Html.findProject? text with
    | none => return []
    | some "" => return [⟨path, .emptyMeta, none⟩]
    | some relative =>
      match ← traceBack path relative Project.exportPathHtml with
      | .error report => return [report]
      | .ok (scene, p, own) =>
        if options.reportOnly then return []
        match player with
        | none =>
          return [⟨path, .exportFailure "no webplayer directory given", some scene⟩]
        | some player =>
          let result ← runExport options.config.output (Html.writeHtml (m := m) p own player)
          return [outcomeOf path scene result]

/-- The player of a directory. -/
def loadPlayer (directory : String) (config : SceneExport.Config) : ToolM m Html.Player := do
  let place ← liftM (workingPlace (m := m) directory)
  let result ← liftM (Html.Player.load (m := m) place config).run
  match result with
  | .ok player => return player
  | .error e => throw (.loadPlayer directory e)

/-- Exports all files below directories again. The manifests come first, then the documents. -/
def reexport (directories : List String) (options : ReexportOptions) : ToolM m (List Report) := do
  let assets ← options.assets.mapM (loadAssets (m := m))
  let player ←
    if options.html then
      options.player.mapM fun directory => loadPlayer (m := m) directory options.config.output
    else pure none
  let json ← liftM (do
    if !options.json then return []
    let files ← collectFiles directories "json"
    return (← files.mapM (reexportJson options assets)).flatten : m (List Report))
  let html ← liftM (do
    if !options.html then return []
    let files ← collectFiles directories "html"
    return (← files.mapM (reexportHtml options player)).flatten : m (List Report))
  return json ++ html

end Batch

end SceneExport.Tool
