import SceneExport.Text.Basic

/-!
# Arguments of the tool

The first word that is no option names the command. Options may stand before and after other words,
and `--` ends them. An option is written `--name value` or `--name=value`, and with its letter `-n
value`, `-nvalue` or `-n=value`. Nothing may be given twice.
-/
namespace SceneExport.Tool

/-- An option, with a value or without one. -/
structure Switch where
  name : String
  letter : Option Char
  takesValue : Bool
  deriving DecidableEq, Repr

/-- Words taken apart. -/
structure Words where
  /-- Options with their values; the value of one that takes none is empty. -/
  given : List (String × String)
  plain : List String
  deriving DecidableEq, Repr

namespace Words

def empty : Words := ⟨[], []⟩

/-- Adds an option that is not given yet. -/
def give? (w : Words) (name value : String) : Option Words :=
  if (w.given.lookup name).isSome then none else some { w with given := w.given ++ [(name, value)] }

def has (w : Words) (name : String) : Bool := (w.given.lookup name).isSome

def value? (w : Words) (name : String) : Option String := w.given.lookup name

end Words

/-- Whether a word is an option and not a plain word. -/
def isOption (word : String) : Bool :=
  word.startsWith "-" && word ≠ "-"

/-- An option as it stands in a word: the switch, and the value that stands in the same word. -/
def splitOption? (switches : List Switch) (word : String) : Option (Switch × Option String) :=
  match word.toList with
  | '-' :: '-' :: rest =>
    let name := String.ofList (rest.takeWhile (· ≠ '='))
    let value := (rest.dropWhile (· ≠ '=')).tail?.map String.ofList
    (switches.find? fun s => s.name = name).map fun s => (s, value)
  | '-' :: letter :: rest =>
    let value := match rest with
      | [] => none
      | '=' :: value => some (String.ofList value)
      | value => some (String.ofList value)
    (switches.find? fun s => s.letter = some letter).map fun s => (s, value)
  | _ => none

/-- Values may be neither empty nor look like options. -/
def isValue (word : String) : Bool :=
  !word.isEmpty && !isOption word

/-- Takes words apart; none when they do not fit the switches. -/
def readWords (switches : List Switch) (w : Words) : List String → Option Words
  | [] => some w
  | word :: rest =>
    if word = "--" then some { w with plain := w.plain ++ rest }
    else if !isOption word then readWords switches { w with plain := w.plain ++ [word] } rest
    else
      match splitOption? switches word with
      | none => none
      | some (switch, value) =>
        match switch.takesValue, value, rest with
        | true, some value, rest =>
          if value.isEmpty then none
          else (w.give? switch.name value).bind fun w => readWords switches w rest
        | true, none, value :: rest =>
          if isValue value then
            (w.give? switch.name value).bind fun w => readWords switches w rest
          else none
        | true, none, [] => none
        | false, none, rest => (w.give? switch.name "").bind fun w => readWords switches w rest
        | false, some _, _ => none

inductive Command where
  | bake (scene : String) (output : Option String) (objects : List String)
  | exportJson (scene : String) (output : Option String) (savePath : Bool)
  | exportHtml (scene : String) (output : Option String) (player : String) (savePath : Bool)
  | reexport (directories : List String) (reportOnly json html : Bool)
      (player assets : Option String)
  deriving DecidableEq, Repr

/-- A command with the file of its options. -/
structure Invocation where
  config : Option String
  command : Command
  deriving DecidableEq, Repr

namespace Switch

def config : Switch := ⟨"config", none, true⟩
def output : Switch := ⟨"output", some 'o', true⟩
def player : Switch := ⟨"webplayer", none, true⟩
def savePath : Switch := ⟨"save-path", none, false⟩
def reportOnly : Switch := ⟨"report-only", none, false⟩
def jsonOnly : Switch := ⟨"json-only", none, false⟩
def htmlOnly : Switch := ⟨"html-only", none, false⟩
def assets : Switch := ⟨"assets", none, true⟩

end Switch

/-- The one path among the plain words. -/
def onlyPath? (w : Words) : Option String :=
  match w.plain with
  | [path] => if path.isEmpty then none else some path
  | _ => none

/-- Reads a command and its words. -/
def readCommand? (name : String) (words : List String) : Option (Words × Command) :=
  let read (switches : List Switch) := readWords (.config :: switches) .empty words
  match name with
  | "bake" => do
    let w ← read [.output]
    match w.plain with
    | [] => none
    | scene :: objects =>
      if scene.isEmpty then none else some (w, .bake scene (w.value? "output") objects)
  | "export" => do
    let w ← read [.output, .savePath]
    return (w, .exportJson (← onlyPath? w) (w.value? "output") (w.has "save-path"))
  | "export-html" => do
    let w ← read [.output, .player, .savePath]
    return (w, .exportHtml (← onlyPath? w) (w.value? "output") (← w.value? "webplayer")
      (w.has "save-path"))
  | "reexport" => do
    let w ← read [.reportOnly, .jsonOnly, .htmlOnly, .player, .assets]
    if w.plain.isEmpty || w.plain.any String.isEmpty then none
    if w.has "json-only" && w.has "html-only" then none
    return (w, .reexport w.plain (w.has "report-only") (!w.has "html-only") (!w.has "json-only")
      (w.value? "webplayer") (w.value? "assets"))
  | _ => none

/-- Reads the words before the command, of which only the option file is known, and then the
command. An option file named behind the command counts before one named in front of it. -/
def readInvocation? (config : Option String) : List String → Option Invocation
  | [] => none
  | word :: rest =>
    if isOption word then
      match splitOption? [.config] word, rest with
      | some (_, some value), rest =>
        if value.isEmpty || config.isSome then none else readInvocation? (some value) rest
      | some (_, none), value :: rest =>
        if isValue value && config.isNone then readInvocation? (some value) rest else none
      | _, _ => none
    else do
      let (w, command) ← readCommand? word rest
      return ⟨(w.value? "config").or config, command⟩

end SceneExport.Tool
