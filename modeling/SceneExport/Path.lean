import SceneExport.Text.Basic

/-!
# Paths, taken by their spelling

Paths in manifests use `/`, never ask a file system, and mean the same on every machine. A path is
read as an optional drive letter, a mark for absolute paths, and the names that are left when `.` is
dropped and `..` takes away the name before it. Drives are told apart so that a resource on another
drive is refused instead of getting a relative path that leads nowhere.
-/
namespace SceneExport.Path

abbrev Name := List Char

def isSlash (c : Char) : Bool :=
  c = '/' || c = '\\'

def slashed (cs : List Char) : List Char :=
  cs.map fun c => if c = '\\' then '/' else c

/-- Every backslash turned into a slash. -/
def forwardSlashes (path : String) : String :=
  String.ofList (slashed path.toList)

/-- What a path says about the place it names. -/
structure Place where
  drive : Option Char
  absolute : Bool
  names : List Name
  deriving DecidableEq, Repr

def parentName : Name := ['.', '.']

/-- Follows one more name from the names already passed, the last of them first. At the top of an
absolute path `..` leads nowhere; at the top of a relative one it is kept. -/
def follow (absolute : Bool) (passed : List Name) (name : Name) : List Name :=
  if name = [] ∨ name = ['.'] then passed
  else if name = parentName then
    match passed with
    | [] => if absolute then [] else [name]
    | last :: before =>
      if last ≠ parentName then before
      else if absolute then passed
      else name :: passed
  else name :: passed

/-- The drive letter, as a capital, and the path behind it. -/
def splitDrive (cs : List Char) : Option Char × List Char :=
  match cs with
  | c :: ':' :: rest => if Text.isAsciiLetter c then (some c.toUpper, rest) else (none, cs)
  | _ => (none, cs)

def Place.ofChars (cs : List Char) : Place :=
  let (drive, rest) := splitDrive (slashed cs)
  let absolute := rest.head? = some '/'
  { drive, absolute
    names := ((Text.pieces (· = '/') rest).foldl (follow absolute) []).reverse }

def Place.ofText (path : String) : Place :=
  .ofChars path.toList

def joinNames : List Name → List Char
  | [] => []
  | [name] => name
  | name :: names => name ++ '/' :: joinNames names

/-- The normal spelling of a place; the place that nothing is said about is `.`. -/
def Place.toChars (p : Place) : List Char :=
  let out :=
    (match p.drive with
      | some d => [d, ':']
      | none => []) ++ (if p.absolute then ['/'] else []) ++ joinNames p.names
  if out.isEmpty then ['.'] else out

def Place.toText (p : Place) : String :=
  String.ofList p.toChars

/-- Separators collapsed, `.` dropped and `..` resolved, without asking a file system. -/
def normalize (path : String) : String :=
  (Place.ofText path).toText

def isAbsolute (path : String) : Bool :=
  (Place.ofText path).absolute

/-- The directory part: nothing for a bare name, and the separator itself for a name at the root. -/
def directory (path : String) : String :=
  let cs := path.toList
  match Text.lastIndex? isSlash cs with
  | some 0 => String.ofList (cs.take 1)
  | some i => String.ofList (cs.take i)
  | none => ""

/-- Where the last name of the path starts. -/
def nameStart (cs : List Char) : Nat :=
  match Text.lastIndex? isSlash cs with
  | some i => i + 1
  | none => 0

/-- The last name of the path. -/
def fileName (path : String) : String :=
  let cs := path.toList
  String.ofList (cs.drop (nameStart cs))

/-- The path without its extension, and the extension with its dot. A dot that starts a name is part
of the name. -/
def splitExtension (path : String) : String × String :=
  let cs := path.toList
  let start := nameStart cs
  match Text.lastIndex? (· = '.') (cs.drop start) with
  | none | some 0 => (path, "")
  | some i => (String.ofList (cs.take (start + i)), String.ofList (cs.drop (start + i)))

def stem (path : String) : String := (splitExtension path).1

def extension (path : String) : String := (splitExtension path).2

/-- Without the separators at its end. -/
def trimSlashes (path : String) : String :=
  String.ofList (path.toList.reverse.dropWhile isSlash).reverse

/-- `path` as seen from the directory `base`; an absolute path stays as it is. -/
def join (base path : String) : String :=
  if base.isEmpty || isAbsolute path then path
  else trimSlashes base ++ "/" ++ path

/-- Why a path has no form relative to another one. -/
inductive Error where
  | otherDrive (path : String)
  | unrelated (path base : String)
  | exportToOtherDrive
  | neverSaved (path : String)
  deriving DecidableEq, Repr

def Error.message : Error → String
  | .otherDrive path =>
    "Loading of resources from different disk is forbidden. Couldn't load " ++ path
  | .unrelated path base => "Cannot relate '" ++ path ++ "' to '" ++ base ++ "'"
  | .exportToOtherDrive => "Export to different disk is forbidden"
  | .neverSaved path => "Can't resolve \"" ++ path ++ "\": the source file has never been saved"

/-- How many names two lists have in common at their start. -/
def commonLength : List Name → List Name → Nat
  | a :: as, b :: bs => if a = b then commonLength as bs + 1 else 0
  | _, _ => 0

/-- The names that lead from the directory `base` to `target`. -/
def Place.from (target base : Place) : Except Error (List Name) :=
  if target.drive ≠ base.drive then .error (.otherDrive target.toText)
  else if target.absolute ≠ base.absolute then .error (.unrelated target.toText base.toText)
  else
    let common := commonLength target.names base.names
    .ok (List.replicate (base.names.length - common) parentName ++ target.names.drop common)

/-- `path` relative to the directory `base`. Both must be absolute on one drive, or both relative to
one directory. -/
def relativeTo (path base : String) : Except Error String := do
  let names ← (Place.ofText path).from (Place.ofText base)
  return if names.isEmpty then "." else String.ofList (joinNames names)

/-- Without the `//` that marks paths relative to the source file. -/
def withoutSourceMark (path : String) : String :=
  match path.toList with
  | '/' :: '/' :: rest => String.ofList rest
  | _ => path

/-- A resource named from the source file, as named from the exported file. -/
def resourceFromExport (resource source exported : String) : Except Error String := do
  let place := normalize (join (directory source) (withoutSourceMark resource))
  let relative ← relativeTo place (directory exported)
  return forwardSlashes (normalize relative)

/-- The source file as named from the exported file; nothing when the source was never saved. -/
def sourceFromExport (source exported : String) : Except Error String :=
  if source.isEmpty then .ok ""
  else
    match relativeTo source (directory exported) with
    | .ok path => .ok path
    | .error _ => .error .exportToOtherDrive

end SceneExport.Path
