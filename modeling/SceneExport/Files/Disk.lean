import SceneExport.Entries
import SceneExport.Files.Basic
import SceneExport.Text.Basic

/-!
# A model of a disk

Files and directories by their place, which is the list of names on the way from the root. A path is
followed name by name, and every name on the way but the last must be that of a directory. This also
holds for the empty name behind a slash at the end, and for the names `.` and `..`.
-/
namespace SceneExport

/-- What stands at a place. -/
inductive Node where
  | file (content : Bytes)
  | directory
  deriving DecidableEq

structure Disk where
  nodes : List (List String × Node)
  /-- The place where relative paths start. -/
  workingDirectory : List String

namespace Disk

/-- Names may be no longer than this, in bytes. -/
def nameLimit : Nat := 255

/-- Paths may be no longer than this, in bytes. -/
def pathLimit : Nat := 4095

def node? (d : Disk) (place : List String) : Option Node :=
  if place.isEmpty then some .directory else d.nodes.lookup place

def isDirectoryAt (d : Disk) (place : List String) : Bool :=
  d.node? place = some .directory

/-- The names of a path. -/
def names (path : String) : List String :=
  (Text.pieces (· = '/') path.toList).map String.ofList

/-- Goes one name further. -/
def step (d : Disk) (place : List String) (name : String) : Except String (List String) :=
  if !d.isDirectoryAt place then
    .error (if (d.node? place).isSome then "Not a directory" else "No such file or directory")
  else if nameLimit < name.utf8ByteSize then .error "File name too long"
  else if name.isEmpty || name = "." then .ok place
  else if name = ".." then .ok place.dropLast
  else .ok (place ++ [name])

/-- The place where a path starts. -/
def start (d : Disk) (path : String) : Except String (List String) :=
  if path.toList.contains '\x00' then .error "file name contained an unexpected NUL byte"
  else if pathLimit < path.utf8ByteSize then .error "File name too long"
  else .ok (if path.startsWith "/" then [] else d.workingDirectory)

/-- The place that a path leads to; there need not be anything. -/
def locate (d : Disk) (path : String) : Except String (List String) := do
  if path.isEmpty then .error "No such file or directory"
  (names path).foldlM d.step (← d.start path)

/-- What a path leads to. -/
def find? (d : Disk) (path : String) : Option Node :=
  (d.locate path).toOption.bind d.node?

def isFile (d : Disk) (path : String) : Bool :=
  match d.find? path with
  | some (.file _) => true
  | _ => false

def isDirectory (d : Disk) (path : String) : Bool :=
  match d.find? path with
  | some .directory => true
  | _ => false

def read (d : Disk) (path : String) : Except String Bytes := do
  match d.node? (← d.locate path) with
  | some (.file content) => .ok content
  | some .directory => .error "Is a directory"
  | none => .error "No such file or directory"

/-- Puts something at a place, instead of what is there. -/
def put (d : Disk) (place : List String) (node : Node) : Disk :=
  { d with nodes := Entries.put place node d.nodes }

def erase (d : Disk) (place : List String) : Disk :=
  { d with nodes := d.nodes.filter fun (p, _) => p ≠ place }

/-- A place that can hold a file. -/
def locateFile (d : Disk) (path : String) : Except String (List String) := do
  let place ← d.locate path
  if d.isDirectoryAt place then .error "Is a directory" else .ok place

def write (d : Disk) (path : String) (content : Bytes) : Except String Disk := do
  return d.put (← d.locateFile path) (.file content)

def rename (d : Disk) (source target : String) : Except String Disk := do
  let origin ← d.locateFile source
  match d.node? origin with
  | none => .error "No such file or directory"
  | some node => return (d.erase origin).put (← d.locateFile target) node

def remove (d : Disk) (path : String) : Except String Disk := do
  let place ← d.locateFile path
  if (d.node? place).isSome then return d.erase place else .error "No such file or directory"

/-- Makes the directories with these names, each in the one before. Those made before one fails
stay. -/
def makeFrom (d : Disk) (place : List String) : List String → Except String Unit × Disk
  | [] => (.ok (), d)
  | name :: rest =>
    match d.step place name with
    | .error reason => (.error reason, d)
    | .ok place =>
      match d.node? place with
      | none => makeFrom (d.put place .directory) place rest
      | some .directory => makeFrom d place rest
      | some (.file _) => (.error "Not a directory", d)

/-- Makes the directory of a path and those above it. A directory that is still missing when those
above it are made cannot be named by a dot inside it. -/
def makeDirectories (d : Disk) (path : String) : Except String Unit × Disk :=
  match d.start path with
  | .error reason => (.error reason, d)
  | .ok place =>
    let written := (names path).filter (· ≠ "")
    let steps := written.filter (· ≠ ".")
    if d.isDirectory path || written.getLast? ≠ some "." then d.makeFrom place steps
    else
      let (made, d) := d.makeFrom place steps.dropLast
      (made.bind fun _ =>
        if d.isDirectory path then .ok () else .error "No such file or directory", d)

/-- What follows the names `front` in a place. -/
def behind? : (front place : List String) → Option (List String)
  | [], rest => some rest
  | _ :: _, [] => none
  | f :: fs, p :: ps => if f = p then behind? fs ps else none

/-- Whether the path of a directory below `path` is short enough to be followed. -/
def isWithinReach (path : String) (names : List String) : Bool :=
  (names.foldl Files.child path).utf8ByteSize ≤ pathLimit

/-- The files below a path. A directory is left out with all it holds when its own path is too
long. -/
def filesBelow (d : Disk) (path : String) : List (List String) :=
  match d.locate path with
  | .error _ => []
  | .ok place => d.nodes.filterMap fun (p, node) =>
    match node with
    | .file _ => (behind? place p).filter fun names => isWithinReach path names.dropLast
    | .directory => none

/-- The files and the empty directories below a place, each by the names behind the place, in
order. -/
def leaves (d : Disk) (place : List String) : List (List String × Node) :=
  let below := d.nodes.filterMap fun (p, node) => (behind? place p).map (·, node)
  let isLeaf (p : List String) := below.all fun (q, _) => q = p || (behind? p q).isNone
  (below.filter fun (p, _) => !p.isEmpty && isLeaf p).mergeSort fun a b => Files.namesLe a.1 b.1

/-- Runs an operation that may fail and then changes nothing. -/
def attempt (f : Disk → Except String Disk) : StateM Disk (Except String Unit) := fun d =>
  match f d with
  | .ok d' => (.ok (), d')
  | .error reason => (.error reason, d)

instance : Files (StateM Disk) where
  isFile path := return (← get).isFile path
  isDirectory path := return (← get).isDirectory path
  read path := return (← get).read path
  write path content := attempt fun d => d.write path content
  rename source target := attempt fun d => d.rename source target
  remove path := attempt fun d => d.remove path
  makeDirectories path := modifyGet fun d => d.makeDirectories path
  filesBelow path := return (← get).filesBelow path
  workingDirectory := return String.join ((← get).workingDirectory.map ("/" ++ ·))

end Disk

end SceneExport
