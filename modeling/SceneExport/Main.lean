import SceneExport.Tool.Command

/-!
# The command line

Runs the tool on the real disk.
-/
namespace SceneExport

/-- Tries an operation and says why it failed. -/
def onDisk {β : Type} (act : IO β) : IO (Except String β) := do
  match ← act.toBaseIO with
  | .ok b => return .ok b
  | .error e => return .error (toString e)

/-- Whether there is something of a kind at a path. -/
def isOnDisk (kind : IO.FS.FileType) (path : String) : IO Bool := do
  let found ← onDisk do
    let place ← IO.FS.realPath path
    return (← place.metadata).type == kind
  return found.toOption.getD false

/-- The files below a path, by the names behind it. -/
def listBelow (path : String) : IO (List (List String)) := do
  let root ← IO.FS.realPath path
  if (← root.metadata).type == .file then return [[]]
  let mut found := []
  for place in ← root.walkDir do
    if (← place.metadata).type == .file then
      let behind := place.toString.toList.drop (root.toString.length + 1)
      found := (Text.pieces (· = '/') behind).map String.ofList :: found
  return found

instance : Files IO where
  isFile := isOnDisk .file
  isDirectory := isOnDisk .dir
  read path := onDisk do return (← IO.FS.readBinFile path).toList
  write path content := onDisk (IO.FS.writeBinFile path ⟨content.toArray⟩)
  rename source target := onDisk (IO.FS.rename source target)
  remove path := onDisk (IO.FS.removeFile path)
  makeDirectories path := onDisk (IO.FS.createDirAll path)
  filesBelow path := return (← onDisk (listBelow path)).toOption.getD []
  workingDirectory := return (← IO.currentDir).toString

end SceneExport

def main (arguments : List String) : IO UInt32 := do
  let ending ← SceneExport.Tool.run arguments
  ending.out.forM fun line => IO.println line
  ending.err.forM fun line => IO.eprintln line
  return ending.code.toUInt32
