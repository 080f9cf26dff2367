import SceneExport.Bytes.Basic

/-!
# Files

The operations on files that exports need. They run in any monad that offers them: in a model of a
disk, or on the real one. An operation that fails says why in words.
-/
namespace SceneExport

class Files (m : Type → Type) where
  isFile : String → m Bool
  isDirectory : String → m Bool
  read : String → m (Except String Bytes)
  /-- Writes a whole file, in place of one that is there. -/
  write : String → Bytes → m (Except String Unit)
  /-- Moves a file onto a path, in place of a file that is there. -/
  rename : (source target : String) → m (Except String Unit)
  remove : String → m (Except String Unit)
  /-- Makes a directory and those above it. -/
  makeDirectories : String → m (Except String Unit)
  /-- The files below a path, each as the path and the names behind it; a file has none behind
  it. -/
  filesBelow : String → m (List (List String))
  workingDirectory : m String

namespace Files

variable {m : Type → Type} [Monad m] [Files m]

/-- Reads a file as text. -/
def readText (path : String) : m (Except String String) := do
  match ← read path with
  | .error reason => return .error reason
  | .ok bytes =>
    match Bytes.toText? bytes with
    | some text => return .ok text
    | none => return .error "stream did not contain valid UTF-8"

/-- The path of a name inside a directory, spelled as the directory is. -/
def child (directory name : String) : String :=
  if directory.endsWith "/" then directory ++ name else directory ++ "/" ++ name

/-- Orders paths name by name. -/
def namesLe : (a b : List String) → Bool
  | [], _ => true
  | _ :: _, [] => false
  | a :: as, b :: bs => if a = b then namesLe as bs else a < b

end Files

end SceneExport
