import SceneExport.Export.Scene

/-!
# Exports on disk

A file is written under another name first and then moved onto its path. Of the files of an export
the manifest comes last, since it names the others. When one of them cannot be written, those that
were written before it are removed.
-/
namespace SceneExport.Export

variable {m : Type → Type} [Monad m] [Files m]

/-- Writes a file through a second one beside it. -/
def writeWhole (path : String) (content : Bytes) : m (Except Error Unit) := do
  let part := path ++ ".part"
  match ← Files.write part content with
  | .error reason => return .error (.file part reason)
  | .ok () =>
    match ← Files.rename part path with
    | .ok () => return .ok ()
    | .error reason =>
      let _ ← Files.remove part
      return .error (.file path reason)

/-- Writes files one after another. `written` are those written before, the latest first. -/
def writeAll (written : List String) : List (String × Bytes) → m (Except Error Unit)
  | [] => return .ok ()
  | (path, content) :: rest => do
    match ← writeWhole path content with
    | .ok () => writeAll (path :: written) rest
    | .error e =>
      written.forM fun path => do
        let _ ← Files.remove path
      return .error e

/-- Makes the directory of an exported file if it does not exist. -/
def ensureDirectory (directory : String) : m (Except Error Unit) := do
  if directory.isEmpty then return .ok ()
  else if ← Files.isDirectory directory then return .ok ()
  else
    match ← Files.makeDirectories directory with
    | .ok () => return .ok ()
    | .error reason => return .error (.file directory reason)

/-- The files of an export, in the order they are written. -/
def outputFiles (context : Context) (output : Output) (path : String) : List (String × Bytes) :=
  let directory := Path.directory path
  let packed := context.media.packed.map fun (name, content) => (Path.join directory name, content)
  let binary := match output.binary, output.manifest.binaryFile? with
    | some content, some name => [(Path.join directory name, content)]
    | _, _ => []
  packed ++ binary ++ [(path, Bytes.ofText (output.manifest.toText context.config.style))]

/-- Exports a project to a manifest with its binary file and packed media beside it. -/
def writeJson (p : Project) (path : String) : ExportM m Output := do
  let output ← liftContext (exportScene p path false)
  let made ← liftM (ensureDirectory (m := m) (Path.directory path))
  liftExcept made
  let written ← liftM (writeAll (m := m) [] (outputFiles (← get) output path))
  liftExcept written
  return output

end SceneExport.Export
