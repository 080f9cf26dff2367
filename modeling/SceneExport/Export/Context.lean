import SceneExport.Config
import SceneExport.Export.Error
import SceneExport.Files.Basic
import SceneExport.Messages
import SceneExport.Sections

/-!
# The state of an export

What one export gathers on its way: packed media, binary sections, the datablocks that are written
already, and messages. All of it is empty when the next export begins.
-/
namespace SceneExport.Export

/-- How often resources were found, and where. -/
structure Stats where
  packed : Nat
  disk : Nat
  misses : Nat
  deriving DecidableEq, Repr

/-- Packed files by their path in the manifest, in the order they were added. -/
structure Media where
  packed : List (String × Bytes)
  stats : Stats
  deriving DecidableEq, Repr

namespace Media

def empty : Media := ⟨[], ⟨0, 0, 0⟩⟩

def isPacked (m : Media) (path : String) : Bool :=
  (m.packed.lookup path).isSome

/-- Adds a file unless its path is known; says whether it was added. -/
def register (m : Media) (path : String) (content : Bytes) : Bool × Media :=
  if m.isPacked path then (false, m) else (true, { m with packed := m.packed ++ [(path, content)] })

/-- The file that a resource names, seen from a directory. -/
def diskPath (path directory : String) : String :=
  Path.normalize (Path.join directory path)

/-- The content of a resource: a packed file, else a file on disk, else nothing. -/
def resolve {m : Type → Type} [Monad m] [Files m] (media : Media) (path directory : String) :
    m (Except Error (Option Bytes) × Media) := do
  let stats := media.stats
  match media.packed.lookup path with
  | some content => return (.ok (some content), { media with stats.packed := stats.packed + 1 })
  | none =>
    let full := diskPath path directory
    if ← Files.isFile full then
      match ← Files.read full with
      | .ok content => return (.ok (some content), { media with stats.disk := stats.disk + 1 })
      | .error reason => return (.error (.file full reason), media)
    else return (.ok none, { media with stats.misses := stats.misses + 1 })

end Media

structure Context where
  config : Config
  version : Version
  media : Media
  sections : Sections
  /-- The identifiers of the datablocks that are written. -/
  exported : List String
  messages : Messages
  path : String
  html : Bool

namespace Context

/-- An empty context; the version of the format must be well-formed. -/
def init (config : Config) : Except Error Context :=
  match config.version? with
  | none => .error (.manifest (.versionRefused config.formatVersion))
  | some version => .ok {
      config, version, media := .empty, sections := .empty, exported := [], messages := .empty,
      path := "", html := false }

/-- The context at the start of an export to a path. -/
def begin (c : Context) (path : String) (html : Bool) : Context :=
  { c with
    media := .empty, sections := .empty, exported := [], messages := .empty, path, html }

def warn (c : Context) (text : String) : Context :=
  { c with messages := c.messages.warn text }

def err (c : Context) (text : String) : Context :=
  { c with messages := c.messages.err text }

def isExported (c : Context) (uuid : String) : Bool :=
  c.exported.contains uuid

/-- Notes a datablock as written; says whether it was not yet. -/
def mark (c : Context) (uuid : String) : Bool × Context :=
  if c.isExported uuid then (false, c) else (true, { c with exported := uuid :: c.exported })

/-- Fails in strict mode when there are messages. -/
def checkStrict (c : Context) : Except Error Unit :=
  if c.config.strict && !c.messages.isEmpty then
    .error (.strict c.messages.warnings.length c.messages.errors.length)
  else .ok ()

end Context

end SceneExport.Export
