import SceneExport.Action.Basic
import SceneExport.Bake.Vertex
import SceneExport.Bytes.Basic
import SceneExport.Identity
import SceneExport.Skeleton

/-!
# Projects

The description of scenes and of all they are made of. Datablocks refer to each other by name; of
several datablocks of one kind and name the first is meant.
-/
namespace SceneExport

namespace Project

structure Scene where
  name : String
  library : Option String
  /-- The names of its objects. -/
  objects : List String
  frameStart : Int
  frameEnd : Int
  fps : Float
  camera : Option String
  doNotExport : Bool

inductive ObjectKind where
  | mesh
  | armature
  | empty
  | camera
  | lamp
  | speaker
  deriving DecidableEq, Repr

def ObjectKind.label : ObjectKind → String
  | .mesh => "MESH"
  | .armature => "ARMATURE"
  | .empty => "EMPTY"
  | .camera => "CAMERA"
  | .lamp => "LAMP"
  | .speaker => "SPEAKER"

/-- That an object is animated, and the name of the action it plays. -/
structure AnimationData where
  action : Option String

structure Object where
  name : String
  library : Option String
  kind : ObjectKind
  /-- The name of its mesh, armature or speaker. -/
  data : Option String
  parent : Option String
  /-- Sixteen numbers, column after column. -/
  matrix : Vector Float 16
  animation : Option AnimationData
  /-- The actions that are baked on it; all of them if the list is empty. -/
  bakedActions : List String
  exportVertexAnimations : Bool
  vertexAnimations : List Bake.VertexAnimation
  doNotExport : Bool

structure Mesh where
  name : String
  library : Option String
  positions : List (Vector Float32 3)
  normals : List (Vector Float32 3)
  indices : List UInt32
  materials : List String

structure Material where
  name : String
  library : Option String
  color : Vector Float32 3
  alpha : Float32
  transparent : Bool
  textures : List String

structure Texture where
  name : String
  library : Option String
  image : Option String

inductive ImageSource where
  | file
  | movie
  | sequence
  | generated
  deriving DecidableEq, Repr

def ImageSource.label : ImageSource → String
  | .file => "FILE"
  | .movie => "MOVIE"
  | .sequence => "SEQUENCE"
  | .generated => "GENERATED"

structure Image where
  name : String
  library : Option String
  /-- The path of the file, absolute or relative to the project. -/
  filepath : String
  source : ImageSource
  size : UInt32 × UInt32
  /-- Names the extension when the path has none. -/
  format : String
  useAlpha : Bool
  colorspace : String
  /-- The content, if the project holds it. -/
  packed : Option Bytes

structure Sound where
  name : String
  library : Option String
  filepath : String
  packed : Option Bytes

structure Speaker where
  name : String
  library : Option String
  sound : Option String
  volume : Float
  pitch : Float
  muted : Bool
  distanceMax : Float
  cyclicPlay : Bool

structure Armature where
  name : String
  library : Option String
  skeleton : Skeleton Float

end Project

open Project in
structure Project where
  /-- Where the project is saved; empty if it never was. -/
  filepath : String
  /-- Where it was exported to before. -/
  exportPathJson : Option String
  exportPathHtml : Option String
  scenes : List Scene
  objects : List Object
  meshes : List Mesh
  materials : List Material
  textures : List Texture
  images : List Image
  sounds : List Sound
  speakers : List Speaker
  armatures : List Armature
  actions : Library Float

/-- What all datablocks have: a kind, a name, and the library they are linked from if they are. -/
class Datablock (β : Type) where
  kind : String
  name : β → String
  library : β → Option String

namespace Project

instance : Datablock Scene := ⟨"Scene", Scene.name, Scene.library⟩
instance : Datablock Object := ⟨"Object", Object.name, Object.library⟩
instance : Datablock Mesh := ⟨"Mesh", Mesh.name, Mesh.library⟩
instance : Datablock Material := ⟨"Material", Material.name, Material.library⟩
instance : Datablock Texture := ⟨"Texture", Texture.name, Texture.library⟩
instance : Datablock Image := ⟨"Image", Image.name, Image.library⟩
instance : Datablock Sound := ⟨"Sound", Sound.name, Sound.library⟩
instance : Datablock Speaker := ⟨"Speaker", Speaker.name, Speaker.library⟩
instance : Datablock Armature := ⟨"Armature", Armature.name, Armature.library⟩
instance : Datablock (Action Float) := ⟨"Action", Action.name, fun _ => none⟩

/-- The first datablock of that name. -/
def named? {β : Type} [Datablock β] (blocks : List β) (name : String) : Option β :=
  blocks.find? fun b => Datablock.name b = name

/-- The identifier of a datablock of the project. -/
def uuid {β : Type} [Datablock β] (p : Project) (b : β) : String :=
  Identity.uuid (Datablock.kind β) (Datablock.name b) (Datablock.library b) p.filepath ""

def isSaved (p : Project) : Bool := !p.filepath.isEmpty

def object? (p : Project) (name : String) : Option Object := named? p.objects name
def mesh? (p : Project) (name : String) : Option Mesh := named? p.meshes name
def material? (p : Project) (name : String) : Option Material := named? p.materials name
def texture? (p : Project) (name : String) : Option Texture := named? p.textures name
def image? (p : Project) (name : String) : Option Image := named? p.images name
def sound? (p : Project) (name : String) : Option Sound := named? p.sounds name
def speaker? (p : Project) (name : String) : Option Speaker := named? p.speakers name
def armature? (p : Project) (name : String) : Option Armature := named? p.armatures name

end Project

end SceneExport
