import SceneExport.Json.Value
import SceneExport.Messages
import SceneExport.Sections
import SceneExport.Version

/-!
# Manifests

The exported description of a scene. Entries refer to each other by identifier, and to the binary
file by ranges of its sections. Members that this version of the format does not know are kept.
-/
namespace SceneExport

namespace Manifest

/-- The identifier of another entry. -/
structure Ref where
  uuid : String
  deriving DecidableEq, Repr

structure CurveEntry where
  /-- The keyframe stream in the float section. -/
  data : Range
  /-- Where the record of the last key starts in the stream. -/
  lastRecord : Nat
  channels : UInt32
  deriving DecidableEq, Repr

structure ActionEntry where
  name : String
  uuid : String
  range : Int × Int
  /-- Curves by the path of the animated property, then by component. -/
  curves : List (String × List (Nat × CurveEntry))
  deriving DecidableEq, Repr

structure ImageEntry where
  name : String
  uuid : String
  filepath : String
  size : UInt32 × UInt32
  source : String
  colorspace : String
  deriving DecidableEq, Repr

structure TextureEntry where
  name : String
  uuid : String
  kind : String
  image : Option Ref
  deriving DecidableEq, Repr

structure MaterialEntry where
  name : String
  uuid : String
  color : Vector Float 3
  alpha : Float
  transparent : Bool
  /-- The textures, in the order of their slots. -/
  textures : List Ref

structure SubmeshEntry where
  vertices : Nat
  position : Range
  normal : Range
  indices : Range
  deriving DecidableEq, Repr

structure VertexAnimationEntry where
  name : String
  frameStart : Int
  frameEnd : Int
  averaging : Bool
  averagingInterval : Int
  allowNla : Bool
  /-- Six numbers for each vertex, frame after frame. -/
  frames : Range
  deriving DecidableEq, Repr

structure MeshEntry where
  name : String
  uuid : String
  materials : List Ref
  submeshes : List SubmeshEntry
  vertexAnimations : List VertexAnimationEntry
  deriving DecidableEq, Repr

structure BoneEntry where
  name : String
  parent : Option String
  rest : List Float

structure ArmatureEntry where
  name : String
  uuid : String
  bones : List BoneEntry

structure SoundEntry where
  name : String
  uuid : String
  filepath : String
  deriving DecidableEq, Repr

structure SpeakerEntry where
  name : String
  uuid : String
  sound : Option Ref
  volume : Float
  pitch : Float
  muted : Bool
  distanceMax : Float
  cyclicPlay : Bool

/-- That an object is animated, and the action it plays. -/
structure AnimationEntry where
  action : Option Ref
  deriving DecidableEq, Repr

structure ObjectEntry where
  name : String
  uuid : String
  kind : String
  data : Option Ref
  parent : Option Ref
  matrix : List Float
  animation : Option AnimationEntry

structure SceneEntry where
  name : String
  uuid : String
  objects : List Ref
  frameStart : Int
  frameEnd : Int
  fps : Float
  camera : Option Ref

end Manifest

open Manifest in
structure Manifest where
  formatVersion : String
  /-- The path of the project, relative to the manifest. -/
  source : String
  actions : List ActionEntry
  images : List ImageEntry
  textures : List TextureEntry
  materials : List MaterialEntry
  meshes : List MeshEntry
  armatures : List ArmatureEntry
  sounds : List SoundEntry
  speakers : List SpeakerEntry
  objects : List ObjectEntry
  scenes : List SceneEntry
  binaries : List Sections.Table
  warnings : List Message
  errors : List Message
  /-- Members with other names. -/
  extra : List (String × Json)

namespace Manifest

def empty (formatVersion source : String) : Manifest where
  formatVersion
  source
  actions := []
  images := []
  textures := []
  materials := []
  meshes := []
  armatures := []
  sounds := []
  speakers := []
  objects := []
  scenes := []
  binaries := []
  warnings := []
  errors := []
  extra := []

/-- The name of the binary file, if there is one. -/
def binaryFile? (m : Manifest) : Option String :=
  m.binaries.head?.bind Sections.Table.file

def image? (m : Manifest) (uuid : String) : Option ImageEntry :=
  m.images.find? fun i => i.uuid = uuid

def action? (m : Manifest) (name : String) : Option ActionEntry :=
  m.actions.find? fun a => a.name = name

end Manifest

end SceneExport
