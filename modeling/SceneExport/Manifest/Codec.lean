import SceneExport.Json.Codec
import SceneExport.Manifest.Basic

/-!
# Manifests as JSON
-/
namespace SceneExport.Manifest

open Json (Codec Fault Member MemberKey Shape Tree)

def Ref.codec : Codec Ref :=
  (Shape.field (.required "uuid" .text) .done).codec (fun (uuid, _) => ⟨uuid⟩)
    (fun r => (r.uuid, ()))

def CurveEntry.codec : Codec CurveEntry :=
  (Shape.field (.required "bin_data_pos" Range.codec) <|
    .field (.required "last_frame_offset" .size) <|
    .field (.required "num_channels" .word32) .done).codec
    (fun (data, lastRecord, channels, _) => { data, lastRecord, channels })
    (fun c => (c.data, c.lastRecord, c.channels, ()))

/-- A component as a key: a decimal number without leading zeros, and no digit of it is escaped. -/
def component? (key : MemberKey) : Option Nat := do
  let s ← key.content
  let n := Text.digitsValue s.toList
  guard (key.plain && s.toList.all Text.isDigit && toString n = s && n < 0x10000000000000000)
  return n

def ActionEntry.codec : Codec ActionEntry :=
  (Shape.field (.required "name" .text) <|
    .field (.required "uuid" .text) <|
    .field (.required "frame_range" (.pair .int64)) <|
    .field (.required "fcurves"
      (.table id MemberKey.content (.table toString component? CurveEntry.codec))) .done).codec
    (fun (name, uuid, range, curves, _) => { name, uuid, range, curves })
    (fun a => (a.name, a.uuid, a.range, a.curves, ()))

def ImageEntry.codec : Codec ImageEntry :=
  (Shape.field (.required "name" .text) <|
    .field (.required "uuid" .text) <|
    .field (.required "filepath" .text) <|
    .field (.required "size" (.pair .word32)) <|
    .field (.required "source" .text) <|
    .field (.required "colorspace_settings_name" .text) .done).codec
    (fun (name, uuid, filepath, size, source, colorspace, _) =>
      { name, uuid, filepath, size, source, colorspace })
    (fun i => (i.name, i.uuid, i.filepath, i.size, i.source, i.colorspace, ()))

def TextureEntry.codec : Codec TextureEntry :=
  (Shape.field (.required "name" .text) <|
    .field (.required "uuid" .text) <|
    .field (.required "type" .text) <|
    .field (.nullable "image" Ref.codec) .done).codec
    (fun (name, uuid, kind, image, _) => { name, uuid, kind, image })
    (fun t => (t.name, t.uuid, t.kind, t.image, ()))

/-- A texture in its slot. -/
def slotCodec : Codec Ref :=
  (Shape.field (.required "texture" Ref.codec) .done).codec Prod.fst (fun r => (r, ()))

def MaterialEntry.codec : Codec MaterialEntry :=
  (Shape.field (.required "name" .text) <|
    .field (.required "uuid" .text) <|
    .field (.required "diffuse_color" (.vector 3 .double)) <|
    .field (.required "alpha" .double) <|
    .field (.required "use_transparency" .bool) <|
    .field (.required "texture_slots" (.list slotCodec)) .done).codec
    (fun (name, uuid, color, alpha, transparent, textures, _) =>
      { name, uuid, color, alpha, transparent, textures })
    (fun m => (m.name, m.uuid, m.color, m.alpha, m.transparent, m.textures, ()))

def SubmeshEntry.codec : Codec SubmeshEntry :=
  (Shape.field (.required "base_length" .size) <|
    .field (.required "position" Range.codec) <|
    .field (.required "normal" Range.codec) <|
    .field (.required "indices" Range.codec) .done).codec
    (fun (vertices, position, normal, indices, _) => { vertices, position, normal, indices })
    (fun s => (s.vertices, s.position, s.normal, s.indices, ()))

def VertexAnimationEntry.codec : Codec VertexAnimationEntry :=
  (Shape.field (.required "name" .text) <|
    .field (.required "frame_start" .int32) <|
    .field (.required "frame_end" .int32) <|
    .field (.required "averaging" .bool) <|
    .field (.required "averaging_interval" .int32) <|
    .field (.required "allow_nla" .bool) <|
    .field (.required "frames" Range.codec) .done).codec
    (fun (name, frameStart, frameEnd, averaging, averagingInterval, allowNla, frames, _) =>
      { name, frameStart, frameEnd, averaging, averagingInterval, allowNla, frames })
    (fun v => (v.name, v.frameStart, v.frameEnd, v.averaging, v.averagingInterval, v.allowNla,
      v.frames, ()))

def MeshEntry.codec : Codec MeshEntry :=
  (Shape.field (.required "name" .text) <|
    .field (.required "uuid" .text) <|
    .field (.required "materials" (.list Ref.codec)) <|
    .field (.required "submeshes" (.list SubmeshEntry.codec)) <|
    .field (.required "b4w_vertex_anim" (.list VertexAnimationEntry.codec)) .done).codec
    (fun (name, uuid, materials, submeshes, vertexAnimations, _) =>
      { name, uuid, materials, submeshes, vertexAnimations })
    (fun m => (m.name, m.uuid, m.materials, m.submeshes, m.vertexAnimations, ()))

def BoneEntry.codec : Codec BoneEntry :=
  (Shape.field (.required "name" .text) <|
    .field (.nullable "parent" .text) <|
    .field (.required "matrix_local" (.list .double)) .done).codec
    (fun (name, parent, rest, _) => { name, parent, rest })
    (fun b => (b.name, b.parent, b.rest, ()))

def ArmatureEntry.codec : Codec ArmatureEntry :=
  (Shape.field (.required "name" .text) <|
    .field (.required "uuid" .text) <|
    .field (.required "bones" (.list BoneEntry.codec)) .done).codec
    (fun (name, uuid, bones, _) => { name, uuid, bones })
    (fun a => (a.name, a.uuid, a.bones, ()))

def SoundEntry.codec : Codec SoundEntry :=
  (Shape.field (.required "name" .text) <|
    .field (.required "uuid" .text) <|
    .field (.required "filepath" .text) .done).codec
    (fun (name, uuid, filepath, _) => { name, uuid, filepath })
    (fun s => (s.name, s.uuid, s.filepath, ()))

def SpeakerEntry.codec : Codec SpeakerEntry :=
  (Shape.field (.required "name" .text) <|
    .field (.required "uuid" .text) <|
    .field (.nullable "sound" Ref.codec) <|
    .field (.required "volume" .double) <|
    .field (.required "pitch" .double) <|
    .field (.required "muted" .bool) <|
    .field (.required "distance_max" .double) <|
    .field (.required "b4w_cyclic_play" .bool) .done).codec
    (fun (name, uuid, sound, volume, pitch, muted, distanceMax, cyclicPlay, _) =>
      { name, uuid, sound, volume, pitch, muted, distanceMax, cyclicPlay })
    (fun s => (s.name, s.uuid, s.sound, s.volume, s.pitch, s.muted, s.distanceMax,
      s.cyclicPlay, ()))

def AnimationEntry.codec : Codec AnimationEntry :=
  (Shape.field (.nullable "action" Ref.codec) .done).codec (fun (action, _) => ⟨action⟩)
    (fun a => (a.action, ()))

def ObjectEntry.codec : Codec ObjectEntry :=
  (Shape.field (.required "name" .text) <|
    .field (.required "uuid" .text) <|
    .field (.required "type" .text) <|
    .field (.nullable "data" Ref.codec) <|
    .field (.nullable "parent" Ref.codec) <|
    .field (.required "matrix_world" (.list .double)) <|
    .field (.nullable "animation_data" AnimationEntry.codec) .done).codec
    (fun (name, uuid, kind, data, parent, matrix, animation, _) =>
      { name, uuid, kind, data, parent, matrix, animation })
    (fun o => (o.name, o.uuid, o.kind, o.data, o.parent, o.matrix, o.animation, ()))

def SceneEntry.codec : Codec SceneEntry :=
  (Shape.field (.required "name" .text) <|
    .field (.required "uuid" .text) <|
    .field (.required "objects" (.list Ref.codec)) <|
    .field (.required "frame_start" .int32) <|
    .field (.required "frame_end" .int32) <|
    .field (.required "fps" .double) <|
    .field (.nullable "camera" Ref.codec) .done).codec
    (fun (name, uuid, objects, frameStart, frameEnd, fps, camera, _) =>
      { name, uuid, objects, frameStart, frameEnd, fps, camera })
    (fun s => (s.name, s.uuid, s.objects, s.frameStart, s.frameEnd, s.fps, s.camera, ()))

/-- A list of entries that may be left out. -/
def entries {β : Type} (field : String) (c : Codec β) : Member (List β) :=
  .defaulted field (.list c) []

/-- The fields of a manifest without its extra members. -/
def shape : Shape (String × String × List ActionEntry × List ImageEntry × List TextureEntry ×
    List MaterialEntry × List MeshEntry × List ArmatureEntry × List SoundEntry ×
    List SpeakerEntry × List ObjectEntry × List SceneEntry × List Sections.Table × List Message ×
    List Message × Unit) :=
  .field (.required "b4w_format_version" .text) <|
    .field (.defaulted "b4w_filepath_blend" .text "") <|
    .field (entries "actions" ActionEntry.codec) <|
    .field (entries "images" ImageEntry.codec) <|
    .field (entries "textures" TextureEntry.codec) <|
    .field (entries "materials" MaterialEntry.codec) <|
    .field (entries "meshes" MeshEntry.codec) <|
    .field (entries "armatures" ArmatureEntry.codec) <|
    .field (entries "sounds" SoundEntry.codec) <|
    .field (entries "speakers" SpeakerEntry.codec) <|
    .field (entries "objects" ObjectEntry.codec) <|
    .field (entries "scenes" SceneEntry.codec) <|
    .field (entries "binaries" Sections.Table.codec) <|
    .field (entries "b4w_export_warnings" Message.codec) <|
    .field (entries "b4w_export_errors" Message.codec) .done

/-- Stores a member that is no field. -/
def keepExtra (extra : List (String × Json)) (key : String) (t : Tree) :
    Except Fault (List (String × Json)) := do
  let v ← t.store 126
  return Entries.put key v extra

/-- Manifests are objects; the extra members come last. -/
def codec : Codec Manifest where
  write m :=
    .object (shape.writeMembers (m.formatVersion, m.source, m.actions, m.images, m.textures,
      m.materials, m.meshes, m.armatures, m.sounds, m.speakers, m.objects, m.scenes, m.binaries,
      m.warnings, m.errors, ()) ++ m.extra)
  read
    | .object members stop => do
      let (slots, extra) ← shape.readMembers keepExtra shape.vacant [] members
      Tree.checkStored stop
      let (formatVersion, source, actions, images, textures, materials, meshes, armatures, sounds,
        speakers, objects, scenes, binaries, warnings, errors, _) ← shape.close slots
      return { formatVersion, source, actions, images, textures, materials, meshes, armatures,
               sounds, speakers, objects, scenes, binaries, warnings, errors, extra }
    | t => .error t.unexpected

/-- What is wrong with a manifest, or with the version it would get. -/
inductive Error where
  | unreadable (fault : Fault)
  | versionNotNumeric (version : String)
  /-- The version asked for is no version. -/
  | versionRefused (version : String)
  deriving DecidableEq, Repr

def Error.message : Error → String
  | .unreadable fault => fault.message
  | .versionNotNumeric version => "non-numeric format version '" ++ version ++ "'"
  | .versionRefused version => "format version '" ++ version ++ "' is not 'major.minor'"

/-- Reads a manifest; its version must be well-formed. -/
def ofText (s : String) : Except Error Manifest :=
  match codec.ofText s with
  | .error fault => .error (.unreadable fault)
  | .ok m =>
    if (Version.ofText? m.formatVersion).isSome then .ok m
    else .error (.versionNotNumeric m.formatVersion)

def toText (style : Json.Style) (m : Manifest) : String :=
  codec.toText style m

/-- The two members by which a manifest is recognised and traced back to its project. -/
structure Header where
  formatVersion : Option String
  source : Option String
  deriving DecidableEq, Repr

namespace Header

def codec : Codec Header :=
  (Shape.field (.defaulted "b4w_format_version" (.option .text) none) <|
    .field (.defaulted "b4w_filepath_blend" (.option .text) none) .done).codec
    (fun (formatVersion, source, _) => { formatVersion, source })
    (fun h => (h.formatVersion, h.source, ()))

def ofText (s : String) : Except Fault Header := codec.ofText s

def version? (h : Header) : Option Version := h.formatVersion.bind Version.ofText?

end Header

end SceneExport.Manifest
