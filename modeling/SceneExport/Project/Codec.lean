import SceneExport.Action.Codec
import SceneExport.Bake.Codec
import SceneExport.Bytes.Base64
import SceneExport.Project.Basic
import SceneExport.Skeleton.Codec

/-!
# Projects as JSON

Packed content is written in base64.
-/
namespace SceneExport.Project

open Json (Codec Member Shape)

/-- A name that may be missing. -/
def optionalName (field : String) : Member (Option String) :=
  .defaulted field (.option .text) none

def names (field : String) : Member (List String) :=
  .defaulted field (.list .text) []

def packedCodec : Codec (Option Bytes) :=
  .option (Codec.text.checked Base64.decode? Base64.encode)

def Scene.codec : Codec Scene :=
  (Shape.field (.required "name" .text) <|
    .field (optionalName "library") <|
    .field (names "objects") <|
    .field (.defaulted "frame_start" .int32 1) <|
    .field (.defaulted "frame_end" .int32 250) <|
    .field (.defaulted "fps" .double 24) <|
    .field (optionalName "camera") <|
    .field (.defaulted "do_not_export" .bool false) .done).codec
    (fun (name, library, objects, frameStart, frameEnd, fps, camera, doNotExport, _) =>
      { name, library, objects, frameStart, frameEnd, fps, camera, doNotExport })
    (fun s => (s.name, s.library, s.objects, s.frameStart, s.frameEnd, s.fps, s.camera,
      s.doNotExport, ()))

def ObjectKind.codec : Codec ObjectKind :=
  .oneOf ([.mesh, .armature, .empty, .camera, .lamp, .speaker].map fun kind => (kind.label, kind))

def AnimationData.codec : Codec AnimationData :=
  (Shape.field (optionalName "action") .done).codec (fun (action, _) => ⟨action⟩)
    (fun a => (a.action, ()))

/-- The matrix of an object that is not moved. -/
def identityMatrix : Vector Float 16 := (Mat.identity : Mat4 Float).toEntries

def Object.codec : Codec Object :=
  (Shape.field (.required "name" .text) <|
    .field (optionalName "library") <|
    .field (.defaulted "type" ObjectKind.codec .empty) <|
    .field (optionalName "data") <|
    .field (optionalName "parent") <|
    .field (.defaulted "matrix_world" (.vector 16 .double) identityMatrix) <|
    .field (.defaulted "animation_data" (.option AnimationData.codec) none) <|
    .field (names "anim_names") <|
    .field (.defaulted "export_vertex_anim" .bool false) <|
    .field (.defaulted "vertex_animations" (.list Bake.VertexAnimation.codec) []) <|
    .field (.defaulted "do_not_export" .bool false) .done).codec
    (fun (name, library, kind, data, parent, matrix, animation, bakedActions,
        exportVertexAnimations, vertexAnimations, doNotExport, _) =>
      { name, library, kind, data, parent, matrix, animation, bakedActions,
        exportVertexAnimations, vertexAnimations, doNotExport })
    (fun o => (o.name, o.library, o.kind, o.data, o.parent, o.matrix, o.animation, o.bakedActions,
      o.exportVertexAnimations, o.vertexAnimations, o.doNotExport, ()))

def Mesh.codec : Codec Mesh :=
  (Shape.field (.required "name" .text) <|
    .field (optionalName "library") <|
    .field (.defaulted "positions" (.list (.vector 3 .single)) []) <|
    .field (.defaulted "normals" (.list (.vector 3 .single)) []) <|
    .field (.defaulted "indices" (.list .word32) []) <|
    .field (names "materials") .done).codec
    (fun (name, library, positions, normals, indices, materials, _) =>
      { name, library, positions, normals, indices, materials })
    (fun m => (m.name, m.library, m.positions, m.normals, m.indices, m.materials, ()))

def Material.codec : Codec Material :=
  (Shape.field (.required "name" .text) <|
    .field (optionalName "library") <|
    .field (.defaulted "diffuse_color" (.vector 3 .single) #v[0.8, 0.8, 0.8]) <|
    .field (.defaulted "alpha" .single 1) <|
    .field (.defaulted "use_transparency" .bool false) <|
    .field (names "textures") .done).codec
    (fun (name, library, color, alpha, transparent, textures, _) =>
      { name, library, color, alpha, transparent, textures })
    (fun m => (m.name, m.library, m.color, m.alpha, m.transparent, m.textures, ()))

def Texture.codec : Codec Texture :=
  (Shape.field (.required "name" .text) <|
    .field (optionalName "library") <|
    .field (optionalName "image") .done).codec
    (fun (name, library, image, _) => { name, library, image })
    (fun t => (t.name, t.library, t.image, ()))

def ImageSource.codec : Codec ImageSource :=
  .oneOf ([.file, .movie, .sequence, .generated].map fun source => (source.label, source))

def Image.codec : Codec Image :=
  (Shape.field (.required "name" .text) <|
    .field (optionalName "library") <|
    .field (.defaulted "filepath" .text "") <|
    .field (.defaulted "source" ImageSource.codec .file) <|
    .field (.defaulted "size" (.pair .word32) (0, 0)) <|
    .field (.defaulted "file_format" .text "PNG") <|
    .field (.defaulted "use_alpha" .bool false) <|
    .field (.defaulted "colorspace" .text "sRGB") <|
    .field (.defaulted "packed" packedCodec none) .done).codec
    (fun (name, library, filepath, source, size, format, useAlpha, colorspace, packed, _) =>
      { name, library, filepath, source, size, format, useAlpha, colorspace, packed })
    (fun i => (i.name, i.library, i.filepath, i.source, i.size, i.format, i.useAlpha, i.colorspace,
      i.packed, ()))

def Sound.codec : Codec Sound :=
  (Shape.field (.required "name" .text) <|
    .field (optionalName "library") <|
    .field (.defaulted "filepath" .text "") <|
    .field (.defaulted "packed" packedCodec none) .done).codec
    (fun (name, library, filepath, packed, _) => { name, library, filepath, packed })
    (fun s => (s.name, s.library, s.filepath, s.packed, ()))

def Speaker.codec : Codec Speaker :=
  (Shape.field (.required "name" .text) <|
    .field (optionalName "library") <|
    .field (optionalName "sound") <|
    .field (.defaulted "volume" .double 1) <|
    .field (.defaulted "pitch" .double 1) <|
    .field (.defaulted "muted" .bool false) <|
    .field (.defaulted "distance_max" .double 10000) <|
    .field (.defaulted "cyclic_play" .bool false) .done).codec
    (fun (name, library, sound, volume, pitch, muted, distanceMax, cyclicPlay, _) =>
      { name, library, sound, volume, pitch, muted, distanceMax, cyclicPlay })
    (fun s => (s.name, s.library, s.sound, s.volume, s.pitch, s.muted, s.distanceMax, s.cyclicPlay,
      ()))

def Armature.codec : Codec Armature :=
  (Shape.field (.required "name" .text) <|
    .field (optionalName "library") <|
    .field (.required "skeleton" Skeleton.codec) .done).codec
    (fun (name, library, skeleton, _) => { name, library, skeleton })
    (fun a => (a.name, a.library, a.skeleton, ()))

/-- A list of datablocks. -/
def blocks {β : Type} (field : String) (c : Codec β) : Member (List β) :=
  .defaulted field (.list c) []

def codec : Codec Project :=
  (Shape.field (.defaulted "filepath" .text "") <|
    .field (optionalName "export_path_json") <|
    .field (optionalName "export_path_html") <|
    .field (blocks "scenes" Scene.codec) <|
    .field (blocks "objects" Object.codec) <|
    .field (blocks "meshes" Mesh.codec) <|
    .field (blocks "materials" Material.codec) <|
    .field (blocks "textures" Texture.codec) <|
    .field (blocks "images" Image.codec) <|
    .field (blocks "sounds" Sound.codec) <|
    .field (blocks "speakers" Speaker.codec) <|
    .field (blocks "armatures" Armature.codec) <|
    .field (.defaulted "actions" Library.codec ⟨[]⟩) .done).codec
    (fun (filepath, exportPathJson, exportPathHtml, scenes, objects, meshes, materials, textures,
        images, sounds, speakers, armatures, actions, _) =>
      { filepath, exportPathJson, exportPathHtml, scenes, objects, meshes, materials, textures,
        images, sounds, speakers, armatures, actions })
    (fun p => (p.filepath, p.exportPathJson, p.exportPathHtml, p.scenes, p.objects, p.meshes,
      p.materials, p.textures, p.images, p.sounds, p.speakers, p.armatures, p.actions, ()))

end SceneExport.Project
