import SceneExport.Action.Playable
import SceneExport.Export.Action
import SceneExport.Export.Climb
import SceneExport.Export.Context
import SceneExport.Project.Basic
import SceneExport.Text.Lowercase

/-!
# The walk over a project

The walk starts at the scenes and follows the references to objects, their data, materials, textures
and media. Every datablock is written once, and after the datablocks it refers to. What was gathered
is kept when the walk fails.
-/
namespace SceneExport.Export

open Project (Scene Object Mesh Material Texture Image Sound Speaker Armature)
open Manifest (Ref)

structure Walk where
  context : Context
  manifest : Manifest

abbrev WalkM := ExceptT Error (StateM Walk)

namespace Walk

def missing (kind owner name : String) : Error :=
  .component owner (kind ++ " \"" ++ name ++ "\" does not exist")

/-- The datablock that an owner names. -/
def need {β : Type} (kind owner name : String) : Option β → WalkM β
  | some b => pure b
  | none => throw (missing kind owner name)

def changeContext (f : Context → Context) : WalkM Unit :=
  modify fun w => { w with context := f w.context }

def changeManifest (f : Manifest → Manifest) : WalkM Unit :=
  modify fun w => { w with manifest := f w.manifest }

def warn (text : String) : WalkM Unit := changeContext (·.warn text)

def err (text : String) : WalkM Unit := changeContext (·.err text)

/-- Writes a datablock unless it is written already. -/
def once (uuid : String) (write : WalkM Unit) : WalkM Ref := do
  let (fresh, context) := (← get).context.mark uuid
  changeContext fun _ => context
  if fresh then write
  return ⟨uuid⟩

/-- Puts numbers into the sections. -/
def push {β : Type} (f : Sections → β × Sections) : WalkM β := do
  let (b, sections) := f (← get).context.sections
  changeContext fun c => { c with sections }
  return b

/-- Five decimals are kept. -/
def roundEntry (x : Float) : Float := Rounding.whole (x * 1e5) / 1e5

/-- The path of a media file in the manifest. Packed content gets a name of its own, made from the
content; any other file is named relative to the exported file. -/
def mediaPath (p : Project) (filepath : String) (packed : Option Bytes) (usualExtension : String) :
    WalkM String := do
  let context := (← get).context
  match packed with
  | some content =>
    let extension := Path.extension filepath
    let name := Identity.mediaDigest content context.html ++
      Text.lowercase (if extension.isEmpty then usualExtension else extension)
    changeContext fun c => { c with media := (c.media.register name content).2 }
    return name
  | none =>
    if p.filepath.isEmpty && filepath.startsWith "//" then throw (.path (.neverSaved filepath))
    match Path.resourceFromExport filepath p.filepath context.path with
    | .ok path => return path
    | .error e => throw (.path e)

def writeImage (p : Project) (image : Image) : WalkM Ref :=
  let uuid := p.uuid image
  once uuid do
    let filepath ←
      if image.source = .generated && image.packed.isNone then pure ""
      else
        tryCatch
          (mediaPath p image.filepath image.packed ("." ++ Text.lowercase image.format))
          fun e => throw (.component image.name e.message)
    changeManifest fun m =>
      { m with
        images := m.images ++ [{
          name := image.name, uuid, filepath, size := image.size, source := image.source.label
          colorspace := image.colorspace }] }

def writeTexture (p : Project) (texture : Texture) : WalkM Ref :=
  let uuid := p.uuid texture
  once uuid do
    let image ← match texture.image with
      | none => pure none
      | some name => do
        let image ← need "Image" texture.name name (p.image? name)
        some <$> writeImage p image
    changeManifest fun m =>
      { m with
        textures := m.textures ++ [{
          name := texture.name, uuid, kind := if image.isSome then "IMAGE" else "NONE", image }] }

/-- Whether a texture shows an image with transparent parts. -/
def hasAlpha (p : Project) (texture : String) : Bool :=
  (do
    let image ← (← p.texture? texture).image
    return (← p.image? image).useAlpha).getD false

def writeMaterial (p : Project) (material : Material) : WalkM Ref :=
  let uuid := p.uuid material
  once uuid do
    if material.textures.any (hasAlpha p) && !material.transparent then
      warn ("Material \"" ++ material.name ++
        "\" has a texture with alpha channel but transparency is disabled.")
    let textures ← material.textures.mapM fun name => do
      let texture ← need "Texture" material.name name (p.texture? name)
      writeTexture p texture
    changeManifest fun m =>
      { m with
        materials := m.materials ++ [{
          name := material.name, uuid, color := material.color.map Float32.toFloat
          alpha := material.alpha.toFloat, transparent := material.transparent, textures }] }

/-- What is wrong with the vertices of a mesh. -/
def meshFlaw? (mesh : Mesh) : Option String :=
  let count := mesh.positions.length
  if !mesh.normals.isEmpty && mesh.normals.length ≠ count then
    some (toString mesh.normals.length ++ " normals for " ++ toString count ++ " vertices")
  else
    (mesh.indices.find? fun i => count ≤ i.toNat).map fun i =>
      "index " ++ toString i.toNat ++ " out of range for " ++ toString count ++ " vertices"

/-- Writes a vertex animation that fits the mesh. One that is not baked or does not fit is noted. -/
def writeVertexAnimation (mesh : Mesh) (owner : Object) (a : Bake.VertexAnimation) :
    WalkM (Option Manifest.VertexAnimationEntry) := do
  if !a.isBaked then
    warn ("Vertex animation \"" ++ a.name ++ "\" of object \"" ++ owner.name ++ "\" is not baked.")
    return none
  else if a.vertexCount? ≠ some mesh.positions.length then
    err ("Wrong vertex animation vertices count for mesh \"" ++ mesh.name ++
      "\". It doesn't match with the mesh vertices count for \"" ++ a.name ++ "\"")
    return none
  else
    let numbers := a.frames.flatMap fun f => f.vertices.flatMap Vector.toList
    let frames ← push (·.pushFloats numbers)
    return some {
      name := a.name, frameStart := a.start, frameEnd := a.stop, averaging := a.averaging
      averagingInterval := a.averagingInterval, allowNla := a.allowNla, frames }

/-- Writes a mesh, with the vertex animations of the object that leads to it. -/
def writeMesh (p : Project) (mesh : Mesh) (owner : Object) : WalkM Ref :=
  let uuid := p.uuid mesh
  once uuid do
    if let some reason := meshFlaw? mesh then throw (.component mesh.name reason)
    let materials ← mesh.materials.mapM fun name => do
      let material ← need "Material" mesh.name name (p.material? name)
      writeMaterial p material
    let position ← push (·.pushFloats (mesh.positions.flatMap Vector.toList))
    let normal ← push (·.pushFloats (mesh.normals.flatMap Vector.toList))
    let indices ← push (·.pushInts (mesh.indices.map fun i => Int.ofNat i.toNat))
    let animations ←
      if owner.exportVertexAnimations then
        owner.vertexAnimations.mapM (writeVertexAnimation mesh owner)
      else pure []
    changeManifest fun m =>
      { m with
        meshes := m.meshes ++ [{
          name := mesh.name, uuid, materials
          submeshes := [{ vertices := mesh.positions.length, position, normal, indices }]
          vertexAnimations := animations.filterMap id }] }

def writeSound (p : Project) (sound : Sound) : WalkM Ref :=
  let uuid := p.uuid sound
  once uuid do
    let filepath ← mediaPath p sound.filepath sound.packed ""
    changeManifest fun m =>
      { m with sounds := m.sounds ++ [{ name := sound.name, uuid, filepath }] }

/-- The greatest distance that players accept. -/
def distanceLimit : Float := 10000

/-- Writes a speaker. A sound whose file cannot be named is noted and left out. -/
def writeSpeaker (p : Project) (speaker : Speaker) : WalkM Ref :=
  let uuid := p.uuid speaker
  once uuid do
    let sound ← match speaker.sound with
      | none => pure none
      | some name => do
        let sound ← need "Sound" speaker.name name (p.sound? name)
        tryCatch (some <$> writeSound p sound) fun
          | .path e => do
            err ("Speaker \"" ++ speaker.name ++ "\": " ++ e.message)
            return none
          | e => throw e
    changeManifest fun m =>
      { m with
        speakers := m.speakers ++ [{
          name := speaker.name, uuid, sound, volume := speaker.volume, pitch := speaker.pitch
          muted := speaker.muted
          distanceMax :=
            if speaker.distanceMax < distanceLimit then speaker.distanceMax else distanceLimit
          cyclicPlay := speaker.cyclicPlay }] }

def writeArmature (p : Project) (armature : Armature) : WalkM Ref :=
  let uuid := p.uuid armature
  let bones := armature.skeleton.bones
  once uuid do
    changeManifest fun m =>
      { m with
        armatures := m.armatures ++ [{
          name := armature.name, uuid
          bones := bones.map fun bone => {
            name := bone.name, parent := (bone.parent.bind (bones[·]?)).map Bone.name
            rest := bone.rest.toList.map roundEntry } }] }

def writeAction (p : Project) (action : Action Float) : WalkM Ref :=
  let uuid := p.uuid action
  once uuid do
    let context := (← get).context
    let (entry, sections, messages) :=
      encodeAction action uuid context.sections context.messages
    changeContext fun c => { c with sections, messages }
    changeManifest fun m => { m with actions := m.actions ++ [entry] }

/-- Writes what an object shows. Cameras and lamps have no data of their own. -/
def writeData (p : Project) (o : Object) : WalkM (Option Ref) := do
  match o.data with
  | none => return none
  | some name =>
    match o.kind with
    | .mesh =>
      let mesh ← need "Mesh" o.name name (p.mesh? name)
      some <$> writeMesh p mesh o
    | .armature =>
      let armature ← need "Armature" o.name name (p.armature? name)
      some <$> writeArmature p armature
    | .speaker =>
      let speaker ← need "Speaker" o.name name (p.speaker? name)
      some <$> writeSpeaker p speaker
    | .empty | .camera | .lamp => return none

/-- Writes the action that an object plays. -/
def writePlayed (p : Project) (o : Object) (name : String) : WalkM (Option Ref) := do
  match p.actions.playable? name with
  | some action => some <$> writeAction p action
  | none =>
    warn ("Object \"" ++ o.name ++ "\" references a missing action \"" ++ name ++ "\".")
    return none

/-- Writes an object whose parent is written. -/
def writeObjectBody (p : Project) (o : Object) : WalkM Unit := do
  let data ← writeData p o
  let animation ← match o.animation with
    | none => pure none
    | some animation => do
      let action ← match animation.action with
        | none => pure none
        | some name => writePlayed p o name
      pure (some ⟨action⟩)
  changeManifest fun m =>
    { m with
      objects := m.objects ++ [{
        name := o.name, uuid := p.uuid o, kind := o.kind.label, data
        parent := (o.parent.bind p.object?).map fun parent => ⟨p.uuid parent⟩
        matrix := o.matrix.toList.map roundEntry, animation }] }

/-- Writes an object and the parents above it that are not written yet. -/
def writeObject (p : Project) (o : Object) : WalkM Ref := do
  let ascent := climb p (← get).context.exported [] o.name
  changeContext fun c => { c with exported := ascent.marks }
  match ascent.missing, ascent.chain with
  | some name, owner :: _ => throw (missing "Parent object" owner.name name)
  | _, chain =>
    chain.forM (writeObjectBody p)
    return ⟨p.uuid o⟩

/-- Writes an object that a scene names, unless it is not to be exported. -/
def writeSceneObject (p : Project) (kind : String) (scene : Scene) (name : String) :
    WalkM (Option Ref) := do
  let o ← need kind scene.name name (p.object? name)
  if o.doNotExport then return none else some <$> writeObject p o

def writeScene (p : Project) (scene : Scene) : WalkM Ref :=
  let uuid := p.uuid scene
  once uuid do
    let objects ← scene.objects.mapM (writeSceneObject p "Object" scene)
    let camera ← match scene.camera with
      | none => pure none
      | some name => writeSceneObject p "Camera" scene name
    changeManifest fun m =>
      { m with
        scenes := m.scenes ++ [{
          name := scene.name, uuid, objects := objects.filterMap id
          frameStart := scene.frameStart, frameEnd := scene.frameEnd, fps := scene.fps
          camera }] }

/-- The whole walk: the scenes, then the actions that have no baked form. -/
def run (p : Project) (scenes : List Scene) : WalkM Unit := do
  scenes.forM fun scene => do
    let _ ← writeScene p scene
  p.actions.actions.forM fun action => do
    if !p.actions.hasBaked action then
      let _ ← writeAction p action

end Walk

end SceneExport.Export
