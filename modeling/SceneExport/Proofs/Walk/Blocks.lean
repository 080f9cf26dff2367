import Mathlib
import SceneExport.Export.Scene

/-!
# Datablocks, their references, and the entries of a manifest

The ten kinds of datablocks of a project are taken together here, and so are the ten collections of
a manifest. A datablock refers to others by name, an entry to others by identifier.
-/
namespace SceneExport

/-- The kinds of datablocks, each with a collection of its own in the manifest. -/
inductive Kind where
  | scene
  | object
  | mesh
  | material
  | texture
  | image
  | sound
  | speaker
  | armature
  | action
  deriving DecidableEq, Repr

/-- An object plays the action that it names, or the one with the usual suffix. -/
lemma Library.get?_of_playable? {l : Library Float} {name : String} {a : Action Float}
    (h : l.playable? name = some a) :
    l.get? name = some a ∨ l.get? (name ++ Bake.usualSuffix) = some a := by
  unfold playable? at h
  split at h
  · exact .inl h
  · exact (Option.or_eq_some_iff.mp h).symm.imp And.right id

namespace Project

/-- A datablock of any kind. -/
inductive Block where
  | scene (b : Scene)
  | object (b : Object)
  | mesh (b : Mesh)
  | material (b : Material)
  | texture (b : Texture)
  | image (b : Image)
  | sound (b : Sound)
  | speaker (b : Speaker)
  | armature (b : Armature)
  | action (b : Action Float)

namespace Block

def kind : Block → Kind
  | .scene _ => .scene
  | .object _ => .object
  | .mesh _ => .mesh
  | .material _ => .material
  | .texture _ => .texture
  | .image _ => .image
  | .sound _ => .sound
  | .speaker _ => .speaker
  | .armature _ => .armature
  | .action _ => .action

def name : Block → String
  | .scene b => b.name
  | .object b => b.name
  | .mesh b => b.name
  | .material b => b.name
  | .texture b => b.name
  | .image b => b.name
  | .sound b => b.name
  | .speaker b => b.name
  | .armature b => b.name
  | .action b => b.name

end Block

/-- All datablocks of the project. -/
def datablocks (p : Project) : List Block :=
  p.scenes.map .scene ++ p.objects.map .object ++ p.meshes.map .mesh ++ p.materials.map .material ++
    p.textures.map .texture ++ p.images.map .image ++ p.sounds.map .sound ++
    p.speakers.map .speaker ++ p.armatures.map .armature ++ p.actions.actions.map .action

/-- The identifier of a datablock of any kind. -/
def identifier (p : Project) : Block → String
  | .scene b => p.uuid b
  | .object b => p.uuid b
  | .mesh b => p.uuid b
  | .material b => p.uuid b
  | .texture b => p.uuid b
  | .image b => p.uuid b
  | .sound b => p.uuid b
  | .speaker b => p.uuid b
  | .armature b => p.uuid b
  | .action b => p.uuid b

/-- What a name stands for is what its own name stands for. -/
lemma name_of_named? {β : Type} [Datablock β] {bs : List β} {name : String} {b : β}
    (h : named? bs name = some b) : Datablock.name b = name := by
  simpa [named?] using List.find?_some h

lemma named?_name {β : Type} [Datablock β] {bs : List β} {name : String} {b : β}
    (h : named? bs name = some b) : named? bs (Datablock.name b) = some b := by
  rw [name_of_named? h, h]

/-- The object of that name, unless it is not to be exported. -/
def exportedObject? (p : Project) (name : String) : Option Object :=
  (p.object? name).filter fun o => !o.doNotExport

/-- What an object shows. Cameras and lamps have no data of their own. -/
def shown? (p : Project) (o : Object) : Option Block :=
  match o.kind with
  | .mesh => (o.data.bind p.mesh?).map .mesh
  | .armature => (o.data.bind p.armature?).map .armature
  | .speaker => (o.data.bind p.speaker?).map .speaker
  | .empty | .camera | .lamp => none

/-- What an object shows was looked up in the collection that belongs to the kind of the object. -/
lemma shown?_eq_some {p : Project} {o : Object} {b : Block} (h : p.shown? o = some b) :
    (∃ mesh name, o.kind = .mesh ∧ p.mesh? name = some mesh ∧ b = .mesh mesh) ∨
      (∃ armature name, o.kind = .armature ∧ p.armature? name = some armature ∧
        b = .armature armature) ∨
      ∃ speaker name, o.kind = .speaker ∧ p.speaker? name = some speaker ∧
      b = .speaker speaker := by
  unfold shown? at h
  cases hkind : o.kind <;>
    simp only [hkind, Option.map_eq_some_iff, Option.bind_eq_some_iff, reduceCtorEq] at h
  all_goals obtain ⟨shown, ⟨name, -, hfound⟩, rfl⟩ := h
  · exact .inl ⟨shown, name, rfl, hfound, rfl⟩
  · exact .inr (.inl ⟨shown, name, rfl, hfound, rfl⟩)
  · exact .inr (.inr ⟨shown, name, rfl, hfound, rfl⟩)

/-- The action that an object plays. -/
def played? (p : Project) (o : Object) : Option (Action Float) :=
  (o.animation.bind AnimationData.action).bind p.actions.playable?

/-- The datablocks that a datablock refers to, in the order they are written. A name stands for the
first datablock of its kind that has it. -/
def references (p : Project) : Block → List Block
  | .scene b =>
    (b.objects.filterMap p.exportedObject? ++ (b.camera.bind p.exportedObject?).toList).map .object
  | .object b =>
    ((b.parent.bind p.object?).map Block.object).toList ++ (p.shown? b).toList ++
      ((p.played? b).map Block.action).toList
  | .mesh b => (b.materials.filterMap p.material?).map .material
  | .material b => (b.textures.filterMap p.texture?).map .texture
  | .texture b => ((b.image.bind p.image?).map Block.image).toList
  | .speaker b => ((b.sound.bind p.sound?).map Block.sound).toList
  | .image _ | .sound _ | .armature _ | .action _ => []

/-- The path of a media file seen from the exported file. A path that starts at the project has none
while the project is not saved. -/
def relativeForm? (p : Project) (path filepath : String) : Option String :=
  if p.filepath.isEmpty && filepath.startsWith "//" then none
  else (Path.resourceFromExport filepath p.filepath path).toOption

/-- A sound that an export to `path` leaves out: it is not packed and its path has no relative
form. -/
def isUnheard (p : Project) (path : String) : Block → Bool
  | .sound b => b.packed.isNone && (p.relativeForm? path b.filepath).isNone
  | _ => false

end Project

namespace Manifest

/-- An entry of any collection. -/
inductive Entry where
  | scene (e : SceneEntry)
  | object (e : ObjectEntry)
  | mesh (e : MeshEntry)
  | material (e : MaterialEntry)
  | texture (e : TextureEntry)
  | image (e : ImageEntry)
  | sound (e : SoundEntry)
  | speaker (e : SpeakerEntry)
  | armature (e : ArmatureEntry)
  | action (e : ActionEntry)

/-- A reference of an entry: the collection that it is to be looked up in, if there is one, and the
identifier. -/
structure Link where
  kind : Option Kind
  uuid : String
  deriving DecidableEq, Repr

/-- The collection that holds the data of objects with this label. -/
def dataKind? (label : String) : Option Kind :=
  if label = "MESH" then some .mesh
  else if label = "ARMATURE" then some .armature
  else if label = "SPEAKER" then some .speaker
  else none

namespace Entry

def kind : Entry → Kind
  | .scene _ => .scene
  | .object _ => .object
  | .mesh _ => .mesh
  | .material _ => .material
  | .texture _ => .texture
  | .image _ => .image
  | .sound _ => .sound
  | .speaker _ => .speaker
  | .armature _ => .armature
  | .action _ => .action

def name : Entry → String
  | .scene e => e.name
  | .object e => e.name
  | .mesh e => e.name
  | .material e => e.name
  | .texture e => e.name
  | .image e => e.name
  | .sound e => e.name
  | .speaker e => e.name
  | .armature e => e.name
  | .action e => e.name

def uuid : Entry → String
  | .scene e => e.uuid
  | .object e => e.uuid
  | .mesh e => e.uuid
  | .material e => e.uuid
  | .texture e => e.uuid
  | .image e => e.uuid
  | .sound e => e.uuid
  | .speaker e => e.uuid
  | .armature e => e.uuid
  | .action e => e.uuid

/-- All references that an entry holds. -/
def links : Entry → List Link
  | .scene e => (e.objects ++ e.camera.toList).map fun r => ⟨some .object, r.uuid⟩
  | .object e =>
    (e.parent.toList.map fun r => ⟨some .object, r.uuid⟩) ++
      (e.data.toList.map fun r => ⟨dataKind? e.kind, r.uuid⟩) ++
      ((e.animation.bind AnimationEntry.action).toList.map fun r => ⟨some .action, r.uuid⟩)
  | .mesh e => e.materials.map fun r => ⟨some .material, r.uuid⟩
  | .material e => e.textures.map fun r => ⟨some .texture, r.uuid⟩
  | .texture e => e.image.toList.map fun r => ⟨some .image, r.uuid⟩
  | .speaker e => e.sound.toList.map fun r => ⟨some .sound, r.uuid⟩
  | .image _ | .sound _ | .armature _ | .action _ => []

end Entry

/-- The entries of all collections. -/
def contents (m : Manifest) : List Entry :=
  m.scenes.map .scene ++ m.objects.map .object ++ m.meshes.map .mesh ++
    m.materials.map .material ++ m.textures.map .texture ++ m.images.map .image ++
    m.sounds.map .sound ++ m.speakers.map .speaker ++ m.armatures.map .armature ++
    m.actions.map .action

/-- Every reference leads to an entry of the collection it belongs to. -/
def Closed (m : Manifest) : Prop :=
  ∀ e ∈ m.contents, ∀ l ∈ e.links, ∃ t ∈ m.contents, some t.kind = l.kind ∧ t.uuid = l.uuid

/-- The manifest with an entry at the end of its collection. -/
def add (m : Manifest) : Entry → Manifest
  | .scene e => { m with scenes := m.scenes ++ [e] }
  | .object e => { m with objects := m.objects ++ [e] }
  | .mesh e => { m with meshes := m.meshes ++ [e] }
  | .material e => { m with materials := m.materials ++ [e] }
  | .texture e => { m with textures := m.textures ++ [e] }
  | .image e => { m with images := m.images ++ [e] }
  | .sound e => { m with sounds := m.sounds ++ [e] }
  | .speaker e => { m with speakers := m.speakers ++ [e] }
  | .armature e => { m with armatures := m.armatures ++ [e] }
  | .action e => { m with actions := m.actions ++ [e] }

theorem contents_add (m : Manifest) (e : Entry) :
    (m.add e).contents.Perm (e :: m.contents) := by
  rw [← Multiset.coe_eq_coe]
  cases e <;>
    simp only [add, contents, List.map_append, List.map_cons, List.map_nil, ← Multiset.coe_add,
      ← Multiset.cons_coe, Multiset.coe_nil, Multiset.add_cons, Multiset.cons_add, add_zero]

@[simp] theorem mem_contents_add {m : Manifest} {e t : Entry} :
    t ∈ (m.add e).contents ↔ t = e ∨ t ∈ m.contents := by
  rw [(contents_add m e).mem_iff, List.mem_cons]

end Manifest

end SceneExport
