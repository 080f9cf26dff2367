import Mathlib
import SceneExport.Proofs.Walk.Blocks
import SceneExport.Proofs.Walk.Run

/-!
# From steps to walks

Most of what is proved about whole walks passes from steps to what is made of them: an invariant is
kept, two walks end alike, a step fails with certain errors only. The way from the files of images
up to the scenes is the same for all of these properties, and it is gone once, here. What a property
has to know about a writer is an assumption, so each property may bring its own reasons for images,
meshes, actions or objects.
-/
namespace SceneExport.Export.Walk

open Manifest (Ref ObjectEntry)
open Project (Mesh Material Texture Image Sound Speaker Armature Object Scene)

/-- Images, sounds, meshes, objects and actions are the same in both manifests. -/
structure Unmoved (m m' : Manifest) : Prop where
  images : m'.images = m.images
  sounds : m'.sounds = m.sounds
  meshes : m'.meshes = m.meshes
  objects : m'.objects = m.objects
  actions : m'.actions = m.actions

lemma Unmoved.refl (m : Manifest) : Unmoved m m := ⟨rfl, rfl, rfl, rfl, rfl⟩

/-- The property passes from steps to what is made of them, and it holds for the steps that all
writers share. -/
structure Stepwise (p : Project) (P : ∀ ⦃β : Type⦄, WalkM β → Prop) : Prop where
  done : ∀ {β : Type} (b : β), P (pure b)
  seq : ∀ {β γ : Type} {m : WalkM β} {f : β → WalkM γ}, P m → (∀ b, P (f b)) → P (m >>= f)
  refused : ∀ {β : Type} (owner reason : String), P (throw (.component owner reason) : WalkM β)
  marked : ∀ {uuid : String} {write : WalkM Unit}, P write → P (once uuid write)
  warned : ∀ text, P (warn text)
  noted : ∀ text, P (err text)
  filed : ∀ {f : Manifest → Manifest}, (∀ m, Unmoved m (f m)) → P (changeManifest f)
  /-- After a climb the marks of it are set. What follows reads the marks from before, and nothing
  else. -/
  climbed : ∀ {β : Type} {name : String} {f : Walk → WalkM β},
    (∀ w v : Walk, v.context.exported = w.context.exported → f v = f w) → (∀ w, P (f w)) →
    P (get >>= fun w =>
      changeContext (fun c => { c with exported := (climb p w.context.exported [] name).marks }) >>=
      fun _ => f w)

/-- The property is one of steps that fail as well, so it passes to a step that recovers. -/
def Recovers (P : ∀ ⦃β : Type⦄, WalkM β → Prop) : Prop :=
  ∀ ⦃β : Type⦄ ⦃m : WalkM β⦄ ⦃f : Error → WalkM β⦄, P m → (∀ e, P (throw e : WalkM β) → P (f e)) →
    P (tryCatch m f)

/-- The objects of a climb are those that their names stand for. -/
lemma object?_of_mem_chain {p : Project} (marks : List String) (chain : List Object) (name : String)
    (hchain : ∀ o ∈ chain, p.object? o.name = some o) :
    ∀ o ∈ (climb p marks chain name).chain, p.object? o.name = some o := by
  fun_induction climb p marks chain name with
  | case1 => exact hchain
  | case2 => exact hchain
  | case3 marks chain name o hfound =>
    exact List.forall_mem_cons.mpr ⟨Project.named?_name hfound, hchain⟩
  | case4 marks chain name o hfound _ _ _ ih =>
    exact ih (List.forall_mem_cons.mpr ⟨Project.named?_name hfound, hchain⟩)

namespace Stepwise

variable {β γ : Type} {p : Project} {P : ∀ ⦃β : Type⦄, WalkM β → Prop} (h : Stepwise p P)

include h

lemma map {m : WalkM β} (f : β → γ) (hm : P m) : P (f <$> m) := by
  rw [map_eq_pure_bind]
  exact h.seq hm fun b => h.done (f b)

/-- A step after a lookup; it matters only for what is found. -/
lemma found {kind owner name : String} {found : Option β} {f : β → WalkM γ}
    (hf : ∀ b, found = some b → P (f b)) : P (need kind owner name found >>= f) := by
  cases found with
  | none =>
    have hthrow : (need kind owner name none >>= f) = (throw (missing kind owner name) : WalkM γ) :=
      rfl
    rw [hthrow]
    exact h.refused _ _
  | some b =>
    have hpure : (need kind owner name (some b) >>= f) = f b := rfl
    rw [hpure]
    exact hf b rfl

lemma mapM {f : β → WalkM γ} (hf : ∀ x, P (f x)) (xs : List β) : P (xs.mapM f) := by
  induction xs with
  | nil =>
    rw [List.mapM_nil]
    exact h.done []
  | cons x xs ih =>
    rw [List.mapM_cons]
    exact h.seq (hf x) fun _ => h.seq ih fun _ => h.done _

lemma forM {f : β → WalkM PUnit} {xs : List β} (hf : ∀ x ∈ xs, P (f x)) : P (xs.forM f) := by
  induction xs with
  | nil => exact h.done _
  | cons x xs ih =>
    exact h.seq (hf x List.mem_cons_self) fun _ => ih fun y hy => hf y (List.mem_cons_of_mem x hy)

-- Images and sounds are written only where they were looked up by name.
lemma image (hrecovers : Recovers P)
    (hpath : ∀ filepath packed usual, P (mediaPath p filepath packed usual))
    (hentry : ∀ e, P (changeManifest fun m => { m with images := m.images ++ [e] }))
    (image : Image) : P (writeImage p image) := by
  apply h.marked
  split
  · exact h.seq (h.done _) fun _ => hentry _
  · exact h.seq (hrecovers (hpath _ _ _) fun _ _ => h.refused _ _) fun _ => hentry _

lemma sound (hpath : ∀ filepath packed usual, P (mediaPath p filepath packed usual))
    (hentry : ∀ e, P (changeManifest fun m => { m with sounds := m.sounds ++ [e] }))
    (sound : Sound) : P (writeSound p sound) :=
  h.marked (h.seq (hpath _ _ _) fun _ => hentry _)

lemma texture (himage : ∀ image, p.image? image.name = some image → P (writeImage p image))
    (texture : Texture) : P (writeTexture p texture) := by
  apply h.marked
  cases texture.image with
  | none => exact h.seq (h.done _) fun _ => h.filed fun _ => ⟨rfl, rfl, rfl, rfl, rfl⟩
  | some name =>
    refine h.found fun image hfound => h.seq ?_ fun _ => h.filed fun _ => ⟨rfl, rfl, rfl, rfl, rfl⟩
    exact h.map _ (himage image (Project.named?_name hfound))

lemma material (himage : ∀ image, p.image? image.name = some image → P (writeImage p image))
    (material : Material) : P (writeMaterial p material) := by
  have hrest : ∀ f : List Ref → Manifest → Manifest, (∀ refs m, Unmoved m (f refs m)) →
      P (do
        let textures ← material.textures.mapM fun name => do
          let texture ← need "Texture" material.name name (p.texture? name)
          writeTexture p texture
        changeManifest (f textures)) := by
    intro f hf
    refine h.seq (h.mapM (fun name => ?_) _) fun _ => h.filed (hf _)
    exact h.found fun texture _ => h.texture himage texture
  apply h.marked
  split
  · exact h.seq (h.warned _) fun _ => hrest _ fun _ _ => ⟨rfl, rfl, rfl, rfl, rfl⟩
  · exact hrest _ fun _ _ => ⟨rfl, rfl, rfl, rfl, rfl⟩

lemma vertexAnimation (hpush : ∀ {β : Type} (f : Sections → β × Sections), P (push f)) (mesh : Mesh)
    (owner : Object) (a : Bake.VertexAnimation) : P (writeVertexAnimation mesh owner a) := by
  unfold writeVertexAnimation
  split
  · exact h.seq (h.warned _) fun _ => h.done _
  · split
    · exact h.seq (h.noted _) fun _ => h.done _
    · exact h.seq (hpush _) fun _ => h.done _

lemma mesh (hpush : ∀ {β : Type} (f : Sections → β × Sections), P (push f))
    (himage : ∀ image, p.image? image.name = some image → P (writeImage p image))
    (hentry : ∀ e, P (changeManifest fun m => { m with meshes := m.meshes ++ [e] })) (mesh : Mesh)
    (owner : Object) : P (writeMesh p mesh owner) := by
  apply h.marked
  cases meshFlaw? mesh with
  | some reason => exact h.refused _ _
  | none =>
    refine h.seq (h.mapM (fun name => h.found fun material _ => h.material himage material) _)
      fun materials => ?_
    refine h.seq (hpush _) fun position => h.seq (hpush _) fun normal => h.seq (hpush _)
      fun indices => ?_
    split
    · exact h.seq (h.mapM (h.vertexAnimation hpush mesh owner) _) fun _ => hentry _
    · exact h.seq (h.done _) fun _ => hentry _

lemma speaker (hrecovers : Recovers P)
    (hsound : ∀ sound, p.sound? sound.name = some sound → P (writeSound p sound))
    (speaker : Speaker) : P (writeSpeaker p speaker) := by
  apply h.marked
  cases speaker.sound with
  | none => exact h.seq (h.done _) fun _ => h.filed fun _ => ⟨rfl, rfl, rfl, rfl, rfl⟩
  | some name =>
    refine h.found fun sound hfound => h.seq (hrecovers ?_ fun e he => ?_) fun _ => ?_
    · exact h.map _ (hsound sound (Project.named?_name hfound))
    · cases e with
      | path e => exact h.seq (h.noted _) fun _ => h.done _
      | _ => exact he
    · exact h.filed fun _ => ⟨rfl, rfl, rfl, rfl, rfl⟩

lemma armature (armature : Armature) : P (writeArmature p armature) :=
  h.marked (h.filed fun _ => ⟨rfl, rfl, rfl, rfl, rfl⟩)

lemma data {o : Object}
    (hmesh : o.kind = .mesh → ∀ mesh, o.data = some mesh.name → p.mesh? mesh.name = some mesh →
      P (writeMesh p mesh o))
    (hspeaker : ∀ speaker, P (writeSpeaker p speaker)) : P (writeData p o) := by
  unfold writeData
  cases hdata : o.data with
  | none => exact h.done _
  | some name =>
    cases hkind : o.kind with
    | mesh =>
      refine h.found fun mesh hfound => h.map _ (hmesh hkind mesh ?_ (Project.named?_name hfound))
      have hname : mesh.name = name := Project.name_of_named? hfound
      rw [hdata, hname]
    | armature => exact h.found fun armature _ => h.map _ (h.armature armature)
    | speaker => exact h.found fun speaker _ => h.map _ (hspeaker speaker)
    | empty | camera | lamp => exact h.done _

lemma played (o : Object) {name : String}
    (haction : ∀ a, p.actions.playable? name = some a → P (writeAction p a)) :
    P (writePlayed p o name) := by
  unfold writePlayed
  cases hfound : p.actions.playable? name with
  | none => exact h.seq (h.warned _) fun _ => h.done _
  | some a => exact h.map _ (haction a hfound)

lemma body {o : Object} (hdata : P (writeData p o)) (hplayed : ∀ name, P (writePlayed p o name))
    (hentry : ∀ e : ObjectEntry,
      P (changeManifest fun m => { m with objects := m.objects ++ [e] })) :
    P (writeObjectBody p o) := by
  refine h.seq hdata fun data => ?_
  cases o.animation with
  | none => exact h.seq (h.done _) fun _ => hentry _
  | some animation =>
    dsimp only
    cases animation.action with
    | none => exact h.seq (h.done _) fun _ => h.seq (h.done _) fun _ => hentry _
    | some name => exact h.seq (hplayed name) fun _ => h.seq (h.done _) fun _ => hentry _

variable (hbody : ∀ o, p.object? o.name = some o → P (writeObjectBody p o))

include hbody

lemma object (o : Object) : P (writeObject p o) := by
  refine h.climbed (fun w v hmarks => ?_) fun w => ?_
  · rw [hmarks]
  · have hchain := object?_of_mem_chain (p := p) w.context.exported [] o.name (by simp)
    split
    · exact h.refused _ _
    · exact h.seq (h.forM fun q hq => hbody q (hchain q hq)) fun _ => h.done _

lemma sceneObject (kind : String) (scene : Scene) (name : String) :
    P (writeSceneObject p kind scene name) := by
  refine h.found fun o _ => ?_
  split
  · exact h.done _
  · exact h.map _ (h.object hbody o)

lemma scene (scene : Scene) : P (writeScene p scene) := by
  apply h.marked
  refine h.seq (h.mapM (h.sceneObject hbody "Object" scene) _) fun objects => ?_
  cases scene.camera with
  | none => exact h.seq (h.done _) fun _ => h.filed fun _ => ⟨rfl, rfl, rfl, rfl, rfl⟩
  | some name =>
    refine h.seq (h.sceneObject hbody _ _ _) fun _ => ?_
    exact h.filed fun _ => ⟨rfl, rfl, rfl, rfl, rfl⟩

/-- A property that objects and the actions at the end have is one of the whole walk. -/
theorem whole
    (hactions : P (p.actions.actions.forM fun action => do
      if !p.actions.hasBaked action then
        let _ ← writeAction p action)) (scenes : List Scene) : P (run p scenes) :=
  h.seq (h.forM fun scene _ => h.seq (h.scene hbody scene) fun _ => h.done _) fun _ => hactions

omit hbody

lemma actions (haction : ∀ a, P (writeAction p a)) :
    P (p.actions.actions.forM fun action => do
      if !p.actions.hasBaked action then
        let _ ← writeAction p action) := by
  refine h.forM fun action _ => ?_
  split
  · exact h.seq (haction action) fun _ => h.done _
  · exact h.done _

/-- A property of all that puts numbers or files into the context is one of the whole walk. -/
theorem throughout (hrecovers : Recovers P)
    (hpush : ∀ {β : Type} (f : Sections → β × Sections), P (push f))
    (himage : ∀ image, p.image? image.name = some image → P (writeImage p image))
    (hsound : ∀ sound, p.sound? sound.name = some sound → P (writeSound p sound))
    (haction : ∀ a, P (writeAction p a))
    (hmeshes : ∀ e, P (changeManifest fun m => { m with meshes := m.meshes ++ [e] }))
    (hobjects : ∀ e, P (changeManifest fun m => { m with objects := m.objects ++ [e] }))
    (scenes : List Scene) : P (run p scenes) := by
  have hmesh := h.mesh hpush himage hmeshes
  refine h.whole
    (fun o _ => h.body (h.data (fun _ mesh _ _ => hmesh mesh o) ?_) (fun name => ?_) hobjects)
    (h.actions haction) scenes
  · exact h.speaker hrecovers hsound
  · exact h.played o fun a _ => haction a

end Stepwise

lemma marks_subset_climb {p : Project} (marks : List String) (chain : List Object) (name : String) :
    marks ⊆ (climb p marks chain name).marks := by
  fun_induction climb p marks chain name with
  | case1 => exact List.Subset.refl _
  | case2 => exact List.Subset.refl _
  | case3 => exact List.subset_cons_self _ _
  | case4 _ _ _ _ _ _ _ _ ih => exact List.Subset.trans (List.subset_cons_self _ _) ih

/-- An invariant that further marks, messages and entries of no account leave alone. -/
lemma stepwise_keeps {p : Project} {I : Walk → Prop}
    (hI : ∀ ⦃w w'⦄, w'.context.sections = w.context.sections →
      w.context.exported ⊆ w'.context.exported →
      Unmoved w.manifest w'.manifest → I w → I w') : Stepwise p fun _ m => Keeps I m where
  done := keeps_pure
  seq := keeps_bind
  refused _ _ _ _ _ h := absurd h not_runs_throw
  marked := keeps_once fun w => hI rfl (List.subset_cons_self _ _) (.refl w.manifest)
  warned _ _ _ _ h := by
    rw [runs_changeContext.mp h]
    exact hI rfl (List.Subset.refl _) (.refl _)
  noted _ _ _ _ h := by
    rw [runs_changeContext.mp h]
    exact hI rfl (List.Subset.refl _) (.refl _)
  filed hf w _ _ h := by
    rw [runs_changeManifest.mp h]
    exact hI rfl (List.Subset.refl _) (hf w.manifest)
  climbed _ hf w _ w' h hw := by
    simp only [runs_bind, runs_get, runs_changeContext] at h
    obtain ⟨_, v, ⟨rfl, rfl⟩, _, u, rfl, h⟩ := h
    exact hf v h (@hI v _ rfl (marks_subset_climb _ _ _) (.refl _) hw)

end SceneExport.Export.Walk
