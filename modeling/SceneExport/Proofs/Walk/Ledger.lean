import Mathlib
import SceneExport.Proofs.Sections.Curves
import SceneExport.Proofs.Walk.Objects
import SceneExport.Proofs.Walk.Stepwise

/-!
# What a walk files in the sections

Meshes and actions put numbers into the sections and keep the ranges of them in their entries. All
other datablocks leave the sections and these entries alone. So the invariant is carried by two
steps: a new entry gets ranges behind all that were handed out before, and the numbers of its source
stand there.

The source of an entry is told by its name. For meshes this is plain, since a mesh is written only
where it was looked up by name. The actions that are written at the end of a walk are not looked up.
But of several actions of one name the first one comes first, and the others are passed over, since
all have the same mark.
-/
namespace SceneExport

open Range (Laid)
open Sections (Stored Grown floatBytes indexBytes)

/-- The numbers of all vertices, frame after frame. -/
def Bake.VertexAnimation.numbers (a : VertexAnimation) : List Float32 :=
  a.frames.flatMap fun f => f.vertices.flatMap Vector.toList

namespace Manifest

/-- The entry has the name and the settings of the vertex animation. -/
structure VertexAnimationEntry.Shows (e : VertexAnimationEntry)
    (a : Bake.VertexAnimation) : Prop where
  name : e.name = a.name
  frameStart : e.frameStart = a.start
  frameEnd : e.frameEnd = a.stop
  averaging : e.averaging = a.averaging
  averagingInterval : e.averagingInterval = a.averagingInterval
  allowNla : e.allowNla = a.allowNla

/-- The mesh is in one part, and the part has this number of vertices. -/
def MeshEntry.Counts (e : MeshEntry) (vertices : Nat) : Prop :=
  ∃ part, e.submeshes = [part] ∧ part.vertices = vertices

/-- The ranges of the float section that a mesh has. -/
def MeshEntry.floatRanges (e : MeshEntry) : List Range :=
  (e.submeshes.flatMap fun part => [part.position, part.normal]) ++
    e.vertexAnimations.map VertexAnimationEntry.frames

/-- The ranges of the int section that a mesh has. -/
def MeshEntry.intRanges (e : MeshEntry) : List Range :=
  e.submeshes.map SubmeshEntry.indices

/-- All ranges of the float section. -/
def floatRanges (m : Manifest) : List Range :=
  m.meshes.flatMap MeshEntry.floatRanges ++ m.actions.flatMap ActionEntry.ranges

/-- All ranges of the int section. -/
def intRanges (m : Manifest) : List Range :=
  m.meshes.flatMap MeshEntry.intRanges

end Manifest

namespace Project

open Manifest (MeshEntry SubmeshEntry ActionEntry VertexAnimationEntry)

/-- Whether a vertex animation is baked and has as many vertices as the mesh. -/
def Mesh.fits (mesh : Mesh) (a : Bake.VertexAnimation) : Bool :=
  a.isBaked && a.vertexCount? = some mesh.positions.length

/-- The vertex animations of an object that are exported with a mesh. -/
def Object.animationsFor (o : Object) (mesh : Mesh) : List Bake.VertexAnimation :=
  if o.exportVertexAnimations then o.vertexAnimations.filter mesh.fits else []

/-- The numbers of a mesh and of vertex animations of an object stand at the ranges of the entry. -/
structure MeshHeld (floats : Range → List Float32 → Prop) (words : Range → List UInt32 → Prop)
    (mesh : Mesh) (owner : Object) (part : SubmeshEntry) (e : MeshEntry) : Prop where
  submeshes : e.submeshes = [part]
  position : floats part.position (mesh.positions.flatMap Vector.toList)
  normal : floats part.normal (mesh.normals.flatMap Vector.toList)
  indices : words part.indices mesh.indices
  animations : List.Forall₂ (fun (a : Bake.VertexAnimation) (v : VertexAnimationEntry) =>
    v.name = a.name ∧ floats v.frames a.numbers) (owner.animationsFor mesh) e.vertexAnimations

/-- The entry holds the numbers of the mesh of its name, and the vertex animations of an object that
shows this mesh. -/
def HoldsMesh (p : Project) (floats : Range → List Float32 → Prop)
    (words : Range → List UInt32 → Prop) (e : MeshEntry) : Prop :=
  ∃ mesh owner part, p.mesh? e.name = some mesh ∧ owner ∈ p.objects ∧ owner.kind = .mesh ∧
    owner.data = some e.name ∧ MeshHeld floats words mesh owner part e

/-- The entry holds the streams of the action of its name. -/
def HoldsAction (p : Project) (floats : Range → List Float32 → Prop) (e : ActionEntry) : Prop :=
  ∃ a, p.actions.get? e.name = some a ∧ e.Holds floats a

variable {p : Project} {floats floats' : Range → List Float32 → Prop}
  {words words' : Range → List UInt32 → Prop}

lemma HoldsMesh.imp {e : MeshEntry} (h : p.HoldsMesh floats words e)
    (hfloats : ∀ r values, floats r values → floats' r values)
    (hwords : ∀ r values, words r values → words' r values) : p.HoldsMesh floats' words' e := by
  obtain ⟨mesh, owner, part, hmesh, howner, hkind, hdata, hheld⟩ := h
  refine ⟨mesh, owner, part, hmesh, howner, hkind, hdata, hheld.submeshes,
    hfloats _ _ hheld.position, hfloats _ _ hheld.normal, hwords _ _ hheld.indices,
    hheld.animations.imp ?_⟩
  exact fun a v hv => ⟨hv.1, hfloats _ _ hv.2⟩

lemma HoldsAction.imp {e : ActionEntry} (h : p.HoldsAction floats e)
    (hfloats : ∀ r values, floats r values → floats' r values) : p.HoldsAction floats' e := by
  obtain ⟨a, ha, hheld⟩ := h
  refine ⟨a, ha, fun path slot hslot index entry hentry => ?_⟩
  obtain ⟨c, hc, hstream⟩ := hheld path slot hslot index entry hentry
  exact ⟨c, hc, hfloats _ _ hstream⟩

end Project

namespace Export

open Manifest (MeshEntry ActionEntry VertexAnimationEntry Ref)
open Project (Mesh Material Texture Image Sound Speaker Armature Object Scene)

/-- The entries of the manifest hold the numbers of their sources, at ranges side by side. -/
structure Filed (p : Project) (s : Sections) (m : Manifest) : Prop where
  whole : s.Whole
  floats : Laid 0 (s.float.length / 4) m.floatRanges
  ints : Laid 0 (s.int.length / 4) m.intRanges
  meshes : ∀ e ∈ m.meshes, p.HoldsMesh (Stored floatBytes s.float) (Stored indexBytes s.int) e
  actions : ∀ e ∈ m.actions, p.HoldsAction (Stored floatBytes s.float) e

namespace Filed

variable {p : Project} {s s' : Sections} {m m' : Manifest} {fs is : List Range}

lemma congr (h : Filed p s m) (hmeshes : m'.meshes = m.meshes) (hactions : m'.actions = m.actions) :
    Filed p s m' := by
  obtain ⟨hwhole, hfloats, hints, hmesh, haction⟩ := h
  refine ⟨hwhole, ?_, ?_, by rwa [hmeshes], by rwa [hactions]⟩
  · rwa [Manifest.floatRanges, hmeshes, hactions]
  · rwa [Manifest.intRanges, hmeshes]

/-- The filed entries stay where they are when the sections grow. -/
lemma grow (h : Filed p s m) (hgrown : Grown s s' fs is) :
    (∀ e ∈ m.meshes, p.HoldsMesh (Stored floatBytes s'.float) (Stored indexBytes s'.int) e) ∧
      ∀ e ∈ m.actions, p.HoldsAction (Stored floatBytes s'.float) e :=
  ⟨fun e he => (h.meshes e he).imp (fun _ _ => hgrown.float.stored) (fun _ _ => hgrown.int.stored),
    fun e he => (h.actions e he).imp fun _ _ => hgrown.float.stored⟩

/-- A new mesh is filed behind all that is there. -/
lemma addMesh (h : Filed p s m) (hgrown : Grown s s' fs is) {e : MeshEntry}
    (hfloats : e.floatRanges.Subperm fs) (hints : e.intRanges.Subperm is)
    (he : p.HoldsMesh (Stored floatBytes s'.float) (Stored indexBytes s'.int) e)
    (hmeshes : m'.meshes = m.meshes ++ [e]) (hactions : m'.actions = m.actions) :
    Filed p s' m' := by
  obtain ⟨hmesh, haction⟩ := h.grow hgrown
  refine ⟨hgrown.whole h.whole, ?_, ?_, ?_, by rwa [hactions]⟩
  · have hperm : m'.floatRanges.Perm (m.floatRanges ++ e.floatRanges) := by
      simp only [Manifest.floatRanges, hmeshes, hactions, List.flatMap_append,
        List.flatMap_singleton, List.append_assoc]
      exact List.perm_append_comm.append_left _
    exact (hgrown.float.laid_append h.floats hfloats).subperm hperm.subperm
  · rw [Manifest.intRanges, hmeshes, List.flatMap_append, List.flatMap_singleton]
    exact hgrown.int.laid_append h.ints hints
  · rw [hmeshes]
    exact List.forall_mem_append.mpr ⟨hmesh, by simpa using he⟩

/-- A new action is filed behind all that is there. -/
lemma addAction (h : Filed p s m) (hgrown : Grown s s' fs is) {e : ActionEntry}
    (hfloats : e.ranges.Subperm fs) (he : p.HoldsAction (Stored floatBytes s'.float) e)
    (hmeshes : m'.meshes = m.meshes) (hactions : m'.actions = m.actions ++ [e]) :
    Filed p s' m' := by
  obtain ⟨hmesh, haction⟩ := h.grow hgrown
  refine ⟨hgrown.whole h.whole, ?_, ?_, by rwa [hmeshes], ?_⟩
  · rw [Manifest.floatRanges, hmeshes, hactions, List.flatMap_append, List.flatMap_singleton,
      ← List.append_assoc]
    exact hgrown.float.laid_append h.floats hfloats
  · rw [Manifest.intRanges, hmeshes, ← List.append_nil (List.flatMap _ _)]
    exact hgrown.int.laid_append h.ints (List.nil_subperm)
  · rw [hactions]
    exact List.forall_mem_append.mpr ⟨haction, by simpa using he⟩

end Filed

namespace Walk

/-- The sections, and the entries that have ranges in them. -/
def ledger (w : Walk) : Sections × List MeshEntry × List ActionEntry :=
  (w.context.sections, w.manifest.meshes, w.manifest.actions)

/-- The step leaves the sections, the meshes and the actions alone, whether it ends well or not. -/
def Still {β : Type} (m : WalkM β) : Prop :=
  ∀ w, (after m w).2.ledger = w.ledger

section Still

variable {β γ : Type}

lemma still_pure (b : β) : Still (pure b) := fun _ => rfl

lemma still_throw (e : Error) : Still (throw e : WalkM β) := fun _ => rfl

lemma still_get : Still (get : WalkM Walk) := fun _ => rfl

lemma still_bind {m : WalkM β} {f : β → WalkM γ} (hm : Still m) (hf : ∀ b, Still (f b)) :
    Still (m >>= f) := by
  intro w
  have hw := hm w
  rw [after_bind]
  rcases hrun : after m w with ⟨_ | b, v⟩
  · rwa [hrun] at hw
  · rw [hrun] at hw
    exact (hf b v).trans hw

lemma still_tryCatch {m : WalkM β} {f : Error → WalkM β} (hm : Still m) (hf : ∀ e, Still (f e)) :
    Still (tryCatch m f) := by
  intro w
  have hw := hm w
  rw [after_tryCatch]
  rcases hrun : after m w with ⟨e | _, v⟩
  · rw [hrun] at hw
    exact (hf e v).trans hw
  · rwa [hrun] at hw

lemma still_changeContext {f : Context → Context} (hf : ∀ c, (f c).sections = c.sections) :
    Still (changeContext f) :=
  fun w => congrArg (·, w.manifest.meshes, w.manifest.actions) (hf w.context)

lemma still_changeManifest {f : Manifest → Manifest}
    (hf : ∀ m, (f m).meshes = m.meshes ∧ (f m).actions = m.actions) : Still (changeManifest f) := by
  intro w
  obtain ⟨hmeshes, hactions⟩ := hf w.manifest
  exact congrArg₂ (w.context.sections, ·, ·) hmeshes hactions

lemma still_once {uuid : String} {write : WalkM Unit} (h : Still write) :
    Still (once uuid write) := by
  intro w
  have hwrite : (after write (w.marked uuid)).2.ledger = w.ledger := h (w.marked uuid)
  rcases hrun : after (once uuid write) w with ⟨e | r, v⟩
  · obtain ⟨-, hfails⟩ := fails_once.mp hrun
    rwa [hfails] at hwrite
  · obtain ⟨-, ⟨-, rfl⟩ | ⟨-, hruns⟩⟩ := runs_once.mp hrun
    · rfl
    · rwa [hruns] at hwrite

end Still

section Writers

variable {p : Project}

lemma stepwise_still : Stepwise p fun _ m => Still m where
  done := still_pure
  seq := still_bind
  refused _ _ := still_throw _
  marked := still_once
  warned _ := still_changeContext fun _ => rfl
  noted _ := still_changeContext fun _ => rfl
  filed hf := still_changeManifest fun m => ⟨(hf m).meshes, (hf m).actions⟩
  climbed _ hf :=
    still_bind still_get fun w => still_bind (still_changeContext fun _ => rfl) fun _ => hf w

lemma recovers_still : Recovers fun _ m => Still m :=
  fun _ _ _ hm hf => still_tryCatch hm fun e => hf e (still_throw e)

lemma still_mediaPath (filepath : String) (packed : Option Bytes) (usual : String) :
    Still (mediaPath p filepath packed usual) := by
  intro w
  have hnaming := naming_mediaPath p filepath packed usual w
  generalize after (mediaPath p filepath packed usual) w = result at hnaming ⊢
  cases hnaming with
  | packed | found | refused => rfl

lemma still_writeMaterial (material : Material) : Still (writeMaterial p material) := by
  refine stepwise_still.material (fun image _ => ?_) material
  exact stepwise_still.image recovers_still still_mediaPath
    (fun _ => still_changeManifest fun _ => ⟨rfl, rfl⟩) image

lemma still_writeSpeaker (speaker : Speaker) : Still (writeSpeaker p speaker) := by
  refine stepwise_still.speaker recovers_still (fun sound _ => ?_) speaker
  exact stepwise_still.sound still_mediaPath
    (fun _ => still_changeManifest fun _ => ⟨rfl, rfl⟩) sound

end Writers

/-- The entries of the manifest hold the numbers of their sources. -/
def IsFiled (p : Project) (w : Walk) : Prop :=
  Filed p w.context.sections w.manifest

section Filed

variable {β : Type} {p : Project} {w w' : Walk}

lemma filed_of_ledger (h : w'.ledger = w.ledger) (hw : IsFiled p w) : IsFiled p w' := by
  obtain ⟨hsections, hentries⟩ := Prod.mk.inj h
  obtain ⟨hmeshes, hactions⟩ := Prod.mk.inj hentries
  unfold IsFiled
  rw [hsections]
  exact hw.congr hmeshes hactions

lemma Still.runs {m : WalkM β} (h : Still m) {b : β} (hrun : Runs m w b w') :
    w'.ledger = w.ledger := by
  have hw := h w
  rwa [hrun] at hw

lemma Still.keeps {m : WalkM β} (h : Still m) : Keeps (IsFiled p) m :=
  fun _ _ _ hrun => filed_of_ledger (h.runs hrun)

lemma stepwise_filed : Stepwise p fun _ m => Keeps (IsFiled p) m := by
  refine stepwise_keeps fun w w' hsections _ hunmoved => filed_of_ledger ?_
  rw [ledger, hsections, hunmoved.meshes, hunmoved.actions]
  rfl

end Filed

section Filing

variable {p : Project} {w w' : Walk}

lemma runs_pushFloats {values : List Float32} {r : Range}
    (h : Runs (push (·.pushFloats values)) w r w') (hwhole : w.context.sections.Whole) :
    w'.manifest = w.manifest ∧ Grown w.context.sections w'.context.sections [r] [] ∧
      Stored floatBytes w'.context.sections.float r values := by
  obtain ⟨rfl, rfl⟩ := runs_push.mp h
  exact ⟨rfl, .pushFloats _ _, Sections.stored_pushFloats hwhole values⟩

lemma runs_pushIndices {indices : List UInt32} {r : Range}
    (h : Runs (push (·.pushInts (indices.map fun i => Int.ofNat i.toNat))) w r w')
    (hwhole : w.context.sections.Whole) :
    w'.manifest = w.manifest ∧ Grown w.context.sections w'.context.sections [] [r] ∧
      Stored indexBytes w'.context.sections.int r indices := by
  obtain ⟨rfl, rfl⟩ := runs_push.mp h
  exact ⟨rfl, .pushInts _ _, Sections.stored_pushInts hwhole indices⟩

/-- Vertex animations were put into the float section, and the entries are theirs. -/
structure Animated (s s' : Sections) (animations : List Bake.VertexAnimation)
    (entries : List VertexAnimationEntry) : Prop where
  grown : Grown s s' (entries.map VertexAnimationEntry.frames) []
  held :
    List.Forall₂ (fun a e => e.Shows a ∧ Stored floatBytes s'.float e.frames a.numbers)
      animations entries

lemma Animated.refl (s : Sections) : Animated s s [] [] := ⟨.refl s, .nil⟩

lemma Animated.append {s s₁ s₂ : Sections} {animations animations' : List Bake.VertexAnimation}
    {entries entries' : List VertexAnimationEntry} (h : Animated s s₁ animations entries)
    (h' : Animated s₁ s₂ animations' entries') :
    Animated s s₂ (animations ++ animations') (entries ++ entries') := by
  refine ⟨?_, List.rel_append (h.held.imp fun a e he => ?_) h'.held⟩
  · rw [List.map_append]
    exact h.grown.trans h'.grown
  · exact ⟨he.1, h'.grown.float.stored he.2⟩

lemma runs_writeVertexAnimation {mesh : Mesh} {owner : Object} {a : Bake.VertexAnimation}
    {r : Option VertexAnimationEntry} (h : Runs (writeVertexAnimation mesh owner a) w r w')
    (hwhole : w.context.sections.Whole) :
    w'.manifest = w.manifest ∧
      Animated w.context.sections w'.context.sections ([a].filter mesh.fits) r.toList := by
  unfold writeVertexAnimation at h
  split_ifs at h with hbaked hcount
  · simp only [warn, runs_bind, runs_changeContext, runs_pure] at h
    obtain ⟨_, v, rfl, rfl, rfl⟩ := h
    have hfits : mesh.fits a = false := by simp_all [Mesh.fits]
    rw [List.filter_singleton, hfits]
    exact ⟨rfl, .refl _⟩
  · simp only [err, runs_bind, runs_changeContext, runs_pure] at h
    obtain ⟨_, v, rfl, rfl, rfl⟩ := h
    have hfits : mesh.fits a = false := by simp [Mesh.fits, hcount]
    rw [List.filter_singleton, hfits]
    exact ⟨rfl, .refl _⟩
  · obtain ⟨frames, v, hpush, h⟩ := runs_bind.mp h
    obtain ⟨rfl, rfl⟩ := runs_pure.mp h
    obtain ⟨hmanifest, hgrown, hstored⟩ := runs_pushFloats hpush hwhole
    have hfits : mesh.fits a = true := by simp_all [Mesh.fits]
    rw [List.filter_singleton, hfits]
    exact ⟨hmanifest, hgrown, .cons ⟨⟨rfl, rfl, rfl, rfl, rfl, rfl⟩, hstored⟩ .nil⟩

/-- The vertex animations that fit are put into the float section one after another. -/
lemma runs_writeVertexAnimations {mesh : Mesh} {owner : Object}
    {animations : List Bake.VertexAnimation} {rs : List (Option VertexAnimationEntry)}
    (h : Runs (animations.mapM (writeVertexAnimation mesh owner)) w rs w')
    (hwhole : w.context.sections.Whole) :
    w'.manifest = w.manifest ∧
      Animated w.context.sections w'.context.sections (animations.filter mesh.fits)
        (rs.filterMap id) := by
  induction animations generalizing w rs with
  | nil =>
    simp only [List.mapM_nil, runs_pure] at h
    obtain ⟨rfl, rfl⟩ := h
    exact ⟨rfl, .refl _⟩
  | cons a animations ih =>
    simp only [List.mapM_cons, runs_bind, runs_pure] at h
    obtain ⟨r, v, hv, rs, v', hrest, rfl, rfl⟩ := h
    obtain ⟨hmanifest, hone⟩ := runs_writeVertexAnimation hv hwhole
    obtain ⟨hmanifest', hmore⟩ := ih hrest (hone.grown.whole hwhole)
    have hentries : (r :: rs).filterMap id = r.toList ++ rs.filterMap id := by
      cases r <;> rfl
    have hfilter : (a :: animations).filter mesh.fits =
        [a].filter mesh.fits ++ animations.filter mesh.fits := by
      rw [← List.filter_append, List.singleton_append]
    rw [hentries, hfilter]
    exact ⟨hmanifest'.trans hmanifest, hone.append hmore⟩

/-- The same for an object, whose vertex animations may be left out altogether. -/
lemma runs_animationsFor {mesh : Mesh} {owner : Object}
    {f : List (Option VertexAnimationEntry) → WalkM Unit}
    (h : Runs (if owner.exportVertexAnimations then
        owner.vertexAnimations.mapM (writeVertexAnimation mesh owner) >>= f
      else pure [] >>= f) w () w')
    (hwhole : w.context.sections.Whole) :
    ∃ rs v, Runs (f rs) v () w' ∧ v.manifest = w.manifest ∧
      Animated w.context.sections v.context.sections (owner.animationsFor mesh)
        (rs.filterMap id) := by
  unfold Object.animationsFor
  split_ifs at h ⊢
  · obtain ⟨rs, v, hv, hf⟩ := runs_bind.mp h
    exact ⟨rs, v, hf, runs_writeVertexAnimations hv hwhole⟩
  · obtain ⟨rs, v, hv, hf⟩ := runs_bind.mp h
    obtain ⟨rfl, rfl⟩ := runs_pure.mp hv
    exact ⟨[], v, hf, rfl, .refl _⟩

/-- The numbers of a mesh and of the vertex animations of an object were put into the sections, and
the entry of the mesh comes last among those of meshes. -/
structure MeshAdded (p : Project) (mesh : Mesh) (owner : Object) (w w' : Walk)
    (e : MeshEntry) : Prop where
  grown : Grown w.context.sections w'.context.sections e.floatRanges e.intRanges
  name : e.name = mesh.name
  uuid : e.uuid = p.uuid mesh
  meshes : w'.manifest.meshes = w.manifest.meshes ++ [e]
  actions : w'.manifest.actions = w.manifest.actions
  counts : e.Counts mesh.positions.length
  held : ∃ part, Project.MeshHeld (Stored floatBytes w'.context.sections.float)
    (Stored indexBytes w'.context.sections.int) mesh owner part e
  animations :
    List.Forall₂
      (fun a v => v.Shows a ∧ Stored floatBytes w'.context.sections.float v.frames a.numbers)
    (owner.animationsFor mesh) e.vertexAnimations

/-- A mesh that is marked is passed over; else it is added with the vertex animations of the
owner. -/
theorem runs_writeMesh {mesh : Mesh} {owner : Object} {r : Ref}
    (h : Runs (writeMesh p mesh owner) w r w') (hwhole : w.context.sections.Whole) :
    w' = w ∨ p.uuid mesh ∉ w.context.exported ∧ ∃ e, MeshAdded p mesh owner w w' e := by
  obtain ⟨-, ⟨-, rfl⟩ | ⟨hfresh, h⟩⟩ := runs_once.mp h
  · exact .inl rfl
  refine .inr ⟨hfresh, ?_⟩
  cases hflaw : meshFlaw? mesh with
  | some reason => simp [hflaw] at h
  | none =>
    have hmaterials : Still (mesh.materials.mapM fun name => do
        let material ← need "Material" mesh.name name (p.material? name)
        writeMaterial p material) := by
      refine (stepwise_still (p := p)).mapM (fun name => ?_) _
      exact (stepwise_still (p := p)).found fun material _ => still_writeMaterial material
    simp only [hflaw] at h
    obtain ⟨materials, w₀, hstill, h⟩ := runs_bind.mp h
    obtain ⟨hsections, hentries⟩ := Prod.mk.inj (hmaterials.runs hstill)
    obtain ⟨hmeshes, hactions⟩ := Prod.mk.inj hentries
    have hsections : w₀.context.sections = w.context.sections := hsections
    have hwhole : w₀.context.sections.Whole := hsections ▸ hwhole
    obtain ⟨position, w₁, hposition, h⟩ := runs_bind.mp h
    obtain ⟨normal, w₂, hnormal, h⟩ := runs_bind.mp h
    obtain ⟨indices, w₃, hindices, h⟩ := runs_bind.mp h
    obtain ⟨hm₁, g₁, hposition⟩ := runs_pushFloats hposition hwhole
    obtain ⟨hm₂, g₂, hnormal⟩ := runs_pushFloats hnormal (g₁.whole hwhole)
    obtain ⟨hm₃, g₃, hindices⟩ := runs_pushIndices hindices (g₂.whole (g₁.whole hwhole))
    obtain ⟨animations, w₄, h, hm₄, hanimated⟩ :=
      runs_animationsFor h (g₃.whole (g₂.whole (g₁.whole hwhole)))
    have g₄ := hanimated.grown
    have hmanifest : w₄.manifest = w₀.manifest := by rw [hm₄, hm₃, hm₂, hm₁]
    rw [runs_changeManifest, hmanifest] at h
    obtain rfl := h
    exact ⟨_, {
      grown := hsections ▸ ((g₁.trans g₂).trans g₃).trans g₄
      name := rfl
      uuid := rfl
      meshes := congrArg (· ++ [_]) hmeshes
      actions := hactions
      counts := ⟨_, rfl, rfl⟩
      held := ⟨_, {
        submeshes := rfl
        position := g₄.float.stored (g₃.float.stored (g₂.float.stored hposition))
        normal := g₄.float.stored (g₃.float.stored hnormal)
        indices := g₄.int.stored hindices
        animations := hanimated.held.imp fun _ _ hv => ⟨hv.1.name, hv.2⟩ }⟩
      animations := hanimated.held }⟩

theorem keeps_writeMesh {mesh : Mesh} {owner : Object} (hmesh : p.mesh? mesh.name = some mesh)
    (howner : owner ∈ p.objects) (hkind : owner.kind = .mesh)
    (hdata : owner.data = some mesh.name) : Keeps (IsFiled p) (writeMesh p mesh owner) := by
  intro w r w' h hw
  obtain rfl | ⟨-, e, hadded⟩ := runs_writeMesh h hw.whole
  · exact hw
  obtain ⟨part, hheld⟩ := hadded.held
  refine hw.addMesh hadded.grown (List.Subperm.refl _) (List.Subperm.refl _) ?_ hadded.meshes
    hadded.actions
  exact ⟨mesh, owner, part, hadded.name ▸ hmesh, howner, hkind, hadded.name ▸ hdata, hheld⟩

theorem keeps_writeAction {a : Action Float} (ha : p.actions.get? a.name = some a) :
    Keeps (IsFiled p) (writeAction p a) := by
  apply (stepwise_filed (p := p)).marked
  intro w u w' h hw
  simp only [runs_bind, runs_get, runs_changeContext, runs_changeManifest] at h
  obtain ⟨_, v, ⟨rfl, rfl⟩, _, u, rfl, rfl⟩ := h
  obtain ⟨fs, hgrown, hranges, hheld⟩ := encodeAction_holds a (p.uuid a) hw.whole v.context.messages
  exact hw.addAction hgrown hranges ⟨a, ha, hheld⟩ rfl rfl

end Filing

section Run

variable {p : Project} {w w' : Walk}

lemma get?_name {l : Library Float} {name : String} {a : Action Float} (h : l.get? name = some a) :
    l.get? a.name = some a :=
  Project.named?_name h

lemma keeps_writeObjectBody {o : Object} (ho : o ∈ p.objects) :
    Keeps (IsFiled p) (writeObjectBody p o) := by
  refine stepwise_filed.body (stepwise_filed.data (fun hkind mesh hdata hmesh => ?_)
    fun speaker => ?_) (fun name => ?_) fun e => ?_
  · exact keeps_writeMesh hmesh ho hkind hdata
  · exact (still_writeSpeaker speaker).keeps
  · exact stepwise_filed.played o fun a ha =>
      keeps_writeAction ((Library.get?_of_playable? ha).elim get?_name get?_name)
  · exact Still.keeps (still_changeManifest fun _ => ⟨rfl, rfl⟩)

/-- The first action of its name, where all that come before it and have no baked form are
marked. -/
lemma get?_of_unmarked {passed rest : List (Action Float)} {a : Action Float}
    (hsplit : p.actions.actions = passed ++ a :: rest)
    (hpassed : ∀ b ∈ passed, p.actions.hasBaked b = false → p.uuid b ∈ w.context.exported)
    (hbaked : p.actions.hasBaked a = false) (hfresh : p.uuid a ∉ w.context.exported) :
    p.actions.get? a.name = some a := by
  have hother : ∀ b ∈ passed, b.name ≠ a.name := by
    intro b hb hname
    have hbaked' : p.actions.hasBaked b = p.actions.hasBaked a := by
      rw [Library.hasBaked, hname]
      rfl
    have huuid : p.uuid b = p.uuid a :=
      congrArg (fun name => Identity.uuid "Action" name none p.filepath "") hname
    exact hfresh (huuid ▸ hpassed b hb (hbaked'.trans hbaked))
  have hnone : passed.find? (fun b => b.name = a.name) = none :=
    List.find?_eq_none.mpr fun b hb => by simpa using hother b hb
  rw [Library.get?, hsplit, List.find?_append, hnone]
  simp

/-- The actions of the project in their order, from one on. The marks tell which actions were
passed. -/
lemma filed_of_actions {passed rest : List (Action Float)}
    (hsplit : p.actions.actions = passed ++ rest)
    (hpassed : ∀ b ∈ passed, p.actions.hasBaked b = false → p.uuid b ∈ w.context.exported)
    (h : Runs (rest.forM fun a => do
      if !p.actions.hasBaked a then
        let _ ← writeAction p a) w ⟨⟩ w')
    (hw : IsFiled p w) : IsFiled p w' := by
  induction rest generalizing passed w with
  | nil => rwa [runs_forM_nil.mp h]
  | cons a rest ih =>
    obtain ⟨v, hv, hrest⟩ := runs_forM_cons.mp h
    have hnext : p.actions.actions = (passed ++ [a]) ++ rest := by simp [hsplit]
    cases hbaked : p.actions.hasBaked a with
    | true =>
      simp only [hbaked, Bool.not_true, Bool.false_eq_true, if_false, runs_pure] at hv
      obtain ⟨-, rfl⟩ := hv
      refine ih hnext (List.forall_mem_append.mpr ⟨hpassed, ?_⟩) hrest hw
      simp [hbaked]
    | false =>
      simp only [hbaked, Bool.not_false, if_true, runs_bind, runs_pure] at hv
      obtain ⟨r, _, hwrite, -, rfl⟩ := hv
      obtain ⟨-, htour⟩ := visits_writeAction a hwrite
      refine ih hnext (List.forall_mem_append.mpr ⟨fun b hb hb' => ?_, ?_⟩) hrest ?_
      · exact htour.marks_subset (hpassed b hb hb')
      · have hmark : p.uuid a ∈ v.context.exported := htour.mem_marks List.mem_cons_self
        simpa [hbaked] using hmark
      · by_cases hmarked : p.uuid a ∈ w.context.exported
        · obtain ⟨-, ⟨-, rfl⟩ | ⟨hfresh, -⟩⟩ := runs_once.mp hwrite
          · exact hw
          · exact absurd hmarked hfresh
        · exact keeps_writeAction (get?_of_unmarked hsplit hpassed hbaked hmarked) hwrite hw

theorem keeps_run (scenes : List Scene) : Keeps (IsFiled p) (run p scenes) := by
  refine stepwise_filed.whole (fun o ho => keeps_writeObjectBody (List.mem_of_find?_eq_some ho))
    ?_ scenes
  exact fun w _ w' h => filed_of_actions (List.nil_append _).symm (by simp) h

end Run

end Walk

end Export

end SceneExport
