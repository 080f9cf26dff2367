import Mathlib
import SceneExport.Proofs.Basics
import SceneExport.Proofs.Walk.Played
import SceneExport.Proofs.Walk.Readback

/-!
# Vertex animations of shared meshes

A mesh is written once, on the way to the first object that shows it, and with the vertex animations
of this object. Objects that show the mesh later refer to the same entry, and what is baked on them
is not written. The entries of objects stand in the order in which the objects come up, so the
manifest itself tells whose vertex animations a mesh has: those of the first object that refers to
it.
-/
namespace SceneExport

open Manifest (Entry MeshEntry ObjectEntry VertexAnimationEntry)
open Sections (Stored Grown floatBytes readFloats?)

/-- The animations cannot be told apart by their entries and the numbers of their frames. -/
structure Bake.VertexAnimation.Alike (a b : VertexAnimation) : Prop where
  name : a.name = b.name
  start : a.start = b.start
  stop : a.stop = b.stop
  averaging : a.averaging = b.averaging
  averagingInterval : a.averagingInterval = b.averagingInterval
  allowNla : a.allowNla = b.allowNla
  numbers : a.numbers = b.numbers

lemma Manifest.VertexAnimationEntry.Shows.alike_iff {e : VertexAnimationEntry}
    {a b : Bake.VertexAnimation} (ha : e.Shows a) (hnumbers : a.numbers = b.numbers) :
    a.Alike b ↔ e.Shows b := by
  constructor
  · intro h
    exact ⟨ha.name.trans h.name, ha.frameStart.trans h.start, ha.frameEnd.trans h.stop,
      ha.averaging.trans h.averaging, ha.averagingInterval.trans h.averagingInterval,
      ha.allowNla.trans h.allowNla⟩
  · intro hb
    exact ⟨ha.name.symm.trans hb.name, ha.frameStart.symm.trans hb.frameStart,
      ha.frameEnd.symm.trans hb.frameEnd, ha.averaging.symm.trans hb.averaging,
      ha.averagingInterval.symm.trans hb.averagingInterval,
      ha.allowNla.symm.trans hb.allowNla, hnumbers⟩

/-- The first object that refers to a mesh. -/
def Manifest.firstUser? (m : Manifest) (uuid : String) : Option ObjectEntry :=
  m.objects.find? fun e => e.data = some ⟨uuid⟩

namespace Export

open Project (Block Mesh Object Scene)

/-- The mesh has the number of vertices and the vertex animations of the first object that refers to
it. -/
def FirstShown (p : Project) (m : Manifest) (floats : Range → List Float32 → Prop)
    (me : MeshEntry) : Prop :=
  ∃ e o mesh, m.firstUser? me.uuid = some e ∧ p.object? e.name = some o ∧
    p.shown? o = some (.mesh mesh) ∧
    me.Counts mesh.positions.length ∧
    List.Forall₂ (fun a (v : VertexAnimationEntry) => v.Shows a ∧ floats v.frames a.numbers)
      (o.animationsFor mesh) me.vertexAnimations

lemma FirstShown.imp {p : Project} {m m' : Manifest} {floats floats' : Range → List Float32 → Prop}
    {me : MeshEntry} (h : FirstShown p m floats me) (hobjects : m.objects <+: m'.objects)
    (hfloats : ∀ r values, floats r values → floats' r values) : FirstShown p m' floats' me := by
  obtain ⟨e, o, mesh, hfirst, ho, hshown, hcounts, hanimations⟩ := h
  refine ⟨e, o, mesh, ?_, ho, hshown, hcounts,
    hanimations.imp fun a v hv => ⟨hv.1, hfloats _ _ hv.2⟩⟩
  obtain ⟨more, hmore⟩ := hobjects
  rw [Manifest.firstUser?] at hfirst ⊢
  rw [← hmore, List.find?_append, hfirst, Option.some_or]

namespace Tour

variable {p : Project} {s t : Record} {bs ls : List Block}

/-- Only scenes and objects lead to objects. -/
lemma objects_eq (h : Tour p s bs ls t) (hbs : ∀ b ∈ bs, b.kind ≠ .scene ∧ b.kind ≠ .object) :
    t.manifest.objects = s.manifest.objects := by
  have hreferences : ∀ b : Block, b.kind ≠ .scene ∧ b.kind ≠ .object →
      ∀ c ∈ p.references b, c.kind ≠ .scene ∧ c.kind ≠ .object := by
    intro b hb c hc
    cases b with
    | scene b => exact absurd rfl hb.1
    | object b => exact absurd rfl hb.2
    | mesh b | material b =>
      obtain ⟨_, -, rfl⟩ := List.mem_map.mp hc
      simp [Block.kind]
    | texture b | speaker b =>
      obtain ⟨_, -, rfl⟩ := Option.map_eq_some_iff.mp (Option.mem_toList.mp hc)
      simp [Block.kind]
    | image b | sound b | armature b | action b => cases hc
  induction h with
  | done => rfl
  | known _ _ ih => exact ih fun c hc => hbs c (List.mem_cons_of_mem _ hc)
  | unheard _ _ _ ih => exact ih fun c hc => hbs c (List.mem_cons_of_mem _ hc)
  | @fresh _ r _ b _ _ _ e _ _ _ hd _ ihin ih =>
    have hb := hbs b List.mem_cons_self
    have hadd : (r.manifest.add e).objects = r.manifest.objects := by
      have hkind := hd.kind ▸ hb.2
      cases e with
      | object e => exact absurd rfl hkind
      | _ => rfl
    rw [ih fun c hc => hbs c (List.mem_cons_of_mem _ hc), Record.add_manifest, hadd,
      ihin (hreferences b hb)]
    rfl

end Tour

namespace Walk

variable {p : Project} {w w' : Walk}

/-- Every mesh has the vertex animations of the first object that refers to it, and what an object
refers to is marked. -/
structure Led (p : Project) (w : Walk) : Prop where
  whole : w.context.sections.Whole
  marked : ∀ e ∈ w.manifest.objects, ∀ r, e.data = some r → r.uuid ∈ w.context.exported
  meshes :
    ∀ me ∈ w.manifest.meshes,
    FirstShown p w.manifest (Stored floatBytes w.context.sections.float) me

/-- The meshes and objects are the same, and the sections and marks have grown. -/
structure Aside (w w' : Walk) : Prop where
  grown : ∃ fs is, Grown w.context.sections w'.context.sections fs is
  marks : w.context.exported ⊆ w'.context.exported
  objects : w'.manifest.objects = w.manifest.objects
  meshes : w'.manifest.meshes = w.manifest.meshes

lemma Led.aside (hw : Led p w) (h : Aside w w') : Led p w' := by
  obtain ⟨fs, is, hgrown⟩ := h.grown
  refine ⟨hgrown.whole hw.whole, fun e he r hr => ?_, fun me hme => ?_⟩
  · exact h.marks (hw.marked e (h.objects ▸ he) r hr)
  · exact (hw.meshes me (h.meshes ▸ hme)).imp (by rw [h.objects]) fun _ _ => hgrown.float.stored

lemma stepwise_led : Stepwise p fun _ m => Keeps (Led p) m := by
  refine stepwise_keeps fun w w' hsections hmarks hunmoved hw => ?_
  exact hw.aside ⟨⟨[], [], hsections ▸ .refl _⟩, hmarks, hunmoved.objects, hunmoved.meshes⟩

lemma aside_writeAction {a : Action Float} {r : Manifest.Ref} (h : Runs (writeAction p a) w r w')
    (hwhole : w.context.sections.Whole) : Aside w w' := by
  obtain ⟨-, ⟨-, rfl⟩ | ⟨-, h⟩⟩ := runs_once.mp h
  · exact ⟨⟨[], [], .refl _⟩, List.Subset.refl _, rfl, rfl⟩
  simp only [runs_bind, runs_get, runs_changeContext, runs_changeManifest] at h
  obtain ⟨_, v, ⟨rfl, rfl⟩, _, u, rfl, rfl⟩ := h
  obtain ⟨fs, hgrown, -⟩ := encodeAction_holds a (p.uuid a) hwhole w.context.messages
  exact ⟨⟨fs, [], hgrown⟩, List.subset_cons_self _ _, rfl, rfl⟩

lemma aside_writePlayed {o : Object} {name : String} {r : Option Manifest.Ref}
    (h : Runs (writePlayed p o name) w r w') (hwhole : w.context.sections.Whole) : Aside w w' := by
  unfold writePlayed at h
  cases hfound : p.actions.playable? name with
  | none =>
    simp only [hfound, warn, runs_bind, runs_changeContext, runs_pure] at h
    obtain ⟨_, v, rfl, rfl, rfl⟩ := h
    exact ⟨⟨[], [], .refl _⟩, List.Subset.refl _, rfl, rfl⟩
  | some action =>
    simp only [hfound, runs_map] at h
    obtain ⟨r, hr, rfl⟩ := h
    exact aside_writeAction hr hwhole

/-- What an object shows leaves the meshes alone, or it is a mesh that was not marked. -/
lemma writeData_cases {o : Object} {data : Option Manifest.Ref} (h : Runs (writeData p o) w data w')
    (hwhole : w.context.sections.Whole) :
    (∃ fs is, Grown w.context.sections w'.context.sections fs is) ∧
      (w'.manifest.meshes = w.manifest.meshes ∨ ∃ mesh me, p.shown? o = some (.mesh mesh) ∧
        p.uuid mesh ∉ w.context.exported ∧ MeshAdded p mesh o w w' me) := by
  have hsteps := stepwise_still (p := p)
  have hstill {β : Type} {m : WalkM β} {b : β} (hm : Still m) (hrun : Runs m w b w') :
      (∃ fs is, Grown w.context.sections w'.context.sections fs is) ∧
        w'.manifest.meshes = w.manifest.meshes := by
    obtain ⟨hsections, hentries⟩ := Prod.mk.inj (hm.runs hrun)
    exact ⟨⟨[], [], hsections ▸ .refl _⟩, (Prod.mk.inj hentries).1⟩
  unfold writeData at h
  cases hdata : o.data with
  | none =>
    simp only [hdata] at h
    exact (hstill (still_pure _) h).imp_right .inl
  | some name =>
    cases hkind : o.kind with
    | mesh =>
      simp only [hdata, hkind, runs_bind, runs_need, runs_map] at h
      obtain ⟨mesh, _, ⟨hmesh, rfl⟩, r, hrun, rfl⟩ := h
      obtain rfl | ⟨hfresh, me, hadded⟩ := runs_writeMesh hrun hwhole
      · exact ⟨⟨[], [], .refl _⟩, .inl rfl⟩
      · refine ⟨⟨_, _, hadded.grown⟩, .inr ⟨mesh, me, ?_, hfresh, hadded⟩⟩
        simp [Project.shown?, hkind, hdata, hmesh]
    | armature =>
      simp only [hdata, hkind] at h
      exact (hstill (hsteps.found fun b _ => hsteps.map _ (hsteps.armature b)) h).imp_right .inl
    | speaker =>
      simp only [hdata, hkind] at h
      exact (hstill (hsteps.found fun b _ => hsteps.map _ (still_writeSpeaker b)) h).imp_right .inl
    | empty | camera | lamp =>
      simp only [hdata, hkind] at h
      exact (hstill (still_pure _) h).imp_right .inl

/-- A mesh that is new came up with this object, since no object before refers to it. -/
theorem keeps_led_writeObjectBody {o : Object} (ho : p.object? o.name = some o) :
    Keeps (Led p) (writeObjectBody p o) := by
  intro w _ w' h hw
  obtain ⟨data, v, played, u, hdata, hplayed, rfl⟩ := runs_writeObjectBody_steps h
  obtain ⟨⟨fs, is, hgrown⟩, hmeshes⟩ := writeData_cases hdata hw.whole
  obtain ⟨rfl, htour⟩ := runs_writeData hdata
  have hobjects : v.manifest.objects = w.manifest.objects := by
    refine htour.objects_eq fun b hb => ?_
    rcases Project.kind_of_shown? (Option.mem_toList.mp hb)
      with hkind | hkind | hkind <;> simp [hkind]
  have haside : Aside v u := by
    obtain ⟨-, -, rfl⟩ | ⟨name, -, hrun⟩ := hplayed
    · exact ⟨⟨[], [], .refl _⟩, List.Subset.refl _, rfl, rfl⟩
    · exact aside_writePlayed hrun (hgrown.whole hw.whole)
  obtain ⟨fs', is', hgrown'⟩ := haside.grown
  generalize he : objectEntry p o ((p.shown? o).map fun b => ⟨p.identifier b⟩) played = e
  have hname : e.name = o.name := he ▸ rfl
  have hentry : e.data = (p.shown? o).map fun b => ⟨p.identifier b⟩ := he ▸ rfl
  have hentries : u.manifest.objects ++ [e] = w.manifest.objects ++ [e] := by
    rw [haside.objects, hobjects]
  have hmarks : w.context.exported ⊆ u.context.exported :=
    List.Subset.trans htour.marks_subset haside.marks
  have hold : ∀ me ∈ w.manifest.meshes, FirstShown p
      { u.manifest with objects := u.manifest.objects ++ [e] }
          (Stored floatBytes u.context.sections.float) me := by
    refine fun me hme => (hw.meshes me hme).imp ?_ fun _ _ hr => hgrown'.float.stored
      (hgrown.float.stored hr)
    exact ⟨[e], hentries.symm⟩
  refine ⟨hgrown'.whole (hgrown.whole hw.whole), fun e' he' r hr => ?_, fun me hme => ?_⟩
  · rw [hentries, List.mem_append, List.mem_singleton] at he'
    rcases he' with he' | rfl
    · exact hmarks (hw.marked e' he' r hr)
    · rw [hentry] at hr
      obtain ⟨b, hb, rfl⟩ := Option.map_eq_some_iff.mp hr
      exact haside.marks (htour.mem_marks (Option.mem_toList.mpr hb))
  · have hme : me ∈ v.manifest.meshes := haside.meshes ▸ hme
    rcases hmeshes with hsame | ⟨mesh, new, hshown, hfresh, hadded⟩
    · exact hold me (hsame ▸ hme)
    rw [hadded.meshes, List.mem_append, List.mem_singleton] at hme
    rcases hme with hme | rfl
    · exact hold me hme
    -- The entry of this object is the first that refers to the new mesh.
    have hdata : e.data = some ⟨me.uuid⟩ := by
      rw [hentry, hshown, hadded.uuid]
      rfl
    have hnone : w.manifest.objects.find? (fun e => e.data = some ⟨me.uuid⟩) = none := by
      refine List.find?_eq_none.mpr fun e' he' heq => hfresh ?_
      rw [← hadded.uuid]
      exact hw.marked e' he' _ (of_decide_eq_true heq)
    refine ⟨e, o, mesh, ?_, hname ▸ ho, hshown, hadded.counts,
      hadded.animations.imp fun a x hx => ⟨hx.1, ?_⟩⟩
    · rw [Manifest.firstUser?]
      simp only [hentries, List.find?_append, hnone, Option.none_or, List.find?_singleton, hdata,
        decide_true, if_true]
    · exact hgrown'.float.stored hx.2

theorem keeps_led_run (scenes : List Scene) : Keeps (Led p) (run p scenes) := by
  refine stepwise_led.whole (fun o ho => keeps_led_writeObjectBody ho)
    (stepwise_led.actions fun a => ?_) scenes
  exact fun w r w' h hw => hw.aside (aside_writeAction h hw.whole)

end Walk

/-- The numbers at a range of the float section. Without a file there are none. -/
def Output.floats? (out : Output) (r : Range) : Option (List Float32) :=
  match out.binary, out.manifest.binaries with
  | some blob, table :: _ => readFloats? blob table r
  | _, _ => if r.length = 0 then some [] else none

/-- The mesh that an object refers to has the vertex animation, with the numbers of all its
frames. -/
def Output.HasAnimation (out : Output) (e : ObjectEntry) (a : Bake.VertexAnimation) : Prop :=
  ∃ me ∈ out.manifest.meshes, e.data = some ⟨me.uuid⟩ ∧
    ∃ v ∈ me.vertexAnimations, v.Shows a ∧ out.floats? v.frames = some a.numbers

section Exports

variable {p : Project} {path : String} {html : Bool} {c c' : Context} {out : Output}

lemma floats?_of_stored {s : Sections} {v : Version} {file : Option String}
    (htable : out.manifest.binaries = [s.table file])
    (hbinary : out.binary = if s.isEmpty then none else some (s.blob v))
    (hsize : ∀ blob, out.binary = some blob → blob.length < 0x10000000000000000) {r : Range}
    {values : List Float32} (h : Stored floatBytes s.float r values) :
    out.floats? r = some values := by
  unfold Output.floats?
  cases hempty : s.isEmpty with
  | false =>
    have hblob : out.binary = some (s.blob v) := by simpa [hempty] using hbinary
    rw [hblob, htable]
    exact Sections.readFloats?_blob v file h (hsize _ hblob)
  | true =>
    have hnone : out.binary = none := by simpa [hempty] using hbinary
    have hlength := h.le_length Sections.length_floatBytes
    have hfloat : s.float.length = 0 := by
      have hzero : s.size = 0 := of_decide_eq_true hempty
      unfold Sections.size at hzero
      omega
    obtain ⟨_, _, -, -, hvalues⟩ := h
    have hrange : r.length = 0 := by omega
    rw [hnone, if_pos hrange, List.length_eq_zero_iff.mp (hvalues.trans hrange)]

/-- The meshes of an export and the sections that its file holds. -/
lemma stored_exportScene (h : Runs (exportScene p path html) c out c') :
    ∃ (s : Sections) (v : Version) (file : Option String), out.manifest.binaries = [s.table file] ∧
      (out.binary = if s.isEmpty then none else some (s.blob v)) ∧
      ∀ me ∈ out.manifest.meshes, FirstShown p out.manifest (Stored floatBytes s.float) me := by
  obtain ⟨-, source, m, -, hwalk, -, rfl⟩ := runs_exportScene.mp h
  have hstart : Walk.Led p ⟨c.begin path html, .empty c.config.formatVersion source⟩ :=
    ⟨⟨Nat.dvd_zero 4, Nat.dvd_zero 4⟩, by simp [Manifest.empty], by simp [Manifest.empty]⟩
  have hled := Walk.keeps_led_run _ hwalk hstart
  exact ⟨_, _, _, rfl, rfl, fun me hme => (hled.meshes me hme).imp List.prefix_rfl fun _ _ => id⟩

/-- Every mesh of an export has the vertex animations of the first object that refers to it. -/
theorem firstShown_exportScene (h : Runs (exportScene p path html) c out c')
    (hsize : ∀ blob, out.binary = some blob → blob.length < 0x10000000000000000) {me : MeshEntry}
    (hme : me ∈ out.manifest.meshes) :
    FirstShown p out.manifest (fun r values => out.floats? r = some values) me := by
  obtain ⟨s, v, file, htable, hbinary, hmeshes⟩ := stored_exportScene h
  exact (hmeshes me hme).imp List.prefix_rfl fun _ _ hstored =>
    floats?_of_stored htable hbinary hsize hstored

lemma mesh_link_iff {e : ObjectEntry} {uuid : String} :
    ⟨some .mesh, uuid⟩ ∈ (Entry.object e).links ↔
    Manifest.dataKind? e.kind = some .mesh ∧ e.data = some ⟨uuid⟩ := by
  simp only [Entry.links, List.mem_append, List.mem_map, Option.mem_toList, Manifest.Link.mk.injEq,
    Option.some.injEq, reduceCtorEq, false_and, and_false, exists_false, false_or, or_false]
  constructor
  · rintro ⟨r, hr, hkind, rfl⟩
    exact ⟨hkind, hr⟩
  · rintro ⟨hkind, hr⟩
    exact ⟨_, hr, hkind, rfl⟩

/-- An object refers to the entry of the mesh that it shows. -/
lemma exists_shown_entry (hdigest : p.DigestsApart) (h : Runs (exportScene p path html) c out c')
    {e : ObjectEntry} (he : e ∈ out.manifest.objects) {o : Object} (ho : p.object? e.name = some o)
    {mesh : Mesh} (hshown : p.shown? o = some (.mesh mesh)) :
    e.data = some ⟨p.uuid mesh⟩ ∧ ∃ me ∈ out.manifest.meshes, me.uuid = p.uuid mesh := by
  obtain ⟨o', ho', hlinks⟩ := exists_links_of_mem h he
  obtain rfl : o = o' := Option.some.inj (ho.symm.trans ho')
  have hlink : ⟨some .mesh, p.uuid mesh⟩ ∈ (Entry.object e).links := by
    rw [hlinks]
    exact List.mem_map.mpr ⟨.mesh mesh, by simp [Project.references, hshown], rfl⟩
  obtain ⟨version, source, t, htour, hout⟩ := tour_exportScene h
  have hmem : Entry.object e ∈ t.manifest.contents := by
    rw [← contents_eq hout]
    exact mem_contents_object.mpr he
  obtain ⟨a, ha, hkind, huuid⟩ := linked_of_ne_sound hdigest htour rfl rfl hmem hlink (by simp)
  refine ⟨(mesh_link_iff.mp hlink).2, ?_⟩
  rw [← contents_eq hout] at ha
  cases a with
  | mesh me => exact ⟨me, by simpa [Manifest.contents] using ha, huuid⟩
  | _ => cases hkind

/-- The first object that refers to the mesh of an object has a vertex animation that looks the
same. -/
def SharedBy (p : Project) (m : Manifest) (mesh : Mesh) (a : Bake.VertexAnimation) : Prop :=
  ∃ first o shown, m.firstUser? (p.uuid mesh) = some first ∧ p.object? first.name = some o ∧
    p.shown? o = some (.mesh shown) ∧ ∃ b ∈ o.animationsFor shown, b.Alike a

/-- A vertex animation that is to be exported with an object is there if and only if the first
object with the same mesh has it. -/
theorem hasAnimation_iff (hdigest : p.DigestsApart) (h : Runs (exportScene p path html) c out c')
    (hsize : ∀ blob, out.binary = some blob → blob.length < 0x10000000000000000)
    {e : ObjectEntry} (he : e ∈ out.manifest.objects) {o : Object} (ho : p.object? e.name = some o)
    {mesh : Mesh} (hshown : p.shown? o = some (.mesh mesh)) (a : Bake.VertexAnimation) :
    out.HasAnimation e a ↔ SharedBy p out.manifest mesh a := by
  obtain ⟨hdata, me, hme, huuid⟩ := exists_shown_entry hdigest h he ho hshown
  constructor
  · rintro ⟨me, hme, hdata', v, hv, hshows, hfloats⟩
    obtain ⟨first, o₁, shown, hfirst, ho₁, hshown₁, -, hanimations⟩ :=
      firstShown_exportScene h hsize hme
    obtain ⟨b, hb, hshows', hfloats'⟩ := exists_of_mem_right hanimations hv
    have huuid : me.uuid = p.uuid mesh :=
      congrArg Manifest.Ref.uuid (Option.some.inj (hdata'.symm.trans hdata))
    have hnumbers : b.numbers = a.numbers := Option.some.inj (hfloats'.symm.trans hfloats)
    exact ⟨first, o₁, shown, huuid ▸ hfirst, ho₁, hshown₁, b, hb,
      (hshows'.alike_iff hnumbers).mpr hshows⟩
  · rintro ⟨first, o₁, shown, hfirst, ho₁, hshown₁, b, hb, halike⟩
    obtain ⟨first', o', shown', hfirst', ho', hshown', -, hanimations⟩ :=
      firstShown_exportScene h hsize hme
    rw [huuid, hfirst] at hfirst'
    cases hfirst'
    rw [ho₁] at ho'
    cases ho'
    rw [hshown₁] at hshown'
    cases hshown'
    obtain ⟨v, hv, hshows, hfloats⟩ := exists_of_mem_right hanimations.flip hb
    refine ⟨me, hme, huuid ▸ hdata, v, hv, (hshows.alike_iff halike.numbers).mp halike, ?_⟩
    rw [← halike.numbers]
    exact hfloats

/-- The vertex animations of all exported objects are in their meshes if and only if no object has
one that the first object with the same mesh does not have. -/
theorem exportScene_animations_iff (hdigest : p.DigestsApart)
    (h : Runs (exportScene p path html) c out c')
    (hsize : ∀ blob, out.binary = some blob → blob.length < 0x10000000000000000) :
    (∀ e ∈ out.manifest.objects, ∀ o mesh, p.object? e.name = some o →
      p.shown? o = some (.mesh mesh) → ∀ a ∈ o.animationsFor mesh, out.HasAnimation e a) ↔
    ∀ e ∈ out.manifest.objects, ∀ o mesh, p.object? e.name = some o →
    p.shown? o = some (.mesh mesh) →
      ∀ a ∈ o.animationsFor mesh, SharedBy p out.manifest mesh a := by
  refine forall₂_congr fun e he => forall₂_congr fun o mesh => forall₂_congr fun ho hshown => ?_
  exact forall₂_congr fun a _ => hasAnimation_iff hdigest h hsize he ho hshown a

end Exports

def cloth : Mesh :=
  ⟨"cloth", none, [.replicate 3 0, .replicate 3 1], [.replicate 3 0, .replicate 3 0], [0, 1], []⟩

def sail : Object :=
  ⟨"sail", none, .mesh, some "cloth", none, .replicate 16 0, none, [], true,
    [⟨"flutter", 1, 2, false, 5, false, [⟨1, [.replicate 6 0, .replicate 6 1]⟩]⟩], false⟩

/-- An awning of the same cloth that does not move. -/
def awning : Object :=
  ⟨"awning", none, .mesh, some "cloth", none, .replicate 16 0, none, [], false, [], false⟩

/-- A boat with the objects in some order. -/
def boat (names : List String) : Project where
  filepath := "/boat.blend"
  exportPathJson := none
  exportPathHtml := none
  scenes := [⟨"deck", none, names, 1, 2, 24, none, false⟩]
  objects := [awning, sail]
  meshes := [cloth]
  materials := []
  textures := []
  images := []
  sounds := []
  speakers := []
  armatures := []
  actions := ⟨[]⟩

lemma boat_digestsApart (names : List String) : (boat names).DigestsApart := by
  have hnodup : ((boat []).datablocks.map (boat []).identifier).Nodup := by decide +kernel
  have hnodup : ((boat names).datablocks.map (boat names).identifier).Nodup := hnodup
  intro a ha b hb heq
  rw [← Project.identifier_eq_digest, ← Project.identifier_eq_digest] at heq
  rw [List.inj_on_of_nodup_map hnodup ha hb heq]

/-- The objects of a boat in the order of their entries, and the first one with the cloth. -/
lemma boat_runs {names : List String}
    (hnames : names = ["sail", "awning"] ∨ names = ["awning", "sail"]) :
    ∃ out c', Runs (exportScene (boat names) "/boat.json" false) blank out c' ∧
      (∀ blob, out.binary = some blob → blob.length < 0x10000000000000000) ∧
      out.manifest.objects.map ObjectEntry.name = names ∧
      (out.manifest.firstUser? ((boat names).uuid cloth)).map ObjectEntry.name = names.head? := by
  obtain ⟨out, c', h⟩ : ∃ out c',
      Runs (exportScene (boat names) "/boat.json" false) blank out c' := by
    rcases hnames with rfl | rfl <;> exact exists_runs (by decide +kernel)
  have hout : (after (exportScene (boat names) "/boat.json" false) blank).1.toOption.map (fun out =>
      (out.binary.all fun blob => blob.length < 0x10000000000000000,
        out.manifest.objects.map ObjectEntry.name,
        (out.manifest.firstUser? ((boat names).uuid cloth)).map ObjectEntry.name)) =
      some (true, names, names.head?) := by
    rcases hnames with rfl | rfl <;> decide +kernel
  rw [h] at hout
  obtain ⟨hsize, hobjects, hfirst⟩ :
      (out.binary.all fun blob => blob.length < 0x10000000000000000) = true ∧
      out.manifest.objects.map ObjectEntry.name = names ∧
      (out.manifest.firstUser? ((boat names).uuid cloth)).map ObjectEntry.name = names.head? := by
    simpa [Except.toOption] using hout
  refine ⟨out, c', h, fun blob hblob => ?_, hobjects, hfirst⟩
  rw [hblob] at hsize
  exact of_decide_eq_true hsize

/-- The sail flutters if it comes before the awning, and does not if it comes after. -/
theorem boat_animations :
    (∃ out c', Runs (exportScene (boat ["sail", "awning"]) "/boat.json" false) blank out c' ∧
      ∀ e ∈ out.manifest.objects, ∀ o mesh, (boat ["sail", "awning"]).object? e.name = some o →
        (boat ["sail", "awning"]).shown? o = some (.mesh mesh) →
        ∀ a ∈ o.animationsFor mesh, out.HasAnimation e a) ∧
    ∃ out c', Runs (exportScene (boat ["awning", "sail"]) "/boat.json" false) blank out c' ∧
      ¬ ∀ e ∈ out.manifest.objects, ∀ o mesh, (boat ["awning", "sail"]).object? e.name = some o →
        (boat ["awning", "sail"]).shown? o = some (.mesh mesh) →
        ∀ a ∈ o.animationsFor mesh, out.HasAnimation e a := by
  constructor
  · obtain ⟨out, c', h, hsize, hobjects, hfirst⟩ := boat_runs (.inl rfl)
    refine ⟨out, c', h, (exportScene_animations_iff (boat_digestsApart _) h hsize).mpr ?_⟩
    intro e _ o mesh ho hshown a ha
    have hmem : o ∈ [awning, sail] := Project.mem_of_named? ho
    rcases List.mem_pair.mp hmem with rfl | rfl
    · cases ha
    · obtain rfl : cloth = mesh := by
        have hcloth : (boat ["sail", "awning"]).shown? sail = some (.mesh cloth) := rfl
        rw [hcloth] at hshown
        cases hshown
        rfl
      obtain ⟨first, hfirst, hname⟩ := Option.map_eq_some_iff.mp hfirst
      exact ⟨first, sail, cloth, hfirst,
        by rw [hname]; rfl, rfl, a, ha, rfl, rfl, rfl, rfl, rfl, rfl, rfl⟩
  · obtain ⟨out, c', h, hsize, hobjects, hfirst⟩ := boat_runs (.inr rfl)
    refine ⟨out, c', h, fun hall => ?_⟩
    obtain ⟨e, he, hname⟩ : ∃ e ∈ out.manifest.objects, e.name = "sail" :=
      List.mem_map.mp (hobjects ▸ by decide)
    have hshared :=
      (exportScene_animations_iff (boat_digestsApart _) h hsize).mp hall e he sail cloth
      (by rw [hname]; rfl) rfl
    obtain ⟨a, ha⟩ : ∃ a, a ∈ sail.animationsFor cloth := ⟨_, List.mem_cons_self⟩
    obtain ⟨first, o, shown, hfirst', ho, -, b, hb, -⟩ := hshared a ha
    rw [hfirst', Option.map_some] at hfirst
    have hfirst : first.name = "awning" := Option.some.inj hfirst
    obtain rfl : awning = o := by
      have hawning : (boat ["awning", "sail"]).object? "awning" = some awning := rfl
      rw [hfirst, hawning] at ho
      exact Option.some.inj ho
    cases hb

end Export

end SceneExport
