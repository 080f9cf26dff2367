import Mathlib
import SceneExport.Proofs.Walk.Played

/-!
# Objects that are not to be exported

A scene passes over an object that is not to be exported, among its objects and as its camera. A
parent is followed whatever it says of itself. So the objects of an export are those that its scenes
show and all ancestors of these, and objects that are not to be exported stay out if and only if
none of them is an ancestor of an object that is shown.
-/
namespace SceneExport

open Manifest (Entry ObjectEntry)

namespace Project

variable {p : Project}

/-- An exported scene has the object, and the object is to be exported. -/
def Staged (p : Project) (o : Object) : Prop :=
  ∃ s ∈ p.scenes, s.doNotExport = false ∧ ∃ name ∈ s.objects ++ s.camera.toList,
    p.exportedObject? name = some o

/-- The second object is the parent of the first. -/
def Parent (p : Project) (o q : Object) : Prop :=
  o.parent.bind p.object? = some q

lemma Staged.visible {o : Object} (h : p.Staged o) : o.doNotExport = false := by
  obtain ⟨_, -, -, _, -, hfound⟩ := h
  simpa using (Option.filter_eq_some_iff.mp hfound).2

lemma object_mem_references_scene {s : Scene} {o : Object} :
    Block.object o ∈ p.references (.scene s) ↔
    ∃ name ∈ s.objects ++ s.camera.toList, p.exportedObject? name = some o := by
  simp only [references, List.mem_map, List.mem_append, List.mem_filterMap, Option.mem_toList,
    Option.bind_eq_some_iff, Block.object.injEq, exists_eq_right, or_and_right, exists_or]

lemma object_mem_references_object {o q : Object} :
    Block.object q ∈ p.references (.object o) ↔ p.Parent o q := by
  have hshown : p.shown? o ≠ some (.object q) := by
    intro h
    have hkind := kind_of_shown? h
    simp [Block.kind] at hkind
  simp only [references, Parent, List.mem_append, Option.mem_toList, Option.map_eq_some_iff,
    Block.object.injEq, exists_eq_right, hshown, reduceCtorEq, and_false, exists_false, or_false]

/-- Only scenes and objects refer to objects. -/
lemma object_mem_references {b : Block} {o : Object} (h : Block.object o ∈ p.references b) :
    (∃ s, b = .scene s) ∨ ∃ q, b = .object q := by
  cases b with
  | scene s => exact .inl ⟨s, rfl⟩
  | object q => exact .inr ⟨q, rfl⟩
  | mesh b | material b | texture b | speaker b | image b | sound b | armature b | action b =>
    simp [references, -Option.map_bind] at h

lemma scene_notMem_references (b : Block) (s : Scene) : Block.scene s ∉ p.references b := by
  cases b with
  | object o =>
    have hshown : p.shown? o ≠ some (.scene s) := by
      intro h
      have hkind := kind_of_shown? h
      simp [Block.kind] at hkind
    simp [references, hshown, -Option.map_bind]
  | scene b | mesh b | material b | texture b | speaker b | image b | sound b | armature b
  | action b =>
    simp [references, -Option.map_bind]

lemma Reachable.object? {o : Object} (h : p.Reachable (.object o)) : p.object? o.name = some o := by
  cases h with
  | step _ hc => exact object?_of_mem_references hc

lemma Reachable.scene_iff {s : Scene} :
    p.Reachable (.scene s) ↔ s ∈ p.scenes ∧ s.doNotExport = false := by
  constructor
  · intro h
    cases h with
    | scene _ hs hexport => exact ⟨hs, hexport⟩
    | step _ hc => exact absurd hc (scene_notMem_references _ s)
  · exact fun h => .scene s h.1 h.2

/-- An export reaches the objects that its scenes show and their ancestors. -/
theorem reachable_object_iff {o : Object} :
    p.Reachable (.object o) ↔ ∃ s, p.Staged s ∧ Relation.ReflTransGen p.Parent s o := by
  constructor
  · intro h
    generalize hb : Block.object o = b at h
    induction h generalizing o with
    | scene s _ _ => cases hb
    | action a _ _ => cases hb
    | step hb' hc ih =>
      subst hb
      rcases object_mem_references hc with ⟨s, rfl⟩ | ⟨q, rfl⟩
      · obtain ⟨hs, hexport⟩ := Reachable.scene_iff.mp hb'
        exact ⟨o, ⟨s, hs, hexport, object_mem_references_scene.mp hc⟩, .refl⟩
      · obtain ⟨s, hs, hq⟩ := ih rfl
        exact ⟨s, hs, hq.tail (object_mem_references_object.mp hc)⟩
  · rintro ⟨s, ⟨scene, hscene, hexport, hname⟩, hline⟩
    induction hline with
    | refl => exact .step (.scene scene hscene hexport) (object_mem_references_scene.mpr hname)
    | tail _ hparent ih => exact .step ih (object_mem_references_object.mpr hparent)

/-- Every ancestor of an object that a scene shows is to be exported as well. -/
def AncestorsVisible (p : Project) : Prop :=
  ∀ o, p.Staged o → ∀ a, Relation.TransGen p.Parent o a → a.doNotExport = false

lemma AncestorsVisible.of_reachable (h : p.AncestorsVisible) {o : Object}
    (hreach : p.Reachable (.object o)) : o.doNotExport = false := by
  obtain ⟨s, hs, hline⟩ := reachable_object_iff.mp hreach
  rcases Relation.reflTransGen_iff_eq_or_transGen.mp hline with rfl | hline
  · exact hs.visible
  · exact h s hs o hline

end Project

namespace Manifest

/-- No object that is not to be exported has an entry, and no entry refers to one. -/
structure Hides (m : Manifest) (p : Project) : Prop where
  entries : ∀ e ∈ m.objects, ∀ o, p.object? e.name = some o → o.doNotExport = false
  links : ∀ e ∈ m.contents, ∀ o ∈ p.objects, ⟨some .object, p.uuid o⟩ ∈ e.links →
    o.doNotExport = false

end Manifest

namespace Export

open Project (Block Object)

variable {p : Project} {path : String} {html : Bool} {c c' : Context} {out : Output}

/-- The entry of an object is that of an object that the export reaches. -/
lemma reachable_of_objectEntry (h : Runs (exportScene p path html) c out c') {e : ObjectEntry}
    (he : e ∈ out.manifest.objects) : ∃ o, p.Reachable (.object o) ∧ p.object? e.name = some o := by
  obtain ⟨version, source, t, htour, hout⟩ := tour_exportScene h
  have hmem : Entry.object e ∈ t.manifest.contents := by
    rw [← contents_eq hout]
    exact mem_contents_object.mpr he
  obtain ⟨b, targets, hreach, hf⟩ := exists_founded htour hmem
  cases b with
  | object o =>
    have hname : e.name = o.name := hf.describes.name
    exact ⟨o, hreach, hname ▸ hreach.object?⟩
  | _ => cases hf.describes.kind

/-- An export gives no entry to an object that is not to be exported, if no object that a scene
shows has such an ancestor. Where no two datablocks share an identifier, it leaves out what is not
to be exported, entries and references to them, if and only if this is so. -/
theorem exportScene_hides_iff (h : Runs (exportScene p path html) c out c') :
    (p.AncestorsVisible →
      ∀ e ∈ out.manifest.objects, ∀ o, p.object? e.name = some o → o.doNotExport = false) ∧
    ((∀ a ∈ p.datablocks, ∀ b ∈ p.datablocks, p.identifier a = p.identifier b → a = b) →
      (out.manifest.Hides p ↔ p.AncestorsVisible)) := by
  have hentries : p.AncestorsVisible →
      ∀ e ∈ out.manifest.objects, ∀ o, p.object? e.name = some o → o.doNotExport = false := by
    intro hline e he o ho
    obtain ⟨q, hreach, hq⟩ := reachable_of_objectEntry h he
    obtain rfl : q = o := Option.some.inj (hq.symm.trans ho)
    exact hline.of_reachable hreach
  refine ⟨hentries, fun hdistinct => ?_⟩
  obtain ⟨version, source, t, htour, hout⟩ := tour_exportScene h
  constructor
  · intro hhides o ho a hline
    have hreach : p.Reachable (.object a) :=
      Project.reachable_object_iff.mpr ⟨o, ho, hline.to_reflTransGen⟩
    obtain ⟨e, he, _, hd⟩ := (settled_of_reachable hdistinct htour rfl hreach).entry rfl
    cases e with
    | object e =>
      have he : e ∈ out.manifest.objects := by
        rw [← mem_contents_object, contents_eq hout]
        exact he
      have hname : e.name = a.name := hd.name
      exact hhides.entries e he a (hname ▸ hreach.object?)
    | _ => cases hd.kind
  · intro hline
    refine ⟨hentries hline, fun e he o ho hlink => ?_⟩
    rw [contents_eq hout] at he
    obtain ⟨b, targets, hreach, hf⟩ := exists_founded htour he
    rw [hf.describes.links] at hlink
    obtain ⟨a, ha, hlink⟩ := List.mem_map.mp hlink
    have href := hf.sublist.subset ha
    obtain rfl : a = .object o := by
      refine hdistinct a (Project.mem_datablocks_of_mem_references href) _
        (by simp [Project.datablocks, ho]) ?_
      exact (Manifest.Link.mk.inj hlink).2
    exact hline.of_reachable (.step hreach href)

def cub : Object :=
  ⟨"cub", none, .empty, none, some "den", .replicate 16 0, none, [], false, [], false⟩

def den : Object := ⟨"den", none, .empty, none, none, .replicate 16 0, none, [], false, [], true⟩

/-- A cub in a den that is not to be exported. -/
def burrow : Project where
  filepath := "/burrow.blend"
  exportPathJson := none
  exportPathHtml := none
  scenes := [⟨"wood", none, ["cub", "den"], 1, 2, 24, none, false⟩]
  objects := [cub, den]
  meshes := []
  materials := []
  textures := []
  images := []
  sounds := []
  speakers := []
  armatures := []
  actions := ⟨[]⟩

lemma burrow_distinct : ∀ a ∈ burrow.datablocks, ∀ b ∈ burrow.datablocks,
    burrow.identifier a = burrow.identifier b → a = b := by
  have hnodup : (burrow.datablocks.map burrow.identifier).Nodup := by decide +kernel
  exact fun a ha b hb => List.inj_on_of_nodup_map hnodup ha hb

/-- The den is exported as the parent of the cub. The duet has nothing to hide. -/
theorem burrow_hides :
    (∃ out c', Runs (exportScene burrow "/burrow.json" false) blank out c' ∧
      ¬ out.manifest.Hides burrow) ∧
    ∃ out c', Runs (exportScene duet "/duet.json" false) blank out c' ∧
    out.manifest.Hides duet := by
  constructor
  · obtain ⟨out, c', h⟩ : ∃ out c', Runs (exportScene burrow "/burrow.json" false) blank out c' :=
      exists_runs (by decide +kernel)
    have hstaged : burrow.Staged cub :=
      ⟨_, List.mem_singleton.mpr rfl, rfl, "cub", by decide, rfl⟩
    have hparent : burrow.Parent cub den := rfl
    refine ⟨out, c', h, fun hhides => ?_⟩
    have hvisible :=
      ((exportScene_hides_iff h).2 burrow_distinct).mp hhides cub hstaged den (.single hparent)
    cases hvisible
  · obtain ⟨out, c', h⟩ := duet_runs
    refine ⟨out, c', h, ((exportScene_hides_iff h).2 duet_distinct).mpr fun o _ a hline => ?_⟩
    have hall : ∀ o ∈ duet.objects, o.doNotExport = false := by decide
    obtain ⟨q, -, hparent⟩ := Relation.TransGen.tail'_iff.mp hline
    obtain ⟨_, -, hfound⟩ := Option.bind_eq_some_iff.mp hparent
    exact hall a (Project.mem_of_named? hfound)

end Export

end SceneExport
