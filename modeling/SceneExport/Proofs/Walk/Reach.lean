import Mathlib
import SceneExport.Proofs.Walk.Objects

/-!
# What an export reaches

The entries of an exported manifest are those of the datablocks that can be reached from the
exported scenes and from the actions without a baked form. No datablock is written twice, whatever
the sharing and whatever the cycles of parents.
-/
namespace SceneExport

open Manifest (Entry)

namespace Project

lemma mem_of_named? {β : Type} [Datablock β] {bs : List β} {name : String} {b : β}
    (h : named? bs name = some b) : b ∈ bs :=
  List.mem_of_find?_eq_some h

lemma mem_of_playable? {l : Library Float} {name : String} {a : Action Float}
    (h : l.playable? name = some a) : a ∈ l.actions := by
  rcases Library.get?_of_playable? h with h | h
  · exact List.mem_of_find?_eq_some h
  · exact List.mem_of_find?_eq_some h

lemma mem_of_exportedObject? {p : Project} {name : String} {o : Object}
    (h : p.exportedObject? name = some o) : o ∈ p.objects :=
  mem_of_named? (Option.filter_eq_some_iff.mp h).1

lemma mem_of_shown? {p : Project} {o : Object} {b : Block} (h : p.shown? o = some b) :
    b ∈ p.datablocks := by
  rcases shown?_eq_some h
    with ⟨_, _, -, hfound, rfl⟩ | ⟨_, _, -, hfound, rfl⟩ | ⟨_, _, -, hfound, rfl⟩ <;>
    simp [datablocks, mem_of_named? hfound]

/-- References lead to datablocks of the project. -/
theorem mem_datablocks_of_mem_references {p : Project} {b c : Block} (h : c ∈ p.references b) :
    c ∈ p.datablocks := by
  cases b with
  | scene b =>
    simp only [references, List.mem_map, List.mem_append, List.mem_filterMap, Option.mem_toList,
      Option.bind_eq_some_iff] at h
    obtain ⟨o, ⟨_, -, hfound⟩ | ⟨_, -, hfound⟩, rfl⟩ := h
    · simp [datablocks, mem_of_exportedObject? hfound]
    · simp [datablocks, mem_of_exportedObject? hfound]
  | object b =>
    simp only [references, List.mem_append, Option.mem_toList, Option.map_eq_some_iff, played?,
      Option.bind_eq_some_iff] at h
    obtain (⟨_, ⟨_, -, hfound⟩, rfl⟩ | hfound) | ⟨_, ⟨_, -, hfound⟩, rfl⟩ := h
    · simp [datablocks, mem_of_named? hfound]
    · exact mem_of_shown? hfound
    · simp [datablocks, mem_of_playable? hfound]
  | mesh b | material b =>
    simp only [references, List.mem_map, List.mem_filterMap] at h
    obtain ⟨_, ⟨_, -, hfound⟩, rfl⟩ := h
    simp [datablocks, mem_of_named? hfound]
  | texture b | speaker b =>
    simp only [references, Option.mem_toList, Option.map_eq_some_iff, Option.bind_eq_some_iff] at h
    obtain ⟨_, ⟨_, -, hfound⟩, rfl⟩ := h
    simp [datablocks, mem_of_named? hfound]
  | image b | sound b | armature b | action b => simp [references] at h

/-- The datablocks that belong to an export: the scenes that are to be exported, the actions without
a baked form, and whatever those refer to, directly or through others. -/
inductive Reachable (p : Project) : Block → Prop
  | scene (s : Scene) : s ∈ p.scenes → s.doNotExport = false → Reachable p (.scene s)
  | action (a : Action Float) : a ∈ p.actions.actions → p.actions.hasBaked a = false →
    Reachable p (.action a)
  | step {b c : Block} : Reachable p b → c ∈ p.references b → Reachable p c

lemma Reachable.mem_datablocks {p : Project} {b : Block} (h : p.Reachable b) :
    b ∈ p.datablocks := by
  cases h with
  | scene s hs _ => simp [datablocks, hs]
  | action a ha _ => simp [datablocks, ha]
  | step _ hc => exact mem_datablocks_of_mem_references hc

end Project

namespace Export

open Project (Block Reachable)

variable {p : Project} {path : String} {html : Bool} {c c' : Context} {out : Output}

/-- Where the walk of an export starts. -/
def origins (p : Project) : List Block :=
  Walk.roots p (p.scenes.filter fun s => !s.doNotExport)

lemma mem_origins {b : Block} (h : b ∈ origins p) : p.Reachable b := by
  simp only [origins, Walk.roots, List.mem_append, List.mem_map, List.mem_filter] at h
  rcases h with ⟨s, ⟨hs, hexport⟩, rfl⟩ | ⟨a, ⟨ha, hbaked⟩, rfl⟩
  · exact .scene s hs (by simpa using hexport)
  · exact .action a ha (by simpa using hbaked)

/-- An export is a tour from an empty manifest. Besides what the tour adds, the manifest holds the
binary sections and the messages. -/
theorem tour_exportScene (h : Runs (exportScene p path html) c out c') :
    ∃ version source t, Tour p ⟨[], .empty version source, path⟩ (origins p) (origins p) t ∧
      out.manifest = { t.manifest with
        binaries := out.manifest.binaries
        warnings := out.manifest.warnings
        errors := out.manifest.errors } := by
  unfold exportScene at h
  simp only [runs_bind, runs_modify] at h
  obtain ⟨_, c₀, rfl, h⟩ := h
  split at h
  · simp at h
  · simp only [runs_bind, runs_liftExcept, runs_get, runs_pure, runs_runWalk] at h
    obtain ⟨source, _, ⟨-, rfl⟩, _, _, ⟨rfl, rfl⟩, m, c₁, hwalk, _, _, ⟨rfl, rfl⟩, _, _, -,
        rfl, -⟩ := h
    exact ⟨_, source, _, Walk.tour_run hwalk, rfl⟩

lemma contents_eq {m : Manifest} {t : Record} (h : m = { t.manifest with
    binaries := m.binaries, warnings := m.warnings, errors := m.errors }) :
    m.contents = t.manifest.contents := by
  rw [h]
  rfl

/-- Every entry of an export is that of something that the export reaches. -/
lemma exists_founded {version source : String} {t : Record}
    (htour : Tour p ⟨[], .empty version source, path⟩ (origins p) (origins p) t) {e : Entry}
    (he : e ∈ t.manifest.contents) : ∃ b targets, p.Reachable b ∧ Founded p t b targets e := by
  refine (htour.founded (fun _ hb _ => .step hb) (fun _ => mem_origins) he).resolve_left
    fun hempty => ?_
  simp [Manifest.contents, Manifest.empty] at hempty

/-- Where no two datablocks share an identifier, an export visits whatever it reaches to the end:
marks stand for single datablocks then, and the references of a datablock are visited before its
entry is added. -/
theorem settled_of_reachable {s t : Record}
    (hdistinct : ∀ a ∈ p.datablocks, ∀ b ∈ p.datablocks, p.identifier a = p.identifier b → a = b)
    (htour : Tour p s (origins p) (origins p) t) (hempty : s.marks = []) {b : Block}
    (hb : p.Reachable b) : Settled p t b := by
  have hmarked : ∀ a, p.Reachable a → p.identifier a ∈ t.marks → Settled p t a := by
    intro a ha hm
    rcases htour.settled (fun _ hb _ => .step hb) (fun _ => mem_origins) hm
      with hm | ⟨a', ha', heq, hset⟩
    · simp [hempty] at hm
    · rwa [← hdistinct a' ha'.mem_datablocks a ha.mem_datablocks heq]
  induction hb with
  | scene s hs hexport =>
    have horigin : Block.scene s ∈ origins p := by simp [origins, Walk.roots, hs, hexport]
    exact hmarked _ (.scene s hs hexport) (htour.mem_marks horigin)
  | action a ha hbaked =>
    have horigin : Block.action a ∈ origins p := by simp [origins, Walk.roots, ha, hbaked]
    exact hmarked _ (.action a ha hbaked) (htour.mem_marks horigin)
  | step hb hc ih => exact hmarked _ (.step hb hc) (ih.references _ hc)

/-- An export in which no two datablocks share an identifier writes exactly what it reaches, and
each datablock once. Sounds whose path has no relative form are left out. -/
theorem exportScene_writes_reachable
    (hdistinct : ∀ a ∈ p.datablocks, ∀ b ∈ p.datablocks, p.identifier a = p.identifier b → a = b)
    (h : Runs (exportScene p path html) c out c') :
    (out.manifest.contents.map Entry.uuid).Nodup ∧
      ∀ kind name uuid,
        (∃ e ∈ out.manifest.contents, e.kind = kind ∧ e.name = name ∧ e.uuid = uuid) ↔
          ∃ b, p.Reachable b ∧ p.isUnheard path b = false ∧
            b.kind = kind ∧ b.name = name ∧ p.identifier b = uuid := by
  obtain ⟨version, source, t, htour, hout⟩ := tour_exportScene h
  rw [contents_eq hout]
  constructor
  · exact (htour.unique ⟨by simp [Manifest.contents, Manifest.empty], List.nodup_nil⟩).nodup
  intro kind name uuid
  constructor
  · rintro ⟨e, he, rfl, rfl, rfl⟩
    obtain ⟨b, _, hb, hf⟩ := exists_founded htour he
    have hheard : p.isUnheard path b = false := by
      rw [← hf.heard, htour.path_eq]
    exact ⟨b, hb, hheard, hf.describes.kind.symm, hf.describes.name.symm, hf.describes.uuid.symm⟩
  · rintro ⟨b, hb, hheard, rfl, rfl, rfl⟩
    have hset := settled_of_reachable hdistinct htour rfl hb
    obtain ⟨e, he, _, hd⟩ := hset.entry (by rwa [htour.path_eq])
    exact ⟨e, he, hd.kind, hd.name, hd.uuid⟩

/-- Two speakers with one sound. Their objects are each other's parent, and the sound is beside a
project that is not saved. -/
def duet : Project where
  filepath := ""
  exportPathJson := none
  exportPathHtml := none
  scenes := [⟨"stage", none, ["left", "right"], 1, 2, 24, none, false⟩]
  objects :=
    [⟨"left", none, .speaker, some "first", some "right", .replicate 16 0, none, [],
      false, [], false⟩,
      ⟨"right", none, .speaker, some "second", some "left", .replicate 16 0, none, [],
        false, [], false⟩]
  meshes := []
  materials := []
  textures := []
  images := []
  sounds := [⟨"tune", none, "//tune.ogg", none⟩]
  speakers :=
    [⟨"first", none, some "tune", 1, 1, false, 10, false⟩,
      ⟨"second", none, some "tune", 1, 1, false, 10, false⟩]
  armatures := []
  actions := ⟨[]⟩

/-- A context before its first export. -/
def blank : Context where
  config := .usual
  version := ⟨6, 3⟩
  media := .empty
  sections := .empty
  exported := []
  messages := .empty
  path := ""
  html := false

lemma duet_distinct : ∀ a ∈ duet.datablocks, ∀ b ∈ duet.datablocks,
    duet.identifier a = duet.identifier b → a = b := by
  have hnodup : (duet.datablocks.map duet.identifier).Nodup := by decide +kernel
  exact fun a ha b hb => List.inj_on_of_nodup_map hnodup ha hb

lemma duet_runs : ∃ out c', Runs (exportScene duet "/duet.json" false) blank out c' :=
  exists_runs (by decide +kernel)

theorem duet_writes_reachable :
    ∃ out c', Runs (exportScene duet "/duet.json" false) blank out c' ∧
      (out.manifest.contents.map Entry.uuid).Nodup ∧
      ∀ kind name uuid,
        (∃ e ∈ out.manifest.contents, e.kind = kind ∧ e.name = name ∧ e.uuid = uuid) ↔
          ∃ b, duet.Reachable b ∧ duet.isUnheard "/duet.json" b = false ∧
            b.kind = kind ∧ b.name = name ∧ duet.identifier b = uuid := by
  obtain ⟨out, c', h⟩ := duet_runs
  exact ⟨out, c', h, exportScene_writes_reachable duet_distinct h⟩

end Export

end SceneExport
