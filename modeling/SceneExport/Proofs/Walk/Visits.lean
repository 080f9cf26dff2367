import Mathlib
import SceneExport.Proofs.Walk.Run
import SceneExport.Proofs.Walk.Tour

/-!
# Walks are tours: datablocks without parents

Each step of a walk that writes a datablock is shown to be a visit of a tour. Warnings, errors and
the binary sections are no part of what tours record, so steps that only gather those are quiet. The
one step that recovers from a failure is that of a speaker: its sound is then visited without being
written.
-/
namespace SceneExport.Export.Walk

open Project (Mesh Material Texture Image Sound Speaker Armature Object Block)
open Manifest (Ref Entry)

/-- The part of the state that tours are about. -/
def record (w : Walk) : Record :=
  ⟨w.context.exported, w.manifest, w.context.path⟩

@[simp] theorem record_marked (w : Walk) (uuid : String) :
    (w.marked uuid).record = w.record.mark uuid := rfl

/-- The step visits one datablock and hands back the reference to it. -/
def Visits (p : Project) (b : Block) (m : WalkM Ref) : Prop :=
  ∀ ⦃w r w'⦄, Runs m w r w' → r = ⟨p.identifier b⟩ ∧ Tour p w.record [b] [b] w'.record

/-- The step visits what a datablock refers to and then adds its entry. -/
def Writes (p : Project) (b : Block) (m : WalkM Unit) : Prop :=
  ∀ ⦃w w'⦄, Runs m w () w' → p.isUnheard w.record.path b = false ∧
    ∃ targets e r, Tour p w.record (p.references b) targets r ∧ p.Describes b targets e ∧
      w'.record = r.add e

/-- The step changes neither marks nor manifest. -/
def Quiet {β : Type} (m : WalkM β) : Prop :=
  ∀ ⦃w b w'⦄, Runs m w b w' → w'.record = w.record

variable {p : Project} {w w' : Walk}

theorem Writes.visits {b : Block} {m : WalkM Unit} (h : Writes p b m) :
    Visits p b (once (p.identifier b) m) := by
  intro w r w' hr
  obtain ⟨rfl, ⟨hm, rfl⟩ | ⟨hm, hw⟩⟩ := runs_once.mp hr
  · exact ⟨rfl, .known hm (.done _)⟩
  · obtain ⟨hu, targets, e, r, hin, hd, heq⟩ := h hw
    refine ⟨rfl, .fresh hm hu hin hd ?_⟩
    rw [heq]
    exact .done _

lemma quiet_pure {β : Type} (b : β) : Quiet (pure b) := by
  intro w c w' h
  rw [(runs_pure.mp h).2]

lemma quiet_warn (text : String) : Quiet (warn text) := by
  intro w b w' h
  simp only [warn, runs_changeContext] at h
  rw [h]
  rfl

lemma quiet_err (text : String) : Quiet (err text) := by
  intro w b w' h
  simp only [err, runs_changeContext] at h
  rw [h]
  rfl

lemma quiet_push {β : Type} (f : Sections → β × Sections) : Quiet (push f) := by
  intro w b w' h
  rw [(runs_push.mp h).2]
  rfl

lemma quiet_mapM {β γ : Type} {f : β → WalkM γ} (hf : ∀ x, Quiet (f x)) (xs : List β) :
    Quiet (xs.mapM f) := by
  induction xs with
  | nil =>
    intro w b w' h
    simp only [List.mapM_nil, runs_pure] at h
    rw [h.2]
  | cons x xs ih =>
    intro w b w' h
    simp only [List.mapM_cons, runs_bind, runs_pure] at h
    obtain ⟨_, v, hv, _, v', hv', -, rfl⟩ := h
    rw [ih hv', hf x hv]

lemma quiet_writeVertexAnimation (mesh : Mesh) (owner : Object) (a : Bake.VertexAnimation) :
    Quiet (writeVertexAnimation mesh owner a) := by
  intro w b w' h
  unfold writeVertexAnimation at h
  split_ifs at h
  all_goals
    simp only [runs_bind, runs_pure] at h
    obtain ⟨_, v, hv, -, rfl⟩ := h
  · exact quiet_warn _ hv
  · exact quiet_err _ hv
  · exact quiet_push _ hv

/-- Quiet steps before another one, one of two by a condition. -/
lemma runs_after_quiet {β γ : Type} {c : Prop} [Decidable c] {m m' : WalkM β} {f : β → WalkM γ}
    {r : γ} (hm : Quiet m) (hm' : Quiet m') (h : Runs (if c then m >>= f else m' >>= f) w r w') :
    ∃ b v, v.record = w.record ∧ Runs (f b) v r w' := by
  split_ifs at h
  · obtain ⟨b, v, hv, h⟩ := runs_bind.mp h
    exact ⟨b, v, hm hv, h⟩
  · obtain ⟨b, v, hv, h⟩ := runs_bind.mp h
    exact ⟨b, v, hm' hv, h⟩

/-- A warning before a step leaves its record alone. -/
lemma runs_after_warning {β : Type} {c : Prop} [Decidable c] {text : String} {m : WalkM β} {b : β}
    (h : Runs (if c then do warn text; m else m) w b w') :
    ∃ v, v.record = w.record ∧ Runs m v b w' := by
  split_ifs at h
  · obtain ⟨_, v, hv, h⟩ := runs_bind.mp h
    exact ⟨v, quiet_warn _ hv, h⟩
  · exact ⟨w, rfl, h⟩

lemma relativeForm?_eq (path filepath : String) :
    p.relativeForm? path filepath = (resource p path filepath).toOption := by
  unfold Project.relativeForm? resource
  split <;> rfl

lemma runs_mediaPath {filepath usual : String} {packed : Option Bytes} {r : String}
    (h : Runs (mediaPath p filepath packed usual) w r w') :
    w'.record = w.record ∧ (packed = none → p.relativeForm? w.record.path filepath ≠ none) := by
  rw [relativeForm?_eq]
  cases naming_of_runs h with
  | packed content extension => simp [record]
  | found hfound => simp [record, hfound, Except.toOption]

/-- Only the path of an unpacked file can be refused, and nothing has changed then. -/
lemma fails_mediaPath {filepath usual : String} {packed : Option Bytes} {e : Error}
    (h : Fails (mediaPath p filepath packed usual) w e w') :
    w' = w ∧ packed = none ∧ p.relativeForm? w.record.path filepath = none := by
  rw [relativeForm?_eq]
  cases naming_of_fails h with
  | refused hrefused => simp [record, hrefused, Except.toOption]

theorem visits_writeImage (image : Image) : Visits p (.image image) (writeImage p image) := by
  apply Writes.visits
  intro w w' h
  refine ⟨rfl, [], ?_⟩
  split at h
  · simp only [runs_bind, runs_pure, runs_changeManifest] at h
    obtain ⟨_, v, ⟨rfl, rfl⟩, rfl⟩ := h
    exact ⟨.image _, v.record, .done _, ⟨rfl, rfl, rfl, rfl⟩, rfl⟩
  · simp only [runs_bind, runs_tryCatch, runs_changeManifest, not_runs_throw, and_false,
      exists_false, or_false] at h
    obtain ⟨filepath, v, hv, rfl⟩ := h
    refine ⟨.image _, v.record, ?_, ⟨rfl, rfl, rfl, rfl⟩, rfl⟩
    rw [(runs_mediaPath hv).1]
    exact .done _

theorem visits_writeTexture (texture : Texture) :
    Visits p (.texture texture) (writeTexture p texture) := by
  apply Writes.visits
  intro w w' h
  refine ⟨rfl, p.references (.texture texture), ?_⟩
  cases himage : texture.image with
  | none =>
    simp only [himage, runs_bind, runs_pure, runs_changeManifest] at h
    obtain ⟨_, v, ⟨rfl, rfl⟩, rfl⟩ := h
    refine ⟨.texture _, v.record, ?_, ⟨rfl, rfl, rfl, ?_⟩, rfl⟩
    · simpa [Project.references, himage] using .done _
    · simp [Project.references, himage, Entry.links]
  | some name =>
    simp only [himage, runs_bind, runs_need, runs_map, runs_changeManifest] at h
    obtain ⟨image, _, ⟨hfound, rfl⟩, _, v, ⟨r, hv, rfl⟩, rfl⟩ := h
    obtain ⟨rfl, htour⟩ := visits_writeImage image hv
    refine ⟨.texture _, v.record, ?_, ⟨rfl, rfl, rfl, ?_⟩, rfl⟩
    · simpa [Project.references, himage, hfound] using htour
    · simp [Project.references, himage, hfound, Entry.links, Project.link, Block.kind,
        Project.identifier]

/-- Visits to the datablocks that names stand for, one name after the other. -/
lemma tour_mapM {β : Type} {find : String → Option Block} {f : String → WalkM β}
    {out : β → List Ref}
    (hf : ∀ x w b w', Runs (f x) w b w' →
      out b = (find x).toList.map (fun c => ⟨p.identifier c⟩) ∧
        Tour p w.record (find x).toList (find x).toList w'.record)
    (xs : List String) {bs : List β} (h : Runs (xs.mapM f) w bs w') :
    bs.flatMap out = (xs.filterMap find).map (fun c => ⟨p.identifier c⟩) ∧
      Tour p w.record (xs.filterMap find) (xs.filterMap find) w'.record := by
  induction xs generalizing w bs with
  | nil =>
    simp only [List.mapM_nil, runs_pure] at h
    obtain ⟨rfl, rfl⟩ := h
    exact ⟨rfl, .done _⟩
  | cons x xs ih =>
    simp only [List.mapM_cons, runs_bind, runs_pure] at h
    obtain ⟨b, v, hv, bs, v', hv', rfl, rfl⟩ := h
    obtain ⟨hb, htour⟩ := hf x _ _ _ hv
    obtain ⟨hbs, htours⟩ := ih hv'
    have hsplit : (x :: xs).filterMap find = (find x).toList ++ xs.filterMap find := by
      cases hx : find x <;> simp [hx]
    rw [hsplit]
    refine ⟨?_, htour.append htours⟩
    rw [List.flatMap_cons, hb, hbs, List.map_append]

lemma tour_mapM_visits {β : Type} {kind owner : String} {find : String → Option β}
    {mk : β → Block} {visit : β → WalkM Ref} (hvisit : ∀ b, Visits p (mk b) (visit b))
    (xs : List String) {rs : List Ref}
    (h : Runs (xs.mapM fun name => do visit (← need kind owner name (find name))) w rs w') :
    rs = ((xs.filterMap find).map mk).map (fun c => ⟨p.identifier c⟩) ∧
      Tour p w.record ((xs.filterMap find).map mk) ((xs.filterMap find).map mk) w'.record := by
  have hstep : ∀ x w r w', Runs (do visit (← need kind owner x (find x))) w r w' →
      [r] = ((find x).map mk).toList.map (fun c => ⟨p.identifier c⟩) ∧
        Tour p w.record ((find x).map mk).toList ((find x).map mk).toList w'.record := by
    intro x w r w' hr
    simp only [runs_bind, runs_need] at hr
    obtain ⟨b, _, ⟨hb, rfl⟩, hr⟩ := hr
    obtain ⟨rfl, htour⟩ := hvisit b hr
    simpa [hb] using htour
  simpa [List.map_filterMap, Function.comp_def] using tour_mapM hstep xs h

theorem visits_writeMaterial (material : Material) :
    Visits p (.material material) (writeMaterial p material) := by
  apply Writes.visits
  intro w w' h
  obtain ⟨v, hv, h⟩ := runs_after_warning h
  obtain ⟨textures, v', hrun, h⟩ := runs_bind.mp h
  obtain ⟨rfl, htour⟩ := tour_mapM_visits visits_writeTexture _ hrun
  rw [runs_changeManifest] at h
  refine ⟨rfl, p.references (.material material), .material _, v'.record, ?_, ⟨rfl, rfl, rfl, ?_⟩,
    congrArg record h⟩
  · rw [← hv]
    exact htour
  · simp [Entry.links, Project.references, Project.link, Block.kind]

theorem visits_writeMesh (mesh : Mesh) (owner : Object) :
    Visits p (.mesh mesh) (writeMesh p mesh owner) := by
  apply Writes.visits
  intro w w' h
  cases hflaw : meshFlaw? mesh with
  | some reason => simp [hflaw] at h
  | none =>
    simp only [hflaw] at h
    obtain ⟨materials, v, hrun, h⟩ := runs_bind.mp h
    obtain ⟨rfl, htour⟩ := tour_mapM_visits visits_writeMaterial _ hrun
    obtain ⟨position, v₁, h₁, h⟩ := runs_bind.mp h
    obtain ⟨normal, v₂, h₂, h⟩ := runs_bind.mp h
    obtain ⟨indices, v₃, h₃, h⟩ := runs_bind.mp h
    obtain ⟨animations, v₄, h₄, h⟩ :=
      runs_after_quiet (quiet_mapM (quiet_writeVertexAnimation mesh owner) _) (quiet_pure []) h
    rw [runs_changeManifest] at h
    have hquiet : v₄.record = v.record := by
      rw [h₄, quiet_push _ h₃, quiet_push _ h₂, quiet_push _ h₁]
    refine ⟨rfl, p.references (.mesh mesh), .mesh _, v₄.record, ?_, ⟨rfl, rfl, rfl, ?_⟩,
      congrArg record h⟩
    · rw [hquiet]
      exact htour
    · simp [Entry.links, Project.references, Project.link, Block.kind]

theorem visits_writeSound (sound : Sound) : Visits p (.sound sound) (writeSound p sound) := by
  apply Writes.visits
  intro w w' h
  obtain ⟨filepath, v, hv, h⟩ := runs_bind.mp h
  rw [runs_changeManifest] at h
  obtain ⟨hrecord, hform⟩ := runs_mediaPath hv
  refine ⟨?_, [], .sound _, v.record, ?_, ⟨rfl, rfl, rfl, rfl⟩, congrArg record h⟩
  · cases hpacked : sound.packed with
    | some content => simp [Project.isUnheard, hpacked]
    | none => simpa [Project.isUnheard, hpacked, Option.isSome_iff_ne_none] using hform hpacked
  · rw [hrecord]
    exact .done _

/-- A sound that cannot be written is left out, and stays marked. -/
lemma fails_writeSound {sound : Sound} {e : Error} (h : Fails (writeSound p sound) w e w') :
    Tour p w.record [.sound sound] [] w'.record := by
  obtain ⟨hm, h⟩ := fails_once.mp h
  simp only [fails_bind, not_fails_changeManifest, and_false, exists_false, or_false] at h
  obtain ⟨rfl, hpacked, hform⟩ := fails_mediaPath h
  refine .unheard hm ?_ (.done _)
  simpa [Project.isUnheard, hpacked] using hform

theorem visits_writeSpeaker (speaker : Speaker) :
    Visits p (.speaker speaker) (writeSpeaker p speaker) := by
  apply Writes.visits
  intro w w' h
  cases hsound : speaker.sound with
  | none =>
    simp only [hsound, runs_bind, runs_pure, runs_changeManifest] at h
    obtain ⟨_, v, ⟨rfl, rfl⟩, rfl⟩ := h
    refine ⟨rfl, [], .speaker _, v.record, ?_, ⟨rfl, rfl, rfl, ?_⟩, rfl⟩
    · simpa [Project.references, hsound] using .done _
    · simp [Entry.links]
  | some name =>
    simp only [hsound] at h
    rw [runs_bind] at h
    obtain ⟨sound, v, hneed, h⟩ := h
    obtain ⟨hfound, rfl⟩ := runs_need.mp hneed
    rw [runs_bind] at h
    obtain ⟨ref, v', hrun, h⟩ := h
    rw [runs_changeManifest] at h
    have hrefs : p.references (.speaker speaker) = [.sound sound] := by
      simp [Project.references, hsound, hfound]
    refine ⟨rfl, ?_⟩
    rw [hrefs]
    rw [runs_tryCatch] at hrun
    rcases hrun with hrun | ⟨e, u, hfail, hrun⟩
    · rw [runs_map] at hrun
      obtain ⟨r, hrun, rfl⟩ := hrun
      obtain ⟨rfl, htour⟩ := visits_writeSound sound hrun
      exact ⟨[.sound sound], .speaker _, v'.record, htour, ⟨rfl, rfl, rfl, rfl⟩, congrArg record h⟩
    · have htour := fails_writeSound (fails_map.mp hfail)
      cases e with
      | path pe =>
        obtain ⟨_, u', herr, hrun⟩ := runs_bind.mp hrun
        obtain ⟨rfl, rfl⟩ := runs_pure.mp hrun
        refine ⟨[], .speaker _, v'.record, ?_, ⟨rfl, rfl, rfl, rfl⟩, congrArg record h⟩
        rw [quiet_err _ herr]
        exact htour
      | _ => exact absurd hrun not_runs_throw

theorem visits_writeArmature (armature : Armature) :
    Visits p (.armature armature) (writeArmature p armature) := by
  apply Writes.visits
  intro w w' h
  rw [runs_changeManifest] at h
  exact ⟨rfl, [], .armature _, w.record, .done _, ⟨rfl, rfl, rfl, rfl⟩, congrArg record h⟩

theorem visits_writeAction (action : Action Float) :
    Visits p (.action action) (writeAction p action) := by
  apply Writes.visits
  intro w w' h
  simp only [runs_bind, runs_get, runs_changeContext, runs_changeManifest] at h
  obtain ⟨_, v, ⟨rfl, rfl⟩, _, u, rfl, h⟩ := h
  exact ⟨rfl, [], .action _, v.record, .done _, ⟨rfl, rfl, rfl, rfl⟩, congrArg record h⟩

end SceneExport.Export.Walk
