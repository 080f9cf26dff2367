import Mathlib
import SceneExport.Proofs.Walk.Visits

/-!
# Walks are tours: objects, scenes and the whole walk

An object is written after its parent, so a walk first climbs to the topmost object that is not
marked and then writes the objects of the climb from the top down. A tour marks an object, visits
its parent, and comes back to what the object itself carries: the same marks and entries, in the
same order.
-/
namespace SceneExport.Export.Walk

open Project (Scene Object Block)
open Manifest (Ref Entry)

variable {p : Project} {w w' : Walk}

/-- A visit to a datablock that is looked up first. -/
lemma runs_visit_needed {β : Type} {kind owner name : String} {found : Option β} {mk : β → Block}
    {visit : β → WalkM Ref} (hvisit : ∀ b, Visits p (mk b) (visit b)) {r : Option Ref}
    (h : Runs (do let b ← need kind owner name found; some <$> visit b) w r w') :
    r = (found.map mk).map (fun b => ⟨p.identifier b⟩) ∧
      Tour p w.record (found.map mk).toList (found.map mk).toList w'.record := by
  simp only [runs_bind, runs_need, runs_map] at h
  obtain ⟨b, _, ⟨rfl, rfl⟩, r, hr, rfl⟩ := h
  obtain ⟨rfl, htour⟩ := hvisit b hr
  exact ⟨rfl, htour⟩

lemma runs_writeData {o : Object} {r : Option Ref} (h : Runs (writeData p o) w r w') :
    r = (p.shown? o).map (fun b => ⟨p.identifier b⟩) ∧
      Tour p w.record (p.shown? o).toList (p.shown? o).toList w'.record := by
  unfold writeData at h
  unfold Project.shown?
  cases hdata : o.data with
  | none =>
    simp only [hdata, runs_pure] at h
    obtain ⟨rfl, rfl⟩ := h
    cases o.kind <;> exact ⟨rfl, .done _⟩
  | some name =>
    cases hkind : o.kind with
    | mesh =>
      simp only [hdata, hkind] at h
      exact runs_visit_needed (fun mesh => visits_writeMesh mesh o) h
    | armature =>
      simp only [hdata, hkind] at h
      exact runs_visit_needed visits_writeArmature h
    | speaker =>
      simp only [hdata, hkind] at h
      exact runs_visit_needed visits_writeSpeaker h
    | empty | camera | lamp =>
      simp only [hdata, hkind, runs_pure] at h
      obtain ⟨rfl, rfl⟩ := h
      exact ⟨rfl, .done _⟩

lemma runs_writePlayed {o : Object} {name : String} {r : Option Ref}
    (h : Runs (writePlayed p o name) w r w') :
    r = ((p.actions.playable? name).map Block.action).map (fun b => ⟨p.identifier b⟩) ∧
      Tour p w.record ((p.actions.playable? name).map Block.action).toList
        ((p.actions.playable? name).map Block.action).toList w'.record := by
  unfold writePlayed at h
  cases hfound : p.actions.playable? name with
  | none =>
    simp only [hfound, runs_bind, runs_pure] at h
    obtain ⟨_, v, hv, rfl, rfl⟩ := h
    refine ⟨rfl, ?_⟩
    rw [quiet_warn _ hv]
    exact .done _
  | some action =>
    simp only [hfound, runs_map] at h
    obtain ⟨r, hr, rfl⟩ := h
    obtain ⟨rfl, htour⟩ := visits_writeAction action hr
    exact ⟨rfl, htour⟩

lemma dataKind_of_shown {o : Object} {b : Block} (h : p.shown? o = some b) :
    Manifest.dataKind? o.kind.label = some b.kind := by
  rcases Project.shown?_eq_some h
    with ⟨_, _, hkind, -, rfl⟩ | ⟨_, _, hkind, -, rfl⟩ | ⟨_, _, hkind, -, rfl⟩ <;>
  · rw [hkind]
    rfl

/-- The references of an object besides its parent. -/
def carried (p : Project) (o : Object) : List Block :=
  (p.shown? o).toList ++ ((p.played? o).map Block.action).toList

lemma describes_object {o : Object} {e : Manifest.ObjectEntry} (hname : e.name = o.name)
    (huuid : e.uuid = p.uuid o) (hkind : e.kind = o.kind.label)
    (hdata : e.data = (p.shown? o).map fun b => ⟨p.identifier b⟩)
    (hparent : e.parent = (o.parent.bind p.object?).map fun parent => ⟨p.uuid parent⟩)
    (haction : e.animation.bind Manifest.AnimationEntry.action =
      ((p.played? o).map Block.action).map fun b => ⟨p.identifier b⟩) :
    p.Describes (.object o) (p.references (.object o)) (.object e) := by
  refine ⟨rfl, hname, huuid, ?_⟩
  simp only [Entry.links, Project.references, List.map_append, hkind, hdata, hparent, haction]
  congr 1
  · congr 1
    · cases o.parent.bind p.object? <;> rfl
    · cases hshown : p.shown? o with
      | none => rfl
      | some b => simp [dataKind_of_shown hshown, Project.link]
  · cases p.played? o <;> rfl

/-- The entry of an object, with references to what it shows and what it plays. -/
def objectEntry (p : Project) (o : Object) (data played : Option Ref) : Manifest.ObjectEntry where
  name := o.name
  uuid := p.uuid o
  kind := o.kind.label
  data := data
  parent := (o.parent.bind p.object?).map fun parent => ⟨p.uuid parent⟩
  matrix := o.matrix.toList.map roundEntry
  animation := o.animation.map fun _ => ⟨played⟩

/-- An object is written after what it shows and what it plays. -/
lemma runs_writeObjectBody_steps {o : Object} (h : Runs (writeObjectBody p o) w () w') :
    ∃ data v played u, Runs (writeData p o) w data v ∧
      (o.animation.bind Project.AnimationData.action = none ∧ played = none ∧ u = v ∨
        ∃ name, o.animation.bind Project.AnimationData.action = some name ∧
        Runs (writePlayed p o name) v played u) ∧
      w' = { u with manifest :=
        { u.manifest with objects := u.manifest.objects ++ [objectEntry p o data played] } } := by
  unfold writeObjectBody at h
  obtain ⟨data, v, hdata, h⟩ := runs_bind.mp h
  cases hanim : o.animation with
  | none =>
    simp only [hanim, runs_bind, runs_pure, runs_changeManifest] at h
    obtain ⟨_, u, ⟨rfl, rfl⟩, rfl⟩ := h
    exact ⟨data, u, none, u, hdata, .inl ⟨rfl, rfl, rfl⟩, by simp [objectEntry, hanim]⟩
  | some animation =>
    cases haction : animation.action with
    | none =>
      simp only [hanim, haction, runs_bind, runs_pure, runs_changeManifest] at h
      obtain ⟨_, _, ⟨rfl, rfl⟩, _, u, ⟨rfl, rfl⟩, rfl⟩ := h
      exact ⟨data, u, none, u, hdata, .inl ⟨haction, rfl, rfl⟩, by simp [objectEntry, hanim]⟩
    | some name =>
      simp only [hanim, haction, runs_bind, runs_pure, runs_changeManifest] at h
      obtain ⟨played, _, hrun, _, u, ⟨rfl, rfl⟩, rfl⟩ := h
      exact ⟨data, v, played, u, hdata, .inr ⟨name, haction, hrun⟩, by simp [objectEntry, hanim]⟩

lemma runs_writeObjectBody {o : Object} (h : Runs (writeObjectBody p o) w () w') :
    ∃ e r, Tour p w.record (carried p o) (carried p o) r ∧
      p.Describes (.object o) (p.references (.object o)) e ∧ w'.record = r.add e := by
  obtain ⟨data, v, played, u, hdata, hplayed, rfl⟩ := runs_writeObjectBody_steps h
  obtain ⟨rfl, htour⟩ := runs_writeData hdata
  refine ⟨.object (objectEntry p o _ played), u.record, ?_,
    describes_object rfl rfl rfl rfl rfl ?_, rfl⟩
  · rw [carried, Project.played?]
    obtain ⟨haction, -, rfl⟩ | ⟨name, haction, hrun⟩ := hplayed
    · simpa [haction] using htour
    · rw [haction]
      exact htour.append (runs_writePlayed hrun).2
  · obtain ⟨haction, rfl, -⟩ | ⟨name, haction, hrun⟩ := hplayed
    · rw [Project.played?, haction]
      cases hanim : o.animation <;> simp [objectEntry, hanim]
    · obtain ⟨animation, hanim, -⟩ := Option.bind_eq_some_iff.mp haction
      rw [Project.played?, haction, (runs_writePlayed hrun).1]
      simp [objectEntry, hanim]

/-- A climb from the object of a name that finds every parent. Writing the objects it marked, the
topmost first, is a visit to that object: the marks below an object are set before its parent is
visited, as the climb does for all of them at once. -/
theorem tour_climb (marks : List String) (chain : List Object) (name : String)
    (hmissing : (climb p marks chain name).missing = none) :
    ∃ o above, p.object? name = some o ∧ (climb p marks chain name).chain = above ++ chain ∧
      ∀ s w w', s.marks = marks → w.record = { s with marks := (climb p marks chain name).marks } →
        Runs (above.forM (writeObjectBody p)) w () w' →
        Tour p s [.object o] [.object o] w'.record := by
  fun_induction climb p marks chain name with
  | case1 => simp at hmissing
  | case2 marks chain name o hfound hmarked =>
    refine ⟨o, [], hfound, rfl, fun s w w' hs hw h => ?_⟩
    rw [runs_forM_nil] at h
    rw [h, hw, ← hs]
    exact .known (hs ▸ hmarked) (.done _)
  | case3 marks chain name o hfound hmarked hparent =>
    refine ⟨o, [o], hfound, rfl, fun s w w' hs hw h => ?_⟩
    simp only [runs_forM_cons, runs_forM_nil] at h
    obtain ⟨v, h, rfl⟩ := h
    obtain ⟨e, r, htour, hd, hr⟩ := runs_writeObjectBody h
    have hrefs : p.references (.object o) = carried p o := by
      simp [Project.references, hparent, carried]
    have hstart : w.record = s.mark (p.identifier (.object o)) := by
      rw [hw, ← hs]
      rfl
    rw [hr]
    refine .fresh (hs ▸ hmarked) rfl ?_ hd (.done _)
    rw [← hstart, hrefs]
    exact htour
  | case4 marks chain name o hfound hmarked parent hparent ih =>
    obtain ⟨q, above, hq, habove, hrun⟩ := ih hmissing
    refine ⟨o, above ++ [o], hfound, by simp [habove], fun s w w' hs hw h => ?_⟩
    simp only [runs_forM_append, runs_forM_cons, runs_forM_nil] at h
    obtain ⟨v, hv, u, h, rfl⟩ := h
    obtain ⟨e, r, htour, hd, hr⟩ := runs_writeObjectBody h
    have hrefs : p.references (.object o) = .object q :: carried p o := by
      simp [Project.references, hparent, hq, carried]
    have hparents : Tour p (s.mark (p.identifier (.object o))) [.object q] [.object q]
        v.record := by
      refine hrun _ w v ?_ hw hv
      rw [← hs]
      rfl
    rw [hr]
    refine .fresh (hs ▸ hmarked) rfl ?_ hd (.done _)
    rw [hrefs]
    exact hparents.append htour

lemma suffix_climb (marks : List String) (chain : List Object) (name : String) :
    chain <:+ (climb p marks chain name).chain := by
  fun_induction climb p marks chain name with
  | case1 => exact List.suffix_refl _
  | case2 => exact List.suffix_refl _
  | case3 => exact List.suffix_cons _ _
  | case4 _ _ _ _ _ _ _ _ ih => exact (List.suffix_cons _ _).trans ih

/-- A climb that starts at an object and misses a parent has marked the object that names it. -/
lemma chain_ne_nil {marks : List String} {chain : List Object} {name : String} {o : Object}
    (hfound : p.object? name = some o) (hmissing : (climb p marks chain name).missing ≠ none) :
    (climb p marks chain name).chain ≠ [] := by
  fun_induction climb p marks chain name with
  | case1 _ _ _ hnone => simp [hfound] at hnone
  | case2 => simp at hmissing
  | case3 => simp
  | case4 marks chain name q _ _ parent _ _ =>
    have hsuffix := suffix_climb (p := p) (p.uuid q :: marks) (q :: chain) parent
    intro hnil
    simp [hnil] at hsuffix

/-- The climb finds every parent, and the objects that it marked are written. -/
lemma runs_writeObject {o : Object} {r : Ref} (hfound : p.object? o.name = some o)
    (h : Runs (writeObject p o) w r w') :
    r = ⟨p.uuid o⟩ ∧ (climb p w.context.exported [] o.name).missing = none ∧
      Runs ((climb p w.context.exported [] o.name).chain.forM (writeObjectBody p))
        { w with context :=
          { w.context with exported := (climb p w.context.exported [] o.name).marks } } () w' := by
  unfold writeObject at h
  simp only [runs_bind, runs_get, runs_changeContext] at h
  obtain ⟨_, v, ⟨rfl, rfl⟩, _, u, rfl, h⟩ := h
  cases hmissing : (climb p v.context.exported [] o.name).missing with
  | some name =>
    cases hchain : (climb p v.context.exported [] o.name).chain with
    | nil => exact absurd hchain (chain_ne_nil hfound (by simp [hmissing]))
    | cons owner rest => simp [hmissing, hchain] at h
  | none =>
    simp only [hmissing, runs_bind, runs_pure] at h
    obtain ⟨_, u, hrun, rfl, rfl⟩ := h
    exact ⟨rfl, rfl, hrun⟩

theorem visits_writeObject {o : Object} (hfound : p.object? o.name = some o) :
    Visits p (.object o) (writeObject p o) := by
  intro w r w' h
  obtain ⟨rfl, hmissing, hrun⟩ := runs_writeObject hfound h
  obtain ⟨q, above, hq, habove, htour⟩ := tour_climb (p := p) _ _ _ hmissing
  obtain rfl : o = q := by simpa [hfound] using hq
  rw [habove, List.append_nil] at hrun
  exact ⟨rfl, htour w.record _ _ rfl rfl hrun⟩

lemma runs_writeSceneObject {kind name : String} {scene : Scene} {r : Option Ref}
    (h : Runs (writeSceneObject p kind scene name) w r w') :
    r.toList = ((p.exportedObject? name).map Block.object).toList.map (fun b => ⟨p.identifier b⟩) ∧
      Tour p w.record ((p.exportedObject? name).map Block.object).toList
        ((p.exportedObject? name).map Block.object).toList w'.record := by
  unfold writeSceneObject at h
  simp only [runs_bind, runs_need] at h
  obtain ⟨o, _, ⟨hfound, rfl⟩, h⟩ := h
  cases hskip : o.doNotExport with
  | true =>
    simp only [hskip, if_true, runs_pure] at h
    obtain ⟨rfl, rfl⟩ := h
    simpa [Project.exportedObject?, hfound, hskip, Option.filter] using Tour.done w'.record
  | false =>
    simp only [hskip, Bool.false_eq_true, if_false, runs_map] at h
    obtain ⟨r, hr, rfl⟩ := h
    obtain ⟨rfl, htour⟩ := visits_writeObject (Project.named?_name hfound) hr
    simpa [Project.exportedObject?, hfound, hskip, Option.filter] using htour

/-- The objects that a scene leads to by a list of names. -/
def staged (p : Project) (names : List String) : List Block :=
  names.filterMap fun name => (p.exportedObject? name).map Block.object

lemma references_scene (scene : Scene) :
    p.references (.scene scene) = staged p scene.objects ++ staged p scene.camera.toList := by
  cases hcamera : scene.camera with
  | none => simp [Project.references, staged, hcamera, List.map_filterMap]
  | some name =>
    cases hfound : p.exportedObject? name <;>
      simp [Project.references, staged, hcamera, hfound, List.map_filterMap]

lemma describes_scene {scene : Scene} {e : Manifest.SceneEntry} (hname : e.name = scene.name)
    (huuid : e.uuid = p.uuid scene)
    (hobjects : e.objects = (staged p scene.objects).map fun b => ⟨p.identifier b⟩)
    (hcamera : e.camera.toList = (staged p scene.camera.toList).map fun b => ⟨p.identifier b⟩) :
    p.Describes (.scene scene) (p.references (.scene scene)) (.scene e) := by
  refine ⟨rfl, hname, huuid, ?_⟩
  have hkind : ∀ names, ∀ b ∈ staged p names, p.link b = ⟨some .object, p.identifier b⟩ := by
    intro names b hb
    obtain ⟨name, -, hb⟩ := List.mem_filterMap.mp hb
    obtain ⟨o, -, rfl⟩ := Option.map_eq_some_iff.mp hb
    rfl
  rw [references_scene, List.map_append, List.map_congr_left (hkind _),
    List.map_congr_left (hkind _)]
  simp [Entry.links, hobjects, hcamera, Function.comp_def]

theorem visits_writeScene (scene : Scene) : Visits p (.scene scene) (writeScene p scene) := by
  apply Writes.visits
  intro w w' h
  rw [runs_bind] at h
  obtain ⟨objects, v, hobjects, h⟩ := h
  obtain ⟨hrefs, htour⟩ := tour_mapM (fun _ _ _ _ hr => runs_writeSceneObject hr) _ hobjects
  have hlist : objects.filterMap id = (staged p scene.objects).map fun b => ⟨p.identifier b⟩ := by
    rw [List.filterMap_eq_flatMap_toList]
    exact hrefs
  refine ⟨rfl, p.references (.scene scene), ?_⟩
  cases hcam : scene.camera with
  | none =>
    simp only [hcam, runs_bind, runs_pure, runs_changeManifest] at h
    obtain ⟨_, u, ⟨rfl, rfl⟩, rfl⟩ := h
    refine ⟨.scene _, u.record, ?_, describes_scene rfl rfl hlist ?_, rfl⟩
    · rw [references_scene, hcam]
      exact htour.append (.done _)
    · rw [hcam]
      rfl
  | some name =>
    simp only [hcam, runs_bind, runs_changeManifest] at h
    obtain ⟨camera, u, hrun, rfl⟩ := h
    obtain ⟨hcamera, htour'⟩ := runs_writeSceneObject hrun
    have hone : staged p (some name).toList =
        ((p.exportedObject? name).map Block.object).toList := by
      cases hfound : p.exportedObject? name <;> simp [staged, hfound]
    refine ⟨.scene _, u.record, ?_, describes_scene rfl rfl hlist ?_, rfl⟩
    · rw [references_scene, hcam, hone]
      exact htour.append htour'
    · rw [hcam, hone]
      exact hcamera

lemma tour_forM {β : Type} {bs : β → List Block} {f : β → WalkM PUnit}
    (hf : ∀ x w w', Runs (f x) w ⟨⟩ w' → Tour p w.record (bs x) (bs x) w'.record)
    (xs : List β) (h : Runs (xs.forM f) w ⟨⟩ w') :
    Tour p w.record (xs.flatMap bs) (xs.flatMap bs) w'.record := by
  induction xs generalizing w with
  | nil =>
    rw [runs_forM_nil] at h
    rw [h]
    exact .done _
  | cons x xs ih =>
    rw [runs_forM_cons] at h
    obtain ⟨v, hv, h⟩ := h
    exact (hf x w v hv).append (ih h)

/-- Where walks start: at the scenes, and at the actions that have no baked form. -/
def roots (p : Project) (scenes : List Scene) : List Block :=
  scenes.map .scene ++ (p.actions.actions.filter fun a => !p.actions.hasBaked a).map .action

lemma roots_eq_flatMap (scenes : List Scene) :
    roots p scenes = (scenes.flatMap fun scene => [.scene scene]) ++
    p.actions.actions.flatMap fun a => if p.actions.hasBaked a then [] else [.action a] := by
  have hactions : (p.actions.actions.filter fun a => !p.actions.hasBaked a).map Block.action =
      p.actions.actions.flatMap fun a => if p.actions.hasBaked a then [] else [.action a] := by
    induction p.actions.actions with
    | nil => rfl
    | cons a as ih => cases hbaked : p.actions.hasBaked a <;> simp [hbaked, ih]
  rw [roots, List.map_eq_flatMap, hactions]

theorem tour_run {scenes : List Scene} (h : Runs (run p scenes) w () w') :
    Tour p w.record (roots p scenes) (roots p scenes) w'.record := by
  unfold run at h
  rw [runs_bind] at h
  obtain ⟨_, v, hscenes, h⟩ := h
  rw [roots_eq_flatMap]
  refine (tour_forM ?_ _ hscenes).append (tour_forM ?_ _ h)
  · intro scene w w' hrun
    simp only [runs_bind, runs_pure] at hrun
    obtain ⟨_, v, hrun, -, rfl⟩ := hrun
    exact (visits_writeScene scene hrun).2
  · intro action w w' hrun
    cases hbaked : p.actions.hasBaked action with
    | true =>
      simp only [hbaked, Bool.not_true, Bool.false_eq_true, if_false, if_true, runs_pure] at hrun ⊢
      rw [hrun.2]
      exact .done _
    | false =>
      simp only [hbaked, Bool.not_false, if_true, Bool.false_eq_true, if_false, runs_bind,
        runs_pure] at hrun ⊢
      obtain ⟨_, v, hrun, -, rfl⟩ := hrun
      exact (visits_writeAction action hrun).2

end SceneExport.Export.Walk
