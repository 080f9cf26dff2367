import Mathlib
import SceneExport.Proofs.Bake.Rebake
import SceneExport.Proofs.Walk.Played
import SceneExport.Tool.Bake

/-!
# Exports of baked projects

The suffix in the names of baked actions can be chosen. An export looks for baked forms under the
usual suffix, whatever was chosen. So an export after a bake plays the baked form of an action in
its place if and only if the bake used the usual suffix, or the action is idle: no exported object
names or plays it, and an action that has its name with the usual suffix keeps it from being
exported on its own.
-/
namespace SceneExport

open Bake (attempt usualSuffix)
open Manifest (AnimationEntry)

namespace Library

variable {l : Library Float} {name : String} {a : Action Float}

lemma name_of_get? (h : l.get? name = some a) : a.name = name := by
  simpa using List.find?_some h

lemma name_of_playable? (h : l.playable? name = some a) :
    a.name = name ∨ a.name = name ++ usualSuffix :=
  (get?_of_playable? h).imp name_of_get? name_of_get?

lemma playable?_of_baked (hname : Text.contains name usualSuffix = false)
    (hbaked : l.get? (name ++ usualSuffix) = some a) : l.playable? name = some a := by
  rw [playable?, if_neg (by simp [hname]), hbaked, Option.some_or]

/-- An action that has a baked form is not played by anything. -/
lemma name_ne_of_playable? (hname : Text.contains name usualSuffix = false)
    (hbaked : (l.get? (name ++ usualSuffix)).isSome) {named : String}
    (h : l.playable? named = some a) : a.name ≠ name := by
  rintro rfl
  rcases name_of_playable? h with heq | heq
  · obtain ⟨b, hb⟩ := Option.isSome_iff_exists.mp hbaked
    rw [← heq, playable?_of_baked hname hb] at h
    have hlonger := name_of_get? hb
    rw [Option.some.inj h] at hlonger
    simpa [usualSuffix] using congrArg String.length hlonger
  · rw [heq, Text.contains_append] at hname
    cases hname

end Library

namespace Bake

/-- Each result of an armature is named after an action that can be baked. -/
lemma name_of_bakeArmature {skeleton : Skeleton Float} {library : Library Float}
    {rig rig' : Pose.Rig Float} (hrig : Pose.Rig.Reachable skeleton library rig)
    {cfg : Config Float} {subject : Subject} {report : Report}
    {decompose : Mat4 Float → Transform Float}
    (hok : (attempt (bakeArmature Pose.Rig.evaluator decompose cfg subject library)).run rig =
      (.ok report, rig'))
    {b : Action Float} (hb : b ∈ report.baked) :
    ∃ a ∈ validActions library subject.actions cfg, b.name = cfg.bakedName a.name := by
  obtain ⟨bones, hcheck, hsteady, haction⟩ :=
    steady_of_bakeArmature hrig.refresh_eq hrig.library_eq hok
  rw [attempt_bakeArmature hcheck hrig.refresh_eq hrig.library_eq hsteady haction] at hok
  rw [← Except.ok.inj (Prod.mk.inj hok).1] at hb
  exact name_of_mem_collect hb

end Bake

namespace Tool

variable {decompose : Mat4 Float → Transform Float} {p : Project} {wanted : List String}
  {cfg : Bake.Config Float} {name : String}

/-- The same holds for an object, whose rig may be set to an action beforehand. -/
lemma name_of_bakeObject {report : Bake.Report} (h : bakeObject decompose p cfg name = .ok report)
    {b : Action Float} (hb : b ∈ report.baked) :
    ∃ a ∈ p.actions.actions, cfg.isBakedName a.name = false ∧ b.name = cfg.bakedName a.name := by
  have hsource : ∀ {wanted : List String}, (∃ a ∈ Bake.validActions p.actions wanted cfg,
      b.name = cfg.bakedName a.name) → ∃ a ∈ p.actions.actions, cfg.isBakedName a.name = false ∧
        b.name = cfg.bakedName a.name := by
    rintro wanted ⟨a, ha, hab⟩
    obtain ⟨hmem, hvalid⟩ := List.mem_filter.mp ha
    simp only [Bool.and_eq_true, Bool.not_eq_true'] at hvalid
    exact ⟨a, hmem, hvalid.1.2, hab⟩
  unfold bakeObject at h
  split at h
  · cases h
  · dsimp only at h
    split at h
    · cases h
    · rename_i o _ _ skeleton _
      have hnew : Pose.Rig.Reachable skeleton p.actions (.new skeleton p.actions cfg.inverseBias) :=
        .new cfg.inverseBias
      cases haction : o.animation.bind Project.AnimationData.action with
      | none =>
        rw [haction] at h
        exact hsource (Bake.name_of_bakeArmature hnew (Prod.ext h rfl) hb)
      | some action =>
        rw [haction] at h
        obtain ⟨_, rig, hset, hrun⟩ := Bake.attempt_bind_eq_ok (Prod.ext h rfl)
        have hrig : Pose.Rig.Reachable skeleton p.actions rig := by
          have hreached := hnew.setAction (some action)
          rwa [hset] at hreached
        exact hsource (Bake.name_of_bakeArmature hrig hrun hb)

/-- All results of a bake, object after object. -/
def results (decompose : Mat4 Float → Transform Float) (p : Project) (wanted : List String)
    (cfg : Bake.Config Float) : List (Action Float) :=
  ((objectsToBake p wanted).filterMap fun name =>
    (bakeObject decompose p cfg name).toOption).flatMap Bake.Report.baked

lemma baked_bakeScene :
    (bakeScene decompose p wanted cfg).1.baked =
      (results decompose p wanted cfg).map Action.name := by
  rw [results, List.map_flatMap, bakeScene, List.filterMap_map]
  rfl

lemma actions_bakeScene :
    (bakeScene decompose p wanted cfg).2.actions =
      (results decompose p wanted cfg).foldl Library.store p.actions := by
  rw [results, List.foldl_flatMap, bakeScene, List.filterMap_map]
  rfl

lemma name_of_mem_results {b : Action Float} (hb : b ∈ results decompose p wanted cfg) :
    ∃ a ∈ p.actions.actions, cfg.isBakedName a.name = false ∧ b.name = cfg.bakedName a.name := by
  obtain ⟨report, hreport, hb⟩ := List.mem_flatMap.mp hb
  obtain ⟨object, -, hobject⟩ := List.mem_filterMap.mp hreport
  cases houtcome : bakeObject decompose p cfg object with
  | error e => simp [houtcome, Except.toOption] at hobject
  | ok report' =>
    obtain rfl : report' = report := by simpa [houtcome, Except.toOption] using hobject
    exact name_of_bakeObject houtcome hb

/-- An action whose baked form was stored is no result itself, and both are found afterwards. -/
lemma get?_bakeScene (hsuffix : cfg.suffix ≠ "")
    (hbaked : cfg.bakedName name ∈ (bakeScene decompose p wanted cfg).1.baked) :
    Text.contains name cfg.suffix = false ∧
      ((bakeScene decompose p wanted cfg).2.actions.get? name).isSome ∧
      ((bakeScene decompose p wanted cfg).2.actions.get? (cfg.bakedName name)).isSome := by
  rw [baked_bakeScene] at hbaked
  obtain ⟨b, hb, hname⟩ := List.mem_map.mp hbaked
  obtain ⟨a, ha, hsource, hab⟩ := name_of_mem_results hb
  obtain rfl : a.name = name := by
    have hsame : a.name ++ cfg.suffix = name ++ cfg.suffix := hab.symm.trans hname
    rwa [String.append_left_inj] at hsame
  rw [actions_bakeScene]
  refine ⟨?_, ?_, ?_⟩
  · rw [Bake.Config.isBakedName, Bool.and_eq_false_iff] at hsource
    rcases hsource with hempty | hcontains
    · exact absurd (by simpa using hempty) hsuffix
    · exact hcontains
  · have hnone : Library.last? (results decompose p wanted cfg) a.name = none := by
      rw [← Option.not_isSome_iff_eq_none, Library.last?_isSome]
      rintro ⟨b', hb', heq⟩
      obtain ⟨a', -, -, hab'⟩ := name_of_mem_results hb'
      rw [← heq, hab', Bake.isBakedName_bakedName hsuffix] at hsource
      cases hsource
    rw [Library.get?_foldl_store, hnone, Option.none_or, ← Library.mem_names_iff]
    exact List.mem_map_of_mem ha
  · rw [← hname, Library.get?_foldl_store_of_mem _ hb, Library.last?_isSome]
    exact ⟨b, hb, rfl⟩

end Tool

namespace Project

/-- The action that an object names. -/
def Object.named? (o : Object) : Option String :=
  o.animation.bind AnimationData.action

/-- The manifest plays one action in place of another: an exported object that names the other one
refers to the entry of the first, and the other has no entry. -/
structure PlaysInstead (p : Project) (m : Manifest) (baked name : String) : Prop where
  played : ∀ e ∈ m.objects, ∃ o, p.object? e.name = some o ∧ (o.named? = some name →
    ∃ a ∈ m.actions, a.name = baked ∧ e.animation.bind AnimationEntry.action = some ⟨a.uuid⟩)
  hidden : ∀ a ∈ m.actions, a.name ≠ name

/-- No exported object names or plays the action, and there is one that passes for its baked
form. -/
structure Idle (p : Project) (m : Manifest) (name : String) : Prop where
  covered : (p.actions.get? (name ++ usualSuffix)).isSome
  unnamed : ∀ e ∈ m.objects, ∀ o, p.object? e.name = some o → o.named? ≠ some name
  unplayed : ∀ e ∈ m.objects, ∀ o, p.object? e.name = some o →
    (p.played? o).map Action.name ≠ some name

end Project

namespace Export

variable {p : Project} {path : String} {html : Bool} {c c' : Context} {out : Output} {name : String}

/-- An action of the project has no entry if and only if it has a baked form and is not played. -/
lemma hidden_iff (hdigest : p.DigestsApart) (h : Runs (exportScene p path html) c out c')
    (hname : (p.actions.get? name).isSome) :
    (∀ a ∈ out.manifest.actions, a.name ≠ name) ↔
      (p.actions.get? (name ++ usualSuffix)).isSome ∧
        ∀ e ∈ out.manifest.objects, ∀ o, p.object? e.name = some o →
          (p.played? o).map Action.name ≠ some name := by
  have hentry := @exists_actionEntry_iff _ _ _ _ _ _ hdigest h name
  constructor
  · intro hhidden
    have hnone : ¬ ∃ a ∈ out.manifest.actions, a.name = name := fun ⟨a, ha, heq⟩ => hhidden a ha heq
    rw [hentry, not_or] at hnone
    refine ⟨?_, fun e he o ho hplayed => ?_⟩
    · obtain ⟨x, hx⟩ := Option.isSome_iff_exists.mp hname
      by_contra hbaked
      refine hnone.1 ⟨x, List.mem_of_find?_eq_some hx, ?_, Library.name_of_get? hx⟩
      rw [Library.hasBaked, Library.name_of_get? hx]
      simpa using hbaked
    · obtain ⟨x, hx, hxname⟩ := Option.map_eq_some_iff.mp hplayed
      exact hnone.2 ⟨e, he, o, x, ho, hx, hxname⟩
  · rintro ⟨hbaked, hplayed⟩ a ha heq
    rcases hentry.mp ⟨a, ha, heq⟩ with ⟨x, -, hx, rfl⟩ | ⟨e, he, o, x, ho, hx, rfl⟩
    · rw [Library.hasBaked, hbaked] at hx
      cases hx
    · exact hplayed e he o ho (by rw [hx, Option.map_some])

end Export

namespace Tool

open Export (Context Output Runs exportScene)

variable {decompose : Mat4 Float → Transform Float} {p : Project} {wanted : List String}
  {cfg : Bake.Config Float} {name : String}
  {path : String} {html : Bool} {c c' : Context} {out : Output}

/-- An export after a bake plays the baked form of an action in place of the action if and only if
the bake used the usual suffix or the action is idle. -/
theorem bakeScene_playsInstead_iff (hsuffix : cfg.suffix ≠ "")
    (hdigest : (bakeScene decompose p wanted cfg).2.DigestsApart)
    (h : Runs (exportScene (bakeScene decompose p wanted cfg).2 path html) c out c')
    (hbaked : cfg.bakedName name ∈ (bakeScene decompose p wanted cfg).1.baked) :
    (bakeScene decompose p wanted cfg).2.PlaysInstead out.manifest (cfg.bakedName name) name ↔
      cfg.suffix = usualSuffix ∨ (bakeScene decompose p wanted cfg).2.Idle out.manifest name := by
  obtain ⟨hcontains, hget, hresult⟩ := get?_bakeScene hsuffix hbaked
  have hhidden := Export.hidden_iff hdigest h hget
  generalize (bakeScene decompose p wanted cfg).2 = q at hdigest h hget hresult hhidden ⊢
  constructor
  · intro hplays
    obtain ⟨hcovered, hunplayed⟩ := hhidden.mp hplays.hidden
    refine or_iff_not_imp_left.mpr fun hother => ⟨hcovered, fun e he o ho hnamed => ?_, hunplayed⟩
    obtain ⟨o', ho', hplayed⟩ := hplays.played e he
    obtain rfl : o = o' := Option.some.inj (ho.symm.trans ho')
    obtain ⟨a, ha, hname, href⟩ := hplayed hnamed
    -- the entry is that of the action which the object plays, and that has another name
    obtain ⟨o', ho', hplayed⟩ := Export.exists_object_of_mem h he
    obtain rfl : o = o' := Option.some.inj (ho.symm.trans ho')
    rw [href] at hplayed
    obtain ⟨x, hx, huuid⟩ := Option.map_eq_some_iff.mp hplayed.symm
    have hsame : a.name = x.name := Export.name_of_actionEntry hdigest h ha
      (Export.mem_datablocks_of_played? hx) (congrArg Manifest.Ref.uuid huuid).symm
    obtain ⟨named, hnamed', hplayable⟩ := Option.bind_eq_some_iff.mp hx
    obtain rfl : named = name := Option.some.inj (hnamed'.symm.trans hnamed)
    have hxname : x.name = named ++ cfg.suffix := hsame.symm.trans hname
    rcases Library.name_of_playable? hplayable with heq | heq
    · rw [hxname, String.append_eq_left_iff] at heq
      exact hsuffix heq
    · rw [hxname, String.append_right_inj] at heq
      exact hother heq
  · rintro (husual | hidle)
    · have hname : cfg.bakedName name = name ++ usualSuffix := by rw [Bake.Config.bakedName, husual]
      rw [husual] at hcontains
      rw [hname] at hresult ⊢
      obtain ⟨b, hb⟩ := Option.isSome_iff_exists.mp hresult
      refine ⟨fun e he => ?_, hhidden.mpr ⟨hresult, fun e he o ho hplayed => ?_⟩⟩
      · obtain ⟨o, ho, -⟩ := Export.exists_object_of_mem h he
        refine ⟨o, ho, fun hnamed => ?_⟩
        have hplayed : q.played? o = some b :=
          Option.bind_eq_some_iff.mpr ⟨name, hnamed, Library.playable?_of_baked hcontains hb⟩
        rw [← Library.name_of_get? hb]
        exact Export.exists_played_entry hdigest h he ho hplayed
      · obtain ⟨x, hx, hxname⟩ := Option.map_eq_some_iff.mp hplayed
        obtain ⟨named, -, hplayable⟩ := Option.bind_eq_some_iff.mp hx
        exact Library.name_ne_of_playable? hcontains hresult hplayable hxname
    · refine ⟨fun e he => ?_, hhidden.mpr ⟨hidle.covered, hidle.unplayed⟩⟩
      obtain ⟨o, ho, -⟩ := Export.exists_object_of_mem h he
      exact ⟨o, ho, fun hnamed => absurd hnamed (hidle.unnamed e he o ho)⟩

/-- A stage with one person, who nods. The rig of the person has one bone. -/
def stage : Project where
  filepath := ""
  exportPathJson := none
  exportPathHtml := none
  scenes := [⟨"stage", none, ["person"], 1, 1, 24, none, false⟩]
  objects :=
    [⟨"person", none, .armature, some "rig", none, .replicate 16 0, some ⟨some "nod"⟩, [],
      false, [], false⟩]
  meshes := []
  materials := []
  textures := []
  images := []
  sounds := []
  speakers := []
  armatures := [⟨"rig", none, ⟨[⟨"head", .identity, none, true⟩], rfl⟩⟩]
  actions := ⟨[⟨"nod", .object, (1, 1), []⟩]⟩

/-- A bake under a suffix of its own. -/
def renamed : Bake.Config Float :=
  { Bake.Config.usual with suffix := "_done" }

/-- The stage after the bake. -/
def staged : Project := (bakeScene Transform.decompose stage [] renamed).2

/-- The bake ends well and so does the export, but the person still nods as before. -/
theorem stage_not_playsInstead :
    renamed.suffix ≠ "" ∧ staged.DigestsApart ∧
      renamed.bakedName "nod" ∈ (bakeScene Transform.decompose stage [] renamed).1.baked ∧
      ∃ out c', Runs (exportScene staged "/stage.json" false) Export.blank out c' ∧
        ¬ staged.PlaysInstead out.manifest (renamed.bakedName "nod") "nod" := by
  have hsuffix : renamed.suffix ≠ "" := by decide +kernel
  have hdigest : staged.DigestsApart := by
    have hnodup : (staged.datablocks.map staged.identifier).Nodup := by decide +kernel
    intro a ha b hb heq
    rw [← Project.identifier_eq_digest, ← Project.identifier_eq_digest] at heq
    rw [List.inj_on_of_nodup_map hnodup ha hb heq]
  have hbaked : renamed.bakedName "nod" ∈
      (bakeScene Transform.decompose stage [] renamed).1.baked := by
    decide +kernel
  obtain ⟨out, c', h⟩ : ∃ out c',
      Runs (exportScene staged "/stage.json" false) Export.blank out c' :=
    Export.exists_runs (by decide +kernel)
  refine ⟨hsuffix, hdigest, hbaked, out, c', h, fun hplays => ?_⟩
  rcases (bakeScene_playsInstead_iff hsuffix hdigest h hbaked).mp hplays with husual | hidle
  · exact absurd husual (by decide +kernel)
  · exact absurd hidle.covered (by decide +kernel)

end Tool

end SceneExport
