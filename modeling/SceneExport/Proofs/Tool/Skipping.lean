import Mathlib
import SceneExport.Proofs.Pose.Settings
import SceneExport.Proofs.Tool.Playback

/-!
# Objects that are passed over

A bake of several objects notes those that cannot be baked at all: names without an object, objects
without a skeleton, objects that are not animated, and linked ones. Such an object adds nothing to
the library. It is noted as skipped, with one exception: the rig is set to the action that the
object names before the object is looked at any closer, so a linked object whose rig cannot be set
to it is noted as failed.
-/
namespace SceneExport

open Bake (attempt)

namespace Pose

variable {α : Type} [Metric α]

lemma Places.isSkip_eq_false {library : Library α} {present : Settings α}
    {placed : List (Bone α × Mat4 α)} {bones : List (Bone α)}
    {r : Except Bake.Error (List (Mat4 α))} (h : Places library present placed bones r)
    {e : Bake.Error} (he : r = .error e) : e.isSkip = false := by
  induction h with
  | done => cases he
  | root _ _ ih => exact ih he
  | child _ _ _ _ ih => exact ih he
  | singular =>
    cases he
    rfl

namespace Rig

/-- A rig that cannot be evaluated has a bone that is to blame, not the object. -/
lemma isSkip_of_evaluate {rig : Rig α} {e : Bake.Error} (h : rig.evaluate = .error e) :
    e.isSkip = false :=
  ((places_iff rig.skeleton).mpr (evaluate_eq rig)).isSkip_eq_false h

/-- How a rig over a skeleton can be set to an action. -/
lemma attempt_setAction_cases {skeleton : Skeleton α} {library : Library α} {rig : Rig α}
    (hrig : Reachable skeleton library rig) (action : String) :
    (∃ rig', (attempt (setAction (some action))).run rig = (.ok (), rig') ∧
      (library.get? action).isSome ∧ skeleton.ParentsInvert rig.bias) ∨
    ∃ e rig', (attempt (setAction (some action))).run rig = (.error e, rig') ∧ e.isSkip = false ∧
      ¬ ((library.get? action).isSome ∧ skeleton.ParentsInvert rig.bias) := by
  have hlibrary := hrig.library_eq
  cases hget : library.get? action with
  | none =>
    exact .inr ⟨_, rig, perform_setAction_unknown (by rw [hlibrary, hget]), rfl, by simp⟩
  | some a =>
    have hset : (attempt (setAction (some action))).run rig =
        ({ rig with action := some action }.evaluate.map fun _ => (),
          rig.moved (some action) rig.frame) :=
      attempt_setAction (by simp [Knows, hlibrary, hget])
    have hiff : ({ rig with action := some action }.evaluate.map fun _ => ()) = .ok () ↔
        skeleton.ParentsInvert rig.bias := map_evaluate_eq_ok_iff hrig.skeleton_eq
    cases heval : { rig with action := some action }.evaluate with
    | ok poses =>
      rw [heval] at hset hiff
      exact .inl ⟨_, hset, rfl, hiff.mp rfl⟩
    | error e =>
      rw [heval] at hset hiff
      exact .inr ⟨e, _, hset, isSkip_of_evaluate heval, fun h => by cases hiff.mpr h.2⟩

end Rig

end Pose

namespace Tool

variable {decompose : Mat4 Float → Transform Float} {p : Project} {cfg : Bake.Config Float}
    {name : String}

/-- The name is that of nothing that can be baked: there is no such object, or it has no skeleton,
is not animated or is linked. -/
def Unqualified (p : Project) (name : String) : Prop :=
  ∀ o ∈ p.object? name, skeletonOf? p o = none ∨ o.animation = none ∨ o.library.isSome

/-- The rig of the object cannot be set to the action that the object names, since the library does
not have it or some bone with children has no inverse for its rest position. -/
def Stalls (p : Project) (cfg : Bake.Config Float) (name : String) : Prop :=
  ∃ o skeleton action, p.object? name = some o ∧ skeletonOf? p o = some skeleton ∧
    o.named? = some action ∧
    ¬ ((p.actions.get? action).isSome ∧ skeleton.ParentsInvert cfg.inverseBias)

lemma attempt_bakeArmature_refused {σ : Type} {evaluator : Pose.Evaluator σ Float}
    {subject : Bake.Subject} {library : Library Float} {e : Bake.Error}
    (hcheck : subject.check = .error e) (s : σ) :
    (attempt (Bake.bakeArmature evaluator decompose cfg subject library)).run s =
      (.error e, s) := by
  unfold Bake.bakeArmature
  rw [hcheck]
  rfl

lemma exists_check_error {subject : Bake.Subject}
    (h : subject.animated = false ∨ subject.linked = true) :
    ∃ e, subject.check = .error e ∧ e.isSkip = true := by
  unfold Bake.Subject.check
  cases subject.skeleton with
  | none => exact ⟨_, rfl, rfl⟩
  | some skeleton =>
    cases hanimated : subject.animated with
    | false => exact ⟨_, rfl, rfl⟩
    | true =>
      rw [hanimated] at h
      have hlinked : subject.linked = true := by simpa using h
      exact ⟨_, by rw [hlinked]; rfl, rfl⟩

/-- A name without an object, or with one that has no skeleton. -/
lemma bakeObject_boneless (h : ∀ o ∈ p.object? name, skeletonOf? p o = none)
    (cfg : Bake.Config Float) :
    ∃ e, bakeObject decompose p cfg name = .error e ∧ e.isSkip = true := by
  unfold bakeObject
  cases hobject : p.object? name with
  | none => exact ⟨_, rfl, rfl⟩
  | some o =>
    simp only [h o hobject]
    exact ⟨_, rfl, rfl⟩

/-- An object with a skeleton that is not animated or is linked. -/
lemma bakeObject_refused {o : Project.Object} {skeleton : Skeleton Float}
    (hobject : p.object? name = some o) (hskeleton : skeletonOf? p o = some skeleton)
    (h : o.animation = none ∨ o.library.isSome) (cfg : Bake.Config Float) :
    ∃ e, bakeObject decompose p cfg name = .error e ∧ (e.isSkip = true ↔ ∀ action ∈ o.named?,
      (p.actions.get? action).isSome ∧ skeleton.ParentsInvert cfg.inverseBias) := by
  set subject : Bake.Subject :=
    ⟨o.name, some skeleton, o.animation.isSome, o.library.isSome, o.bakedActions⟩ with hsubject
  have hrefused : subject.animated = false ∨ subject.linked = true := by simpa [hsubject] using h
  obtain ⟨e, hcheck, hskip⟩ := exists_check_error hrefused
  have hrun : ∀ rig,
      (attempt (Bake.bakeArmature Pose.Rig.evaluator decompose cfg subject p.actions)).run rig =
      (.error e, rig) := attempt_bakeArmature_refused hcheck
  unfold bakeObject
  simp only [hobject, hskeleton]
  cases hnamed : o.animation.bind Project.AnimationData.action with
  | none =>
    refine ⟨e, congrArg Prod.fst (hrun _), iff_of_true hskip ?_⟩
    simp [Project.Object.named?, hnamed]
  | some action =>
    have hall :
        (∀ named ∈ o.named?, (p.actions.get? named).isSome ∧
          skeleton.ParentsInvert cfg.inverseBias) ↔
        (p.actions.get? action).isSome ∧ skeleton.ParentsInvert cfg.inverseBias := by
      simp [Project.Object.named?, hnamed]
    rw [hall]
    have hnew : Pose.Rig.Reachable skeleton p.actions (.new skeleton p.actions cfg.inverseBias) :=
      .new cfg.inverseBias
    rcases Pose.Rig.attempt_setAction_cases hnew action
      with ⟨rig, hset, hready⟩ | ⟨e', rig, hset, hfail, hunready⟩
    · refine ⟨e, ?_, iff_of_true hskip hready⟩
      dsimp only
      rw [Bake.attempt_bind_ok hset]
      exact congrArg Prod.fst (hrun rig)
    · exact ⟨e', congrArg Prod.fst (Bake.attempt_bind_error hset),
        iff_of_false (by simp [hfail]) hunready⟩

/-- An object without qualification is refused as such, unless its rig stalls before. -/
lemma bakeObject_unqualified (h : Unqualified p name) (cfg : Bake.Config Float) :
    ∃ e, bakeObject decompose p cfg name = .error e ∧ (e.isSkip = true ↔ ¬ Stalls p cfg name) := by
  by_cases hboneless : ∀ o ∈ p.object? name, skeletonOf? p o = none
  · obtain ⟨e, he, hskip⟩ := bakeObject_boneless hboneless cfg
    refine ⟨e, he, iff_of_true hskip ?_⟩
    rintro ⟨o, skeleton, -, ho, hskeleton, -⟩
    rw [hboneless o ho] at hskeleton
    cases hskeleton
  · push Not at hboneless
    obtain ⟨o, ho, hskeleton⟩ := hboneless
    obtain ⟨skeleton, hskeleton⟩ := Option.ne_none_iff_exists'.mp hskeleton
    have hrefused : o.animation = none ∨ o.library.isSome := by simpa [hskeleton] using h o ho
    obtain ⟨e, he, hiff⟩ := bakeObject_refused ho hskeleton hrefused cfg
    refine ⟨e, he, hiff.trans ⟨?_, fun hstalls action haction => ?_⟩⟩
    · rintro hready ⟨o', skeleton', action, ho', hskeleton', hnamed, hunready⟩
      obtain rfl := Option.some.inj (ho.symm.trans ho')
      obtain rfl := Option.some.inj (hskeleton.symm.trans hskeleton')
      exact hunready (hready action hnamed)
    · by_contra hunready
      exact hstalls ⟨o, skeleton, action, ho, hskeleton, haction, hunready⟩

/-- The note on an object that was not baked, among those that were skipped or those that failed. -/
def noted (skipped : Bool) (name : String) :
    Except Bake.Error Bake.Report → Option (String × Bake.Error)
  | .ok _ => none
  | .error e => if e.isSkip = skipped then some (name, e) else none

/-- The bake of the objects with these names, one after another. -/
def bakeNamed (decompose : Mat4 Float → Transform Float) (p : Project) (names : List String)
    (cfg : Bake.Config Float) : BakeSummary × Project :=
  let notes skipped :=
    names.filterMap fun name => noted skipped name (bakeObject decompose p cfg name)
  let reports := names.filterMap fun name => (bakeObject decompose p cfg name).toOption
  (⟨reports.flatMap fun r => r.baked.map Action.name, notes true,
    notes false ++ reports.flatMap Bake.Report.failed⟩,
    { p with actions := reports.foldl (fun library r => r.apply library) p.actions })

lemma foldl_add (outcome : String → Except Bake.Error Bake.Report) (names : List String)
    (s : BakeSummary) :
    names.foldl (fun s name => s.add name (outcome name)) s =
      ⟨s.baked, s.skipped ++ names.filterMap fun name => noted true name (outcome name),
        s.failed ++ names.filterMap fun name => noted false name (outcome name)⟩ := by
  induction names generalizing s with
  | nil => simp
  | cons name names ih =>
    rw [List.foldl_cons, ih]
    cases houtcome : outcome name with
    | ok report => simp [BakeSummary.add, noted, houtcome]
    | error e => cases hskip : e.isSkip <;> simp [BakeSummary.add, noted, houtcome, hskip]

lemma bakeScene_eq (decompose : Mat4 Float → Transform Float) (p : Project) (wanted : List String)
    (cfg : Bake.Config Float) :
    bakeScene decompose p wanted cfg = bakeNamed decompose p (objectsToBake p wanted) cfg := by
  have hsummary := foldl_add (bakeObject decompose p cfg) (objectsToBake p wanted) ⟨[], [], []⟩
  unfold bakeScene bakeNamed
  simp only [List.foldl_map, List.filterMap_map, hsummary]
  rfl

section Requests

variable {before after : List String} {e : Bake.Error}

/-- An object that is not baked changes what is noted and nothing else. -/
lemma bakeNamed_error (he : bakeObject decompose p cfg name = .error e) :
    (bakeNamed decompose p (before ++ name :: after) cfg).1.baked =
      (bakeNamed decompose p (before ++ after) cfg).1.baked ∧
      (bakeNamed decompose p (before ++ name :: after) cfg).2 =
        (bakeNamed decompose p (before ++ after) cfg).2 := by
  simp [bakeNamed, he, Except.toOption]

/-- The summary has the object among those that were skipped, and has the failures of a bake without
it. -/
def BakeSummary.PassesOver (s : BakeSummary) (decompose : Mat4 Float → Transform Float)
    (p : Project) (cfg : Bake.Config Float) (before : List String) (name : String)
    (after : List String) : Prop :=
  s.failed = (bakeNamed decompose p (before ++ after) cfg).1.failed ∧ ∃ e, e.isSkip = true ∧
    s.skipped = (bakeNamed decompose p before cfg).1.skipped ++ (name, e) ::
      (bakeNamed decompose p after cfg).1.skipped

lemma passesOver_iff (he : bakeObject decompose p cfg name = .error e) :
    (bakeNamed decompose p (before ++ name :: after) cfg).1.PassesOver decompose p cfg before name
      after ↔ e.isSkip = true := by
  constructor
  · rintro ⟨-, e', -, hskipped⟩
    by_contra hskip
    have hlength := congrArg List.length hskipped
    simp [bakeNamed, he, noted, hskip] at hlength
  · intro hskip
    refine ⟨?_, e, hskip, ?_⟩
    · simp [bakeNamed, he, noted, hskip, Except.toOption]
    · simp [bakeNamed, he, noted, hskip]

lemma mem_failed (he : bakeObject decompose p cfg name = .error e) (hskip : e.isSkip = false) :
    (name, e) ∈ (bakeNamed decompose p (before ++ name :: after) cfg).1.failed := by
  simp [bakeNamed, he, noted, hskip]

/-- An object that cannot be baked adds nothing to the library, whatever else is asked for. It is
noted as skipped and as nothing else, if and only if its rig does not stall at the action that it
names; else it is noted as failed. -/
theorem bakeScene_passesOver_iff {wanted : List String}
    (hwanted : objectsToBake p wanted = before ++ name :: after) (hname : Unqualified p name)
    (cfg : Bake.Config Float) :
    ((bakeScene decompose p wanted cfg).1.baked =
      (bakeNamed decompose p (before ++ after) cfg).1.baked ∧
      (bakeScene decompose p wanted cfg).2 = (bakeNamed decompose p (before ++ after) cfg).2) ∧
    ((bakeScene decompose p wanted cfg).1.PassesOver decompose p cfg before name after ↔
      ¬ Stalls p cfg name) ∧
    (Stalls p cfg name → ∃ e, e.isSkip = false ∧
      (name, e) ∈ (bakeScene decompose p wanted cfg).1.failed) := by
  obtain ⟨e, he, hskip⟩ := bakeObject_unqualified hname cfg
  rw [bakeScene_eq, hwanted]
  refine ⟨bakeNamed_error he, (passesOver_iff he).trans hskip, fun hstalls => ?_⟩
  have hfailed : e.isSkip = false := by simpa [hstalls] using hskip
  exact ⟨e, hfailed, mem_failed he hfailed⟩

/-- A linked object that names an action. -/
def visitor (name action : String) : Project.Object :=
  ⟨name, some "//visitors.blend", .armature, some "rig", none, .replicate 16 0, some ⟨some action⟩,
    [], false, [], false⟩

/-- Two visitors on the stage, with a rig of a head on a neck. The second names an action that the
stage does not have. -/
def visited : Project :=
  { stage with
    armatures := [⟨"rig", none, Bake.neck⟩]
    objects := [visitor "guest" "nod", visitor "stray" "bow"] }

/-- One visitor is skipped. The other is noted as failed, though it is linked just the same. -/
theorem visited_passesOver :
    (Unqualified visited "guest" ∧ Unqualified visited "stray") ∧
      (bakeScene Transform.decompose visited ["guest", "stray"] .usual).1.PassesOver
        Transform.decompose visited .usual [] "guest" ["stray"] ∧
      ¬ (bakeScene Transform.decompose visited ["guest", "stray"] .usual).1.PassesOver
        Transform.decompose visited .usual ["guest"] "stray" [] ∧
      ∃ e, e.isSkip = false ∧
      ("stray", e) ∈
        (bakeScene Transform.decompose visited ["guest", "stray"] .usual).1.failed := by
  have hguest : visited.object? "guest" = some (visitor "guest" "nod") := by rfl
  have hstray : visited.object? "stray" = some (visitor "stray" "bow") := by rfl
  have hlinked : Unqualified visited "guest" ∧ Unqualified visited "stray" := by
    constructor
    · intro o ho
      obtain rfl := Option.some.inj (hguest.symm.trans ho)
      exact .inr (.inr rfl)
    · intro o ho
      obtain rfl := Option.some.inj (hstray.symm.trans ho)
      exact .inr (.inr rfl)
  have hstalls : Stalls visited .usual "stray" :=
    ⟨_, _, "bow", hstray, by rfl, rfl, fun h => absurd h.1 (by decide +kernel)⟩
  have hready : ¬ Stalls visited .usual "guest" := by
    rintro ⟨o, skeleton, action, ho, hskeleton, hnamed, hunready⟩
    obtain rfl := Option.some.inj (hguest.symm.trans ho)
    have hrig : skeletonOf? visited (visitor "guest" "nod") = some Bake.neck := by rfl
    obtain rfl := Option.some.inj (hrig.symm.trans hskeleton)
    obtain rfl : "nod" = action := Option.some.inj hnamed
    have hinverse : ∀ bone ∈ Bake.neck.bones,
        (bone.rest.safeInverse? Bake.Config.usual.inverseBias).isSome = true := by decide +kernel
    exact hunready
      ⟨by decide +kernel, fun i parent hget _ => hinverse parent (List.mem_of_getElem? hget)⟩
  have hfirst : objectsToBake visited ["guest", "stray"] = [] ++ "guest" :: ["stray"] := rfl
  have hsecond : objectsToBake visited ["guest", "stray"] = ["guest"] ++ "stray" :: [] := rfl
  obtain ⟨-, hguestOver, -⟩ := bakeScene_passesOver_iff hfirst hlinked.1 .usual
  obtain ⟨-, hstrayOver, hfailed⟩ := bakeScene_passesOver_iff hsecond hlinked.2 .usual
  exact ⟨hlinked, hguestOver.mpr hready, fun h => hstrayOver.mp h hstalls, hfailed hstalls⟩

end Requests

end Tool

end SceneExport
