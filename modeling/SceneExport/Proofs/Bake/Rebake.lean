import Mathlib
import SceneExport.Proofs.Action.Library
import SceneExport.Proofs.Bake.Independence
import SceneExport.Proofs.Text.Search

/-!
# Baking twice

A bake stores its results in the library that it reads. Results have names that contain the suffix,
and actions with such names are never baked themselves. So results neither feed a later bake nor
stand before the action that another one is baked from: a second bake finds the same actions, and
the rig shows the same for each of them. Its report is that of the first one, and storing the same
results again changes nothing.
-/
namespace SceneExport

open Bake (attempt)

namespace Text

lemma contains_append (text pattern : String) : contains (text ++ pattern) pattern = true := by
  rw [contains_iff, String.toList_append]
  exact (List.suffix_append _ _).isInfix

end Text

namespace Pose.Rig

variable {α : Type} [Metric α]

/-- A new rig with constraints. -/
def equipped (skeleton : Skeleton α) (library : Library α) (bias : α)
    (constraints : List (Nat × Constraint α)) : Rig α :=
  constraints.foldl (fun rig (bone, constraint) => rig.withConstraint bone constraint)
    (new skeleton library bias)

variable {skeleton : Skeleton α} {library library' : Library α} {bias : α}
  {constraints : List (Nat × Constraint α)}

lemma reachable_equipped :
    Reachable skeleton library (equipped skeleton library bias constraints) := by
  unfold equipped
  have hnew : Reachable skeleton library (new skeleton library bias) := .new bias
  generalize new skeleton library bias = rig at hnew ⊢
  induction constraints generalizing rig with
  | nil => exact hnew
  | cons c constraints ih => exact ih _ (hnew.withConstraint c.1 c.2)

/-- The rig over another library. -/
def withLibrary (library : Library α) (rig : Rig α) : Rig α :=
  refresh { rig with library }

lemma equipped_withLibrary (library library' : Library α) :
    equipped skeleton library' bias constraints =
      withLibrary library' (equipped skeleton library bias constraints) := by
  unfold equipped
  have hnew : new skeleton library' bias = withLibrary library' (new skeleton library bias) := rfl
  rw [hnew]
  generalize new skeleton library bias = rig
  induction constraints generalizing rig with
  | nil => rfl
  | cons c constraints ih => exact ih (rig.withConstraint c.1 c.2)

lemma Steady.withLibrary {rig : Rig α} (h : rig.Steady) (library : Library α) :
    (withLibrary library rig).Steady := by
  intro action frame
  rw [← h action frame]
  exact placeFrom_isOk_congr _ _ _ _ _ _ _ rfl rig.skeleton.bones

lemma action_equipped : (equipped skeleton library bias constraints).action = none := by
  unfold equipped
  have hnew : (new skeleton library bias).action = none := rfl
  generalize new skeleton library bias = rig at hnew ⊢
  induction constraints generalizing rig with
  | nil => exact hnew
  | cons c constraints ih => exact ih _ hnew

/-- A new rig has no action that it might not know. -/
lemma knows_action_equipped : (equipped skeleton library bias constraints).Knows
    (equipped skeleton library bias constraints).action := by
  rw [action_equipped]
  exact nofun

/-- A rig over another library shows the same for an action that both libraries find. -/
lemma evaluate_equipped {name : String} (hget : library'.get? name = library.get? name)
    (frame : Int) :
    { equipped skeleton library' bias constraints with action := some name, frame }.evaluate =
      { equipped skeleton library bias constraints with action := some name, frame }.evaluate := by
  have hlibrary := (reachable_equipped : Reachable skeleton library
    (equipped skeleton library bias constraints)).library_eq
  rw [equipped_withLibrary library library']
  generalize equipped skeleton library bias constraints = rig at hlibrary ⊢
  change place rig.bias frame
    (fun bone => basis (library'.get? name) bone.name (Scalar.ofInt frame))
    rig.constraint? rig.skeleton = place rig.bias frame
    (fun bone => basis (rig.library.get? name) bone.name (Scalar.ofInt frame)) rig.constraint?
    rig.skeleton
  rw [hget, hlibrary]

end Pose.Rig

namespace Bake

variable {cfg : Config Float} {library : Library Float} {decompose : Mat4 Float → Transform Float}

lemma isBakedName_bakedName (hsuffix : cfg.suffix ≠ "") (name : String) :
    cfg.isBakedName (cfg.bakedName name) = true := by
  have hnonempty : cfg.suffix.isEmpty = false := by
    rw [← Bool.not_eq_true, String.isEmpty_iff]
    exact hsuffix
  rw [Config.isBakedName, Config.bakedName, hnonempty, Text.contains_append]
  rfl

lemma name_optimize (cfg : Config Float) (action : Action Float) :
    (action.optimize cfg).1.name = action.name := by
  unfold Action.optimize
  cases cfg.cleanKeys <;> rfl

lemma name_of_outcome {σ : Type} {setup : Setup σ Float} {state : σ} {action baked : Action Float}
    (h : outcome setup cfg state action = .ok baked) : baked.name = cfg.bakedName action.name := by
  rcases hrun : (attempt (bakeOne setup cfg action)).run state with ⟨r, after⟩
  obtain rfl : r = .ok baked := by rw [← h, outcome, hrun]
  obtain ⟨-, s₁, -, hrest⟩ := attempt_bind_eq_ok hrun
  cases hrange : FrameRange.ofActionRange action.range with
  | error e =>
    rw [hrange] at hrest
    cases hrest
  | ok range =>
    rw [hrange] at hrest
    obtain ⟨raw, s₂, hraw, hend⟩ := attempt_bind_eq_ok hrest
    obtain ⟨samples, s₃, -, hgroups⟩ := attempt_bind_eq_ok hraw
    cases hend
    rw [name_optimize]
    cases hgroups
    rfl

/-- Each result is named after the action that it was baked from. -/
lemma name_of_mem_collect {σ : Type} {setup : Setup σ Float} {state : σ}
    {actions : List (Action Float)} {b : Action Float}
    (hb : b ∈ (Report.collect (outcome setup cfg state) actions).baked) :
    ∃ a ∈ actions, b.name = cfg.bakedName a.name := by
  obtain ⟨a, ha, hab⟩ := List.mem_filterMap.mp hb
  refine ⟨a, ha, ?_⟩
  cases houtcome : outcome setup cfg state a with
  | error e => simp [houtcome, Except.toOption] at hab
  | ok b' =>
    obtain rfl : b' = b := by simpa [houtcome, Except.toOption] using hab
    exact name_of_outcome houtcome

/-- An action whose name is not that of a result is found as before. -/
lemma get?_apply_of_source {report : Report}
    (hbaked : ∀ b ∈ report.baked, cfg.isBakedName b.name = true) {name : String}
    (hname : cfg.isBakedName name = false) :
    (report.apply library).get? name = library.get? name := by
  have hnone : Library.last? report.baked name = none := by
    rw [← Option.not_isSome_iff_eq_none, Library.last?_isSome]
    rintro ⟨b, hb, rfl⟩
    rw [hbaked b hb] at hname
    cases hname
  rw [Report.apply, Library.get?_foldl_store, hnone, Option.none_or]

/-- Results of a bake are passed over by the next one. -/
lemma validActions_refilled {baked old new : List (Action Float)} {library' : Library Float}
    (hactions : library'.actions = old ++ new) (hrefilled : Library.Refilled baked library old new)
    (hbaked : ∀ b ∈ baked, cfg.isBakedName b.name = true) (wanted : List String) :
    validActions library' wanted cfg = validActions library wanted cfg := by
  unfold validActions
  rw [hactions, List.filter_append]
  have hnew : (new.filter fun a => a.idRoot = .object && !cfg.isBakedName a.name &&
      (wanted.isEmpty || wanted.contains a.name)) = [] := by
    rw [List.filter_eq_nil_iff]
    intro a ha
    simp [hbaked a (hrefilled.mem a ha)]
  rw [hnew, List.append_nil]
  have hkept := hrefilled.kept
  clear hnew hactions hrefilled
  generalize library.actions = entries at hkept ⊢
  induction hkept with
  | nil => rfl
  | @cons a a' xs ys hhead _ ih =>
    rcases hhead with rfl | ⟨hmem, hname⟩
    · rw [List.filter_cons, List.filter_cons, ih]
    · have hskip := hbaked a' hmem
      have hskip' : cfg.isBakedName a.name = true := by rw [← hname, hskip]
      rw [List.filter_cons, List.filter_cons, ih]
      simp [hskip, hskip']

lemma Report.collect_congr {f g : Action Float → Except Error (Action Float)}
    {actions : List (Action Float)} (h : ∀ action ∈ actions, f action = g action) :
    Report.collect f actions = Report.collect g actions := by
  rw [Report.collect, Report.collect, Report.mk.injEq]
  constructor
  · exact List.filterMap_congr fun action haction => by rw [h action haction]
  · exact List.filterMap_congr fun action haction => by rw [h action haction]

/-- A second bake reports what the first one did. -/
lemma attempt_bakeArmature_again {skeleton : Skeleton Float} {bias : Float}
    {constraints : List (Nat × Pose.Constraint Float)} {subject : Subject} {report : Report}
    {rig : Pose.Rig Float} (hsuffix : cfg.suffix ≠ "")
    (hok : (attempt (bakeArmature Pose.Rig.evaluator decompose cfg subject library)).run
      (.equipped skeleton library bias constraints) = (.ok report, rig)) :
    (∀ b ∈ report.baked, ∃ a ∈ validActions library subject.actions cfg,
      b.name = cfg.bakedName a.name) ∧
      (attempt (bakeArmature Pose.Rig.evaluator decompose cfg subject (report.apply library))).run
        (.equipped skeleton (report.apply library) bias constraints) =
          (.ok report, .equipped skeleton (report.apply library) bias constraints) := by
  have hrig : Pose.Rig.Reachable skeleton library (.equipped skeleton library bias constraints) :=
    Pose.Rig.reachable_equipped
  obtain ⟨bones, hcheck, hsteady, haction⟩ :=
    steady_of_bakeArmature hrig.refresh_eq hrig.library_eq hok
  rw [attempt_bakeArmature hcheck hrig.refresh_eq hrig.library_eq hsteady haction] at hok
  have hreport := Except.ok.inj (Prod.mk.inj hok).1
  have hnames : ∀ b ∈ report.baked, ∃ a ∈ validActions library subject.actions cfg,
      b.name = cfg.bakedName a.name := by
    rw [← hreport]
    exact fun b hb => name_of_mem_collect hb
  refine ⟨hnames, ?_⟩
  have hbaked : ∀ b ∈ report.baked, cfg.isBakedName b.name = true := by
    intro b hb
    obtain ⟨a, -, hab⟩ := hnames b hb
    rw [hab, isBakedName_bakedName hsuffix]
  -- the second rig is the first one over the new library
  obtain ⟨old, new, hactions, hrefilled⟩ := Library.exists_refilled library report.baked
  have hagain : Pose.Rig.Reachable skeleton (report.apply library)
      (.equipped skeleton (report.apply library) bias constraints) := Pose.Rig.reachable_equipped
  have hsteady' : (Pose.Rig.equipped skeleton (report.apply library) bias constraints).Steady := by
    rw [Pose.Rig.equipped_withLibrary library]
    exact hsteady.withLibrary _
  have hvalid : validActions (report.apply library) subject.actions cfg =
      validActions library subject.actions cfg :=
    validActions_refilled hactions hrefilled hbaked subject.actions
  rw [attempt_bakeArmature hcheck hagain.refresh_eq hagain.library_eq hsteady'
    Pose.Rig.knows_action_equipped cfg, hvalid]
  refine congrArg (fun r => (Except.ok r, _)) ((Report.collect_congr fun a ha => ?_).trans hreport)
  obtain ⟨hmem, hsource⟩ := List.mem_filter.mp ha
  have hget : (report.apply library).get? a.name = library.get? a.name :=
    get?_apply_of_source hbaked (by simp_all)
  have hknown : (library.get? a.name).isSome := by
    rw [← Library.mem_names_iff]
    exact List.mem_map_of_mem hmem
  refine outcome_congr hsteady rfl cfg ?_ ?_ fun frame => Pose.Rig.evaluate_equipped hget frame
  · intro name hname
    obtain rfl : a.name = name := by simpa using hname
    rwa [hrig.library_eq]
  · intro name hname
    obtain rfl : a.name = name := by simpa using hname
    rwa [hagain.library_eq, hget]

/-- Baking a second time changes nothing: it ends well, reports the same failures and leaves the
library as it is. The first bake names its results after their sources, refills entries where they
stand, and appends the others in the order of the bake. -/
theorem bakeArmature_twice {skeleton : Skeleton Float} {bias : Float}
    {constraints : List (Nat × Pose.Constraint Float)} {subject : Subject} {report : Report}
    {rig : Pose.Rig Float} (hsuffix : cfg.suffix ≠ "")
    (hok : (attempt (bakeArmature Pose.Rig.evaluator decompose cfg subject library)).run
      (.equipped skeleton library bias constraints) = (.ok report, rig)) :
    (∃ report' rig',
      (attempt (bakeArmature Pose.Rig.evaluator decompose cfg subject (report.apply library))).run
        (.equipped skeleton (report.apply library) bias constraints) = (.ok report', rig') ∧
      report'.apply (report.apply library) = report.apply library ∧
      report'.failed = report.failed) ∧
    (∀ b ∈ report.baked, ∃ a ∈ validActions library subject.actions cfg,
      b.name = cfg.bakedName a.name) ∧
    (∀ b ∈ report.baked, (report.apply library).get? b.name = Library.last? report.baked b.name) ∧
    ∃ old new, (report.apply library).actions = old ++ new ∧
      Library.Refilled report.baked library old new := by
  obtain ⟨hnames, hagain⟩ := attempt_bakeArmature_again hsuffix hok
  have happly : report.apply (report.apply library) = report.apply library :=
    Library.foldl_store_foldl_store library report.baked
  exact ⟨⟨report, _, hagain, happly, rfl⟩, hnames,
    fun b hb => Library.get?_foldl_store_of_mem library hb,
    Library.exists_refilled library report.baked⟩

/-- The bake of `gestures` with a head that follows the neck can be repeated. The action that fails
is noted and the other one is baked. -/
theorem gestures_twice :
    ∃ report, (attempt (bakeArmature Pose.Rig.evaluator Transform.decompose Config.usual person
        gestures)).run (.equipped neck gestures 0 [(1, .copy 0)]) =
          (.ok report, .equipped neck gestures 0 [(1, .copy 0)]) ∧
      (report.failed.map Prod.fst = ["shrug"] ∧
        report.baked.map Action.name = [Config.usual.bakedName "nod"]) ∧
      ∃ report' rig',
      (attempt (bakeArmature Pose.Rig.evaluator Transform.decompose Config.usual person
          (report.apply gestures))).run (.equipped neck (report.apply gestures) 0 [(1, .copy 0)]) =
            (.ok report', rig') ∧
        report'.apply (report.apply gestures) = report.apply gestures ∧
        report'.failed = report.failed := by
  have hrig : Pose.Rig.Reachable neck gestures (.equipped neck gestures 0 [(1, .copy 0)]) :=
    Pose.Rig.reachable_equipped
  have hsteady : (Pose.Rig.equipped neck gestures 0 [(1, .copy 0)]).Steady :=
    Pose.Rig.steady_of_isOk none 0 (by decide +kernel)
  have hcheck : person.check = .ok neck := rfl
  have hrun := attempt_bakeArmature hcheck hrig.refresh_eq hrig.library_eq hsteady
    Pose.Rig.knows_action_equipped Config.usual Transform.decompose
  have hsuffix : Config.usual.suffix ≠ "" := by decide +kernel
  exact ⟨_, hrun, ⟨by decide +kernel, by decide +kernel⟩, (bakeArmature_twice hsuffix hrun).1⟩

end Bake

end SceneExport
