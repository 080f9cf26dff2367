import Mathlib
import SceneExport.Bake.Armature
import SceneExport.Pose.Rig
import SceneExport.Proofs.Basics

/-!
# Bakes that do not influence each other

A rig is one machine that is led from action to action while an armature is baked. A bake may fail
at any frame, and the next one starts from the state in which it was left. Still every action has
the outcome that it has alone, since a rig remembers nothing but its settings: its poses are always
those of the present action and frame, and no bake reads a pose before it has set both.

Whether a rig can be evaluated at all depends on the rest positions of its bones, not on the action
or the frame. So if it can be set back at the end, it never failed in between.
-/
namespace SceneExport

namespace Bake

variable {σ β γ : Type}

@[simp] theorem attempt_pure (b : β) (s : σ) : (attempt (pure b)).run s = (.ok b, s) := rfl

@[simp] theorem attempt_throw (e : Error) (s : σ) :
    (attempt (throw e : Step σ β)).run s = (.error e, s) := rfl

@[simp] theorem attempt_get (s : σ) : (attempt (get : Step σ σ)).run s = (.ok s, s) := rfl

@[simp] theorem attempt_liftM (m : StateM σ β) (s : σ) :
    (attempt (liftM m : Step σ β)).run s = (.ok (m.run s).1, (m.run s).2) := rfl

lemma attempt_bind (m : Step σ β) (f : β → Step σ γ) (s : σ) :
    (attempt (m >>= f)).run s = match (attempt m).run s with
      | (.ok b, s') => (attempt (f b)).run s'
      | (.error e, s') => (.error e, s') := by
  change (ExceptT.run (m >>= f)).run s = _
  simp only [ExceptT.run_bind, StateT.run_bind]
  unfold attempt
  rcases m.run.run s with ⟨_ | b, s'⟩ <;> rfl

lemma attempt_bind_ok {m : Step σ β} {f : β → Step σ γ} {s s' : σ} {b : β}
    (hm : (attempt m).run s = (.ok b, s')) :
    (attempt (m >>= f)).run s = (attempt (f b)).run s' := by
  rw [attempt_bind, hm]

lemma attempt_bind_error {m : Step σ β} {f : β → Step σ γ} {s s' : σ} {e : Error}
    (hm : (attempt m).run s = (.error e, s')) : (attempt (m >>= f)).run s = (.error e, s') := by
  rw [attempt_bind, hm]

lemma attempt_bind_eq_ok {m : Step σ β} {f : β → Step σ γ} {s s' : σ} {c : γ}
    (h : (attempt (m >>= f)).run s = (.ok c, s')) :
    ∃ b s₁, (attempt m).run s = (.ok b, s₁) ∧ (attempt (f b)).run s₁ = (.ok c, s') := by
  rw [attempt_bind] at h
  rcases hm : (attempt m).run s with ⟨e | b, s₁⟩
  · rw [hm] at h
    cases h
  · rw [hm] at h
    exact ⟨b, s₁, rfl, h⟩

end Bake

open Bake (attempt)

namespace Pose

section Kinematics

variable {α : Type} [Scalar α] {placed placed' : List (Bone α × Mat4 α)}

lemma inherit_isOk_congr (bias : α) (frame frame' : Int) (basis basis' : Bone α → Mat4 α)
    (hbones : placed.map Prod.fst = placed'.map Prod.fst) (bone : Bone α) :
    (inherit bias frame basis placed bone).isOk =
      (inherit bias frame' basis' placed' bone).isOk := by
  have hparent : (bone.parent.bind (placed[·]?)).map Prod.fst =
      (bone.parent.bind (placed'[·]?)).map Prod.fst := by
    cases bone.parent with
    | none => rfl
    | some p => simpa using congrArg (·[p]?) hbones
  unfold inherit
  generalize bone.parent.bind (placed[·]?) = above at hparent
  generalize bone.parent.bind (placed'[·]?) = above' at hparent
  rcases above with _ | ⟨parent, pose⟩ <;> rcases above' with _ | ⟨parent', pose'⟩
  · exact (isOk_pure _).trans (isOk_pure _).symm
  · cases hparent
  · cases hparent
  · obtain rfl : parent = parent' := Option.some.inj hparent
    simp only [isOk_bind_pure, invert]
    cases parent.rest.safeInverse? bias <;> rfl

/-- Whether bones can be placed depends on where they rest and on nothing else. -/
lemma placeFrom_isOk_congr (bias : α) (frame frame' : Int) (basis basis' : Bone α → Mat4 α)
    (constraint? constraint?' : Nat → Option (Constraint α))
    (hbones : placed.map Prod.fst = placed'.map Prod.fst) (bones : List (Bone α)) :
    (placeFrom bias frame basis constraint? placed bones).isOk =
      (placeFrom bias frame' basis' constraint?' placed' bones).isOk := by
  induction bones generalizing placed placed' with
  | nil => rfl
  | cons bone rest ih =>
    have hinherit := inherit_isOk_congr bias frame frame' basis basis' hbones bone
    unfold placeFrom
    cases hpose : inherit bias frame basis placed bone with
    | error e =>
      cases hpose' : inherit bias frame' basis' placed' bone with
      | error e' => rfl
      | ok pose' => simp [hpose, hpose', Except.isOk, Except.toBool] at hinherit
    | ok pose =>
      cases hpose' : inherit bias frame' basis' placed' bone with
      | error e' => simp [hpose, hpose', Except.isOk, Except.toBool] at hinherit
      | ok pose' => exact ih (by rw [List.map_append, List.map_append, hbones]; rfl)

end Kinematics

variable {α : Type} [Metric α]

namespace Rig

/-- The rig with another action at another frame. -/
def moved (rig : Rig α) (action : Option String) (frame : Int) : Rig α :=
  refresh { rig with action, frame }

lemma moved_moved (rig : Rig α) (action action' : Option String) (frame frame' : Int) :
    (rig.moved action frame).moved action' frame' = rig.moved action' frame' := rfl

/-- The states that a rig over these data can be brought into. -/
inductive Reachable (skeleton : Skeleton α) (library : Library α) : Rig α → Prop
  | new (bias : α) : Reachable skeleton library (new skeleton library bias)
  | withConstraint {rig : Rig α} (bone : Nat) (constraint : Constraint α) :
    Reachable skeleton library rig → Reachable skeleton library (rig.withConstraint bone constraint)
  | withBias {rig : Rig α} (bias : α) :
    Reachable skeleton library rig → Reachable skeleton library (rig.withBias bias)
  | setAction {rig : Rig α} (action : Option String) :
    Reachable skeleton library rig →
      Reachable skeleton library ((attempt (setAction action)).run rig).2
  | setFrame {rig : Rig α} (frame : Int) :
    Reachable skeleton library rig →
    Reachable skeleton library ((attempt (setFrame frame)).run rig).2

lemma attempt_install (rig s : Rig α) :
    (attempt (install rig)).run s = (rig.evaluate.map fun _ => (), rig.refresh) := by
  unfold install
  cases rig.evaluate <;> rfl

lemma attempt_setFrame (frame : Int) (rig : Rig α) :
    (attempt (setFrame frame)).run rig =
      ({ rig with frame }.evaluate.map fun _ => (), rig.moved rig.action frame) := by
  rw [setFrame, Bake.attempt_bind_ok (Bake.attempt_get rig), attempt_install]
  rfl

/-- The action can be set: it is none or one of the library. -/
def Knows (rig : Rig α) (action : Option String) : Prop :=
  ∀ name ∈ action, (rig.library.get? name).isSome

lemma attempt_setAction {action : Option String} {rig : Rig α} (hknows : rig.Knows action) :
    (attempt (setAction action)).run rig =
      ({ rig with action }.evaluate.map fun _ => (), rig.moved action rig.frame) := by
  have hnone : (action.filter fun name => (rig.library.get? name).isNone) = none := by
    cases action with
    | none => rfl
    | some name => simpa [Option.filter] using Option.isSome_iff_ne_none.mp (hknows name rfl)
  rw [setAction, Bake.attempt_bind_ok (Bake.attempt_get rig), hnone, attempt_install]
  rfl

lemma attempt_setAction_unknown {action : Option String} {rig : Rig α}
    (hknows : ¬ rig.Knows action) :
    ∃ e, (attempt (setAction action)).run rig = (.error e, rig) := by
  cases action with
  | none => exact absurd (by simp [Knows]) hknows
  | some name =>
    have hnone : (rig.library.get? name).isNone = true := by
      simpa [Knows] using hknows
    refine ⟨.unknownAction name, ?_⟩
    rw [setAction, Bake.attempt_bind_ok (Bake.attempt_get rig)]
    simp [Option.filter, hnone]

/-- In every state the poses are those of the settings. -/
lemma Reachable.refresh_eq {skeleton : Skeleton α} {library : Library α} {rig : Rig α}
    (h : Reachable skeleton library rig) : rig.refresh = rig := by
  induction h with
  | new | withConstraint | withBias => rfl
  | @setAction rig action _ ih =>
    by_cases hknows : rig.Knows action
    · rw [attempt_setAction hknows]
      rfl
    · obtain ⟨e, he⟩ := attempt_setAction_unknown hknows
      rw [he]
      exact ih
  | @setFrame rig frame _ ih =>
    rw [attempt_setFrame]
    rfl

/-- Whatever is done to a rig, it stays one over the same data. -/
lemma Reachable.data_eq {skeleton : Skeleton α} {library : Library α} {rig : Rig α}
    (h : Reachable skeleton library rig) : rig.skeleton = skeleton ∧ rig.library = library := by
  induction h with
  | new => exact ⟨rfl, rfl⟩
  | withConstraint _ _ _ ih => exact ih
  | withBias _ _ ih => exact ih
  | @setAction rig action _ ih =>
    by_cases hknows : rig.Knows action
    · rw [attempt_setAction hknows]
      exact ih
    · obtain ⟨e, he⟩ := attempt_setAction_unknown hknows
      rw [he]
      exact ih
  | @setFrame rig frame _ ih =>
    rw [attempt_setFrame]
    exact ih

lemma Reachable.skeleton_eq {skeleton : Skeleton α} {library : Library α} {rig : Rig α}
    (h : Reachable skeleton library rig) : rig.skeleton = skeleton :=
  h.data_eq.1

lemma Reachable.library_eq {skeleton : Skeleton α} {library : Library α} {rig : Rig α}
    (h : Reachable skeleton library rig) : rig.library = library :=
  h.data_eq.2

/-- The rig can be evaluated, whatever it is set to. -/
def Steady (rig : Rig α) : Prop :=
  ∀ action frame, { rig with action, frame }.evaluate.isOk = true

lemma steady_of_isOk {rig : Rig α} (action : Option String) (frame : Int)
    (h : { rig with action, frame }.evaluate.isOk = true) : rig.Steady := by
  intro action' frame'
  rw [← h]
  exact placeFrom_isOk_congr _ _ _ _ _ _ _ rfl rig.skeleton.bones

lemma Steady.moved {rig : Rig α} (h : rig.Steady) (action : Option String) (frame : Int) :
    (rig.moved action frame).Steady := h

lemma Steady.attempt_setFrame {rig : Rig α} (h : rig.Steady) (frame : Int) :
    (attempt (setFrame frame)).run rig = (.ok (), rig.moved rig.action frame) := by
  rw [Rig.attempt_setFrame, map_unit_of_isOk (h rig.action frame)]

lemma Steady.attempt_setAction {rig : Rig α} (h : rig.Steady) {action : Option String}
    (hknows : rig.Knows action) :
    (attempt (setAction action)).run rig = (.ok (), rig.moved action rig.frame) := by
  rw [Rig.attempt_setAction hknows, map_unit_of_isOk (h action rig.frame)]

/-- The rig plays an animation: at each frame it has the poses given there, and it has them now. -/
structure Plays (animation : Int → Except Bake.Error (List (Mat4 α))) (rig : Rig α) : Prop where
  current : rig.refresh = rig
  evaluate : ∀ frame, { rig with frame }.evaluate = animation frame

lemma Plays.moved {animation : Int → Except Bake.Error (List (Mat4 α))} {rig : Rig α}
    (h : Plays animation rig) (frame : Int) : Plays animation (rig.moved rig.action frame) :=
  ⟨rfl, h.evaluate⟩

end Rig

end Pose

namespace Bake

variable {rig : Pose.Rig Float} {setup : Setup (Pose.Rig Float) Float}
  {decompose : Mat4 Float → Transform Float}

/-- What becomes of an action that is baked in a state. -/
def outcome {σ : Type} (setup : Setup σ Float) (cfg : Config Float) (state : σ)
    (action : Action Float) : Except Error (Action Float) :=
  ((attempt (bakeOne setup cfg action)).run state).1

/-- The step has one outcome for all rigs that play the animation, and changes nothing but the
frame. -/
def Depends {β : Type} (animation : Int → Except Error (List (Mat4 Float)))
    (step : Step (Pose.Rig Float) β) : Prop :=
  ∃ r, ∀ rig, rig.Plays animation → ∃ frame,
    (attempt step).run rig = (r, rig.moved rig.action frame)

section Depends

variable {animation : Int → Except Error (List (Mat4 Float))} {β γ : Type}

lemma Depends.bind {m : Step (Pose.Rig Float) β} {f : β → Step (Pose.Rig Float) γ}
    (hm : Depends animation m) (hf : ∀ b, Depends animation (f b)) :
    Depends animation (m >>= f) := by
  obtain ⟨r, hm⟩ := hm
  cases r with
  | error e =>
    refine ⟨.error e, fun rig hrig => ?_⟩
    obtain ⟨frame, hrun⟩ := hm rig hrig
    exact ⟨frame, attempt_bind_error hrun⟩
  | ok b =>
    obtain ⟨r', hf⟩ := hf b
    refine ⟨r', fun rig hrig => ?_⟩
    obtain ⟨frame, hrun⟩ := hm rig hrig
    obtain ⟨frame', hrun'⟩ := hf _ (hrig.moved frame)
    exact ⟨frame', by rw [attempt_bind_ok hrun, hrun']; rfl⟩

lemma depends_pure (b : β) : Depends animation (pure b) :=
  ⟨.ok b, fun rig hrig => ⟨rig.frame, by rw [attempt_pure]; exact congrArg _ hrig.current.symm⟩⟩

lemma depends_throw (e : Error) : Depends animation (throw e : Step (Pose.Rig Float) β) :=
  ⟨.error e, fun rig hrig => ⟨rig.frame, by rw [attempt_throw]; exact congrArg _ hrig.current.symm⟩⟩

/-- A bake learns of a state by its poses only. -/
lemma sampleBone_congr {σ : Type} {setup : Setup σ Float} {state state' : σ}
    (hposes : setup.evaluator.pose? state = setup.evaluator.pose? state') (bias : Float)
    (frame : Int) (bone : Bone Float) (i : Nat) :
    sampleBone setup bias state frame bone i = sampleBone setup bias state' frame bone i := by
  have hpose : readPose setup state = readPose setup state' := by
    funext frame bone i
    rw [readPose, hposes, readPose]
  have hparent : readParent setup state frame bone = readParent setup state' frame bone := by
    rw [readParent, hpose, readParent]
  rw [sampleBone, hpose, hparent, sampleBone]

/-- A frame is set before its poses are read. -/
lemma depends_sampleFrame (hsetup : setup.evaluator = Pose.Rig.evaluator) (bias : Float)
    (bones : List (Bone Float × Nat)) (frame : Int) :
    Depends animation (sampleFrame setup bias bones frame) := by
  have hset : ∀ rig : Pose.Rig Float, rig.Plays animation →
      (attempt (setup.evaluator.setFrame frame)).run rig =
        ((animation frame).map fun _ => (), rig.moved rig.action frame) := by
    intro rig hrig
    rw [hsetup, ← hrig.evaluate frame]
    exact Pose.Rig.attempt_setFrame frame rig
  cases hposes : animation frame with
  | error e =>
    rw [hposes] at hset
    exact ⟨.error e, fun rig hrig => ⟨frame, attempt_bind_error (hset rig hrig)⟩⟩
  | ok poses =>
    rw [hposes] at hset
    have hpose : ∀ rig : Pose.Rig Float, rig.Plays animation →
        setup.evaluator.pose? (rig.moved rig.action frame) = fun i => poses[i]? := by
      intro rig hrig
      have hnow : { rig with frame }.evaluate = .ok poses := by rw [hrig.evaluate, hposes]
      rw [hsetup]
      funext i
      change ({ rig with frame }.evaluate.toOption.getD [])[i]? = poses[i]?
      rw [hnow]
      rfl
    by_cases hany : ∃ rig : Pose.Rig Float, rig.Plays animation
    · obtain ⟨shown, hshown⟩ := hany
      refine ⟨bones.mapM fun (bone, i) =>
        sampleBone setup bias (shown.moved shown.action frame) frame bone i,
          fun rig hrig => ⟨frame, ?_⟩⟩
      have hsample : ∀ x : Bone Float × Nat,
          sampleBone setup bias (rig.moved rig.action frame) frame x.1 x.2 =
            sampleBone setup bias (shown.moved shown.action frame) frame x.1 x.2 :=
        fun x => sampleBone_congr ((hpose rig hrig).trans (hpose shown hshown).symm) bias
          frame x.1 x.2
      rw [sampleFrame, attempt_bind_ok (hset rig hrig), attempt_bind_ok (attempt_get _)]
      simp only [hsample]
      generalize (bones.mapM fun x =>
        sampleBone setup bias (shown.moved shown.action frame) frame x.1 x.2) = r
      cases r <;> rfl
    · exact ⟨.ok [], fun rig hrig => absurd ⟨rig, hrig⟩ hany⟩

lemma depends_sampleFrames (hsetup : setup.evaluator = Pose.Rig.evaluator) (bias : Float)
    (bones : List (Bone Float × Nat)) (count : Nat) (frame : Int) :
    Depends animation (sampleFrames setup bias bones count frame) := by
  induction count generalizing frame with
  | zero => exact depends_pure []
  | succ count ih =>
    exact (depends_sampleFrame hsetup bias bones frame).bind fun _ =>
      (ih (frame + 1)).bind fun _ => depends_pure _

/-- What is left of a bake once the action is set. -/
lemma depends_bake (animation : Int → Except Error (List (Mat4 Float)))
    (hsetup : setup.evaluator = Pose.Rig.evaluator) (cfg : Config Float) (action : Action Float) :
    Depends animation
      (match FrameRange.ofActionRange action.range with
        | .error e => throw e
        | .ok range => do
          let baked ← bakeAction setup cfg (cfg.bakedName action.name) range
          return (baked.optimize cfg).1) := by
  cases FrameRange.ofActionRange action.range with
  | error e => exact depends_throw e
  | ok range =>
    exact Depends.bind ((depends_sampleFrames hsetup _ _ _ _).bind fun _ => depends_pure _)
      fun _ => depends_pure _

end Depends

/-- A bake leaves a rig among its own states, however it ends. -/
lemma exists_attempt_bakeOne (hcurrent : rig.refresh = rig)
    (hsetup : setup.evaluator = Pose.Rig.evaluator) (cfg : Config Float) (action : Action Float) :
    ∃ r after frame, (attempt (bakeOne setup cfg action)).run rig = (r, rig.moved after frame) := by
  by_cases hknows : rig.Knows (some action.name)
  · have hset : (attempt (setup.evaluator.setAction (some action.name))).run rig =
        ({ rig with action := some action.name }.evaluate.map fun _ => (),
          rig.moved (some action.name) rig.frame) := by
      rw [hsetup]
      exact Pose.Rig.attempt_setAction hknows
    cases hposes : { rig with action := some action.name }.evaluate with
    | error e =>
      rw [hposes] at hset
      exact ⟨_, _, _, attempt_bind_error hset⟩
    | ok poses =>
      rw [hposes] at hset
      obtain ⟨r, hrest⟩ := depends_bake
        (fun frame => { rig with action := some action.name, frame }.evaluate) hsetup cfg action
      obtain ⟨frame, hrun⟩ := hrest (rig.moved (some action.name) rig.frame) ⟨rfl, fun _ => rfl⟩
      exact ⟨r, some action.name, frame, by rw [bakeOne, attempt_bind_ok hset]; exact hrun⟩
  · obtain ⟨e, he⟩ := Pose.Rig.attempt_setAction_unknown hknows
    have hset : (attempt (setup.evaluator.setAction (some action.name))).run rig =
        (.error e, rig) := by
      rw [hsetup]
      exact he
    refine ⟨.error e, rig.action, rig.frame, ?_⟩
    rw [bakeOne, attempt_bind_error hset]
    exact congrArg _ hcurrent.symm

/-- The outcome of a bake depends on what the rig shows while the action is played. -/
lemma outcome_congr {rig rig' : Pose.Rig Float} (hsteady : rig.Steady)
    (hsetup : setup.evaluator = Pose.Rig.evaluator) (cfg : Config Float) {action : Action Float}
    (hknows : rig.Knows (some action.name)) (hknows' : rig'.Knows (some action.name))
    (hsame : ∀ frame, { rig' with action := some action.name, frame }.evaluate =
      { rig with action := some action.name, frame }.evaluate) :
    outcome setup cfg rig' action = outcome setup cfg rig action := by
  have hsteady' : rig'.Steady :=
    Pose.Rig.steady_of_isOk (some action.name) 0 (by rw [hsame 0, hsteady])
  obtain ⟨r, hrest⟩ :=
    depends_bake (fun frame => { rig with action := some action.name, frame }.evaluate)
    hsetup cfg action
  have houtcome : ∀ shown : Pose.Rig Float, shown.Steady → shown.Knows (some action.name) →
      (∀ frame, { shown with action := some action.name, frame }.evaluate =
        { rig with action := some action.name, frame }.evaluate) →
      outcome setup cfg shown action = r := by
    intro shown hshown hknown heval
    have hset : (attempt (setup.evaluator.setAction (some action.name))).run shown =
        (.ok (), shown.moved (some action.name) shown.frame) := by
      rw [hsetup]
      exact hshown.attempt_setAction hknown
    obtain ⟨frame, hrun⟩ := hrest (shown.moved (some action.name) shown.frame) ⟨rfl, heval⟩
    rw [outcome, bakeOne, attempt_bind_ok hset]
    exact congrArg Prod.fst hrun
  rw [houtcome rig' hsteady' hknows' hsame, houtcome rig hsteady hknows fun _ => rfl]

/-- Actions that are baked behind others have the outcomes they have alone. The rig is left among
its own states in any case. -/
lemma exists_bakeEach (rig : Pose.Rig Float) (hsetup : setup.evaluator = Pose.Rig.evaluator)
    (cfg : Config Float) (actions : List (Action Float)) (report : Report) (before : Option String)
    (frame : Int) :
    ∃ report' after frame', (bakeEach setup cfg report actions).run (rig.moved before frame) =
      (report', rig.moved after frame') ∧
      (rig.Steady → (∀ action ∈ actions, rig.Knows (some action.name)) → report' =
        actions.foldl (fun r action => r.add action.name (outcome setup cfg rig action))
          report) := by
  induction actions generalizing report before frame with
  | nil => exact ⟨report, before, frame, rfl, fun _ _ => rfl⟩
  | cons action rest ih =>
    have hcurrent : (rig.moved before frame).refresh = rig.moved before frame := rfl
    obtain ⟨r, after, frame', hrun⟩ := exists_attempt_bakeOne hcurrent hsetup cfg action
    rw [Pose.Rig.moved_moved] at hrun
    obtain ⟨report', after', frame'', hrest, hreport⟩ := ih (report.add action.name r) after frame'
    refine ⟨report', after', frame'', ?_, fun hsteady hknows => ?_⟩
    · rw [bakeEach, StateT.run_bind, hrun]
      exact hrest
    · have houtcome : r = outcome setup cfg rig action := by
        have hknown := hknows action List.mem_cons_self
        have hmoved : (rig.moved before frame).Knows (some action.name) := hknown
        rw [← outcome_congr hsteady hsetup cfg hknown hmoved fun _ => rfl, outcome, hrun]
      rw [hreport hsteady fun a ha => hknows a (List.mem_cons_of_mem _ ha),
        List.foldl_cons, houtcome]

/-- The report on actions with these outcomes. -/
def Report.collect (outcome : Action Float → Except Error (Action Float))
    (actions : List (Action Float)) : Report where
  baked := actions.filterMap fun action => (outcome action).toOption
  failed := actions.filterMap fun action =>
    match outcome action with
    | .ok _ => none
    | .error e => some (action.name, e)

lemma Report.foldl_add (outcome : Action Float → Except Error (Action Float))
    (actions : List (Action Float)) (report : Report) :
    actions.foldl (fun r action => r.add action.name (outcome action)) report =
      ⟨report.baked ++ (collect outcome actions).baked,
        report.failed ++ (collect outcome actions).failed⟩ := by
  induction actions generalizing report with
  | nil => simp [collect]
  | cons action rest ih =>
    rw [List.foldl_cons, ih]
    cases houtcome : outcome action <;> simp [houtcome, Report.add, collect, Except.toOption]

/-- A bake of an armature ends with setting the rig back. -/
lemma exists_attempt_bakeArmature {library : Library Float} {subject : Subject}
    {skeleton : Skeleton Float} (hcheck : subject.check = .ok skeleton)
    (hcurrent : rig.refresh = rig) (hlibrary : rig.library = library) (cfg : Config Float) :
    ∃ report after frame,
    (attempt (bakeArmature Pose.Rig.evaluator decompose cfg subject library)).run rig =
      (attempt (do
        Pose.Rig.setAction rig.action
        Pose.Rig.setFrame rig.frame
        return report)).run (rig.moved after frame) ∧
      (rig.Steady → report = .collect
        (outcome ⟨skeleton, Pose.Rig.evaluator, decompose⟩ cfg rig)
        (validActions library subject.actions cfg)) := by
  let setup : Setup (Pose.Rig Float) Float := ⟨skeleton, Pose.Rig.evaluator, decompose⟩
  have hsetup : setup.evaluator = Pose.Rig.evaluator := rfl
  obtain ⟨report, after, frame, hrun, hreport⟩ := exists_bakeEach rig hsetup cfg
    (validActions library subject.actions cfg) ⟨[], []⟩ rig.action rig.frame
  have hrig : rig.moved rig.action rig.frame = rig := hcurrent
  rw [hrig] at hrun
  refine ⟨report, after, frame, ?_, fun hsteady => ?_⟩
  · unfold bakeArmature
    rw [hcheck]
    rw [attempt_bind_ok (attempt_get rig), attempt_bind_ok (attempt_liftM _ rig), hrun]
    rfl
  · rw [hreport hsteady, Report.foldl_add]
    · rfl
    · intro action haction name hname
      obtain rfl : action.name = name := by simpa using hname
      rw [hlibrary, Library.get?, List.find?_isSome]
      exact ⟨action, (List.mem_filter.mp haction).1, by simp⟩

/-- A bake that can set the rig back leaves it as it was and reports each action with the outcome it
has alone. -/
lemma attempt_bakeArmature {library : Library Float} {subject : Subject} {skeleton : Skeleton Float}
    (hcheck : subject.check = .ok skeleton) (hcurrent : rig.refresh = rig)
    (hlibrary : rig.library = library) (hsteady : rig.Steady) (haction : rig.Knows rig.action)
    (cfg : Config Float) (decompose : Mat4 Float → Transform Float) :
    (attempt (bakeArmature Pose.Rig.evaluator decompose cfg subject library)).run rig =
      (.ok (.collect (outcome ⟨skeleton, Pose.Rig.evaluator, decompose⟩ cfg rig)
        (validActions library subject.actions cfg)), rig) := by
  obtain ⟨report, after, frame, hrun, hreport⟩ :=
    exists_attempt_bakeArmature hcheck hcurrent hlibrary cfg
  have hset : (attempt (Pose.Rig.setAction rig.action)).run (rig.moved after frame) =
      (.ok (), rig.moved rig.action frame) :=
    (hsteady.moved after frame).attempt_setAction haction
  have hback : (attempt (Pose.Rig.setFrame rig.frame)).run (rig.moved rig.action frame) =
      (.ok (), rig) := by
    rw [(hsteady.moved rig.action frame).attempt_setFrame rig.frame]
    exact congrArg _ hcurrent
  rw [hrun, attempt_bind_ok hset, attempt_bind_ok hback, attempt_pure, hreport hsteady]

/-- A bake ends well only where the rig can be set back. -/
lemma steady_of_bakeArmature {library : Library Float} {subject : Subject} {report : Report}
    {rig' : Pose.Rig Float} (hcurrent : rig.refresh = rig) (hlibrary : rig.library = library)
    {cfg : Config Float}
    (hok : (attempt (bakeArmature Pose.Rig.evaluator decompose cfg subject library)).run rig =
      (.ok report, rig')) :
    ∃ skeleton, subject.check = .ok skeleton ∧ rig.Steady ∧ rig.Knows rig.action := by
  cases hcheck : subject.check with
  | error e =>
    unfold bakeArmature at hok
    rw [hcheck] at hok
    cases hok
  | ok skeleton =>
    obtain ⟨report', after, frame, hrun, -⟩ :=
      exists_attempt_bakeArmature hcheck hcurrent hlibrary cfg
    rw [hrun] at hok
    have hknows : (rig.moved after frame).Knows rig.action := by
      by_contra hunknown
      obtain ⟨e, he⟩ := Pose.Rig.attempt_setAction_unknown hunknown
      rw [attempt_bind_error he] at hok
      cases hok
    refine ⟨skeleton, rfl, ?_, hknows⟩
    have hset := Pose.Rig.attempt_setAction hknows
    cases hpose : { rig.moved after frame with action := rig.action }.evaluate with
    | error e =>
      rw [hpose] at hset
      rw [attempt_bind_error hset] at hok
      cases hok
    | ok poses =>
      exact Pose.Rig.steady_of_isOk rig.action frame (congrArg Except.isOk hpose)

/-- A bake that ends well leaves the rig as it was. Each action that can be baked is reported once,
in the order of the library, with the outcome that it has alone from the state before the bake. -/
theorem bakeArmature_independent {skeleton : Skeleton Float} {library : Library Float}
    {rig rig' : Pose.Rig Float} (hrig : Pose.Rig.Reachable skeleton library rig)
    {cfg : Config Float} {subject : Subject} {report : Report}
    (hok : (attempt (bakeArmature Pose.Rig.evaluator decompose cfg subject library)).run rig =
      (.ok report, rig')) :
    rig' = rig ∧ ∃ baked, subject.check = .ok baked ∧ report = .collect
      (outcome ⟨baked, Pose.Rig.evaluator, decompose⟩ cfg rig)
      (validActions library subject.actions cfg) := by
  have hcurrent := hrig.refresh_eq
  have hlibrary := hrig.library_eq
  obtain ⟨baked, hcheck, hsteady, haction⟩ := steady_of_bakeArmature hcurrent hlibrary hok
  rw [attempt_bakeArmature hcheck hcurrent hlibrary hsteady haction cfg] at hok
  obtain ⟨hreport, rfl⟩ := Prod.mk.inj hok
  exact ⟨rfl, baked, hcheck, (Except.ok.inj hreport).symm⟩

/-- A head on a neck. -/
def neck : Skeleton Float :=
  ⟨[⟨"neck", .identity, none, true⟩, ⟨"head", .identity, some 0, true⟩], rfl⟩

/-- An action that has no last frame and cannot be baked. -/
def shrug : Action Float := ⟨"shrug", .object, (1, 1 / 0), []⟩

/-- The action that fails, and one behind it. -/
def gestures : Library Float :=
  ⟨[shrug, ⟨"nod", .object, (1, 1), []⟩]⟩

/-- A rig in the middle of an action. -/
def posing : Pose.Rig Float :=
  ((attempt (Pose.Rig.setFrame 7)).run
    ((attempt (Pose.Rig.setAction (some "nod"))).run (Pose.Rig.new neck gestures 0)).2).2

def person : Subject := ⟨"person", some neck, true, false, []⟩

/-- The bake of `gestures` notes the action that fails and bakes the one behind it, and the rig
stays in the middle of its action. -/
theorem gestures_independent :
    ∃ report, (attempt (bakeArmature Pose.Rig.evaluator Transform.decompose Config.usual person
        gestures)).run posing = (.ok report, posing) ∧
      report =
        .collect (outcome ⟨neck, Pose.Rig.evaluator, Transform.decompose⟩ Config.usual posing)
        (validActions gestures person.actions Config.usual) ∧
      report.failed.map Prod.fst = ["shrug"] ∧
      report.baked.map Action.name = [Config.usual.bakedName "nod"] := by
  have hrig : Pose.Rig.Reachable neck gestures posing :=
    .setFrame 7 (.setAction (some "nod") (.new 0))
  have hsteady : posing.Steady := Pose.Rig.steady_of_isOk none 0 (by decide +kernel)
  have haction : posing.Knows posing.action := by
    have hnod : posing.action = some "nod" := by decide +kernel
    intro name hname
    obtain rfl : "nod" = name := by simpa [hnod] using hname
    decide +kernel
  have hcheck : person.check = .ok neck := rfl
  have hrun :=
    attempt_bakeArmature hcheck hrig.refresh_eq hrig.library_eq hsteady haction Config.usual
    Transform.decompose
  obtain ⟨-, skeleton, hskeleton, hreport⟩ := bakeArmature_independent hrig hrun
  obtain rfl : neck = skeleton := Except.ok.inj hskeleton
  exact ⟨_, hrun, hreport, by decide +kernel, by decide +kernel⟩

end Bake

end SceneExport
