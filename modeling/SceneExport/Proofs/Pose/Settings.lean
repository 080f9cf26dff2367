import Mathlib
import SceneExport.Proofs.Bake.Independence
import SceneExport.Proofs.Pose.Reconstruction

/-!
# Poses of the present settings

A rig is constrained, biased, and set to actions and frames in any order. Some of these calls fail;
a failing one may still change a setting, and it leaves no poses behind. After any history the poses
are those that the settings lead to when they are evaluated from scratch, and there are none if this
evaluation fails.

Evaluation places the bones from front to back, each by the pose of its parent among the bones that
are placed already. It is written down here by rules, and there is no rule for a parent that is not
among them. That the rules still lead to a result for every skeleton is what the order of its bones
is for. Evaluation fails exactly where a bone with children has a rest position without inverse, and
whatever is set makes no difference to that, except for the bias.
-/
namespace SceneExport

open Bake (attempt)

/-- Every bone that is the parent of another has an inverse for its rest position. -/
def Skeleton.ParentsInvert {α : Type} [Scalar α] (s : Skeleton α) (bias : α) : Prop :=
  ∀ p parent, s.bones[p]? = some parent → (∃ child ∈ s.bones, child.parent = some p) →
    (parent.rest.safeInverse? bias).isSome = true

namespace Pose

variable {α : Type} [Metric α]

/-- All that a rig can be set to. -/
structure Settings (α : Type) where
  constraint? : Nat → Option (Constraint α)
  bias : α
  action : Option String
  frame : Int

namespace Settings

/-- What the action adds to the rest position of a bone. -/
def basis (present : Settings α) (library : Library α) (bone : Bone α) : Mat4 α :=
  Pose.basis (present.action.bind library.get?) bone.name (Scalar.ofInt present.frame)

/-- The pose that a constraint on the next bone makes of one, given the poses before it. -/
def constrained (present : Settings α) (before : List (Mat4 α)) (pose : Mat4 α) : Mat4 α :=
  match present.constraint? before.length with
  | some constrain => constrain present.frame pose before
  | none => pose

end Settings

/-- Bones are placed one after another behind those in `placed`. -/
inductive Places (library : Library α) (present : Settings α) :
    (placed : List (Bone α × Mat4 α)) → List (Bone α) → Except Bake.Error (List (Mat4 α)) → Prop
  | done (placed : List (Bone α × Mat4 α)) :
      Places library present placed [] (.ok (placed.map Prod.snd))
  | root {placed : List (Bone α × Mat4 α)} {bone : Bone α} {rest : List (Bone α)}
    {r : Except Bake.Error (List (Mat4 α))} :
    bone.parent = none →
      Places library present (placed ++ [(bone, present.constrained (placed.map Prod.snd)
        (bone.rest * present.basis library bone))]) rest r →
      Places library present placed (bone :: rest) r
  | child {placed : List (Bone α × Mat4 α)} {bone parent : Bone α} {rest : List (Bone α)}
    {r : Except Bake.Error (List (Mat4 α))} {p : Nat} {pose inverse : Mat4 α} :
    bone.parent = some p → placed[p]? = some (parent, pose) →
      parent.rest.safeInverse? present.bias = some inverse →
      Places library present (placed ++ [(bone, present.constrained (placed.map Prod.snd)
        (pose * inverse * bone.rest * present.basis library bone))]) rest r →
      Places library present placed (bone :: rest) r
  | singular {placed : List (Bone α × Mat4 α)} {bone parent : Bone α}
      {rest : List (Bone α)} {p : Nat}
    {pose : Mat4 α} :
    bone.parent = some p → placed[p]? = some (parent, pose) →
    parent.rest.safeInverse? present.bias = none →
      Places library present placed (bone :: rest)
        (.error (.singularMatrix parent.name present.frame))

section Evaluation

variable {library : Library α} {present : Settings α} {placed : List (Bone α × Mat4 α)}
    {bone parent : Bone α}
  {rest bones : List (Bone α)} {r : Except Bake.Error (List (Mat4 α))} {p : Nat}
    {pose inverse : Mat4 α}

/-- The function that evaluates settings, behind bones that are placed. -/
def Settings.place (present : Settings α) (library : Library α) (placed : List (Bone α × Mat4 α))
    (bones : List (Bone α)) : Except Bake.Error (List (Mat4 α)) :=
  placeFrom present.bias present.frame (present.basis library) present.constraint? placed bones

lemma place_cons
    (hpose : inherit present.bias present.frame (present.basis library) placed bone = .ok pose) :
    present.place library placed (bone :: rest) =
      present.place library (placed ++ [(bone, present.constrained (placed.map Prod.snd) pose)])
        rest := by
  simp only [Settings.place, placeFrom, hpose, Settings.constrained, List.length_map]
  rfl

lemma inherit_root (hparent : bone.parent = none) :
    inherit present.bias present.frame (present.basis library) placed bone =
      .ok (bone.rest * present.basis library bone) := by
  simp only [inherit, hparent, Option.bind_none]

lemma inherit_child (hparent : bone.parent = some p) (hplaced : placed[p]? = some (parent, pose))
    (hinverse : parent.rest.safeInverse? present.bias = some inverse) :
    inherit present.bias present.frame (present.basis library) placed bone =
      .ok (pose * inverse * bone.rest * present.basis library bone) := by
  simp only [inherit, hparent, Option.bind_some, hplaced, invert, hinverse]
  rfl

lemma place_singular (hparent : bone.parent = some p) (hplaced : placed[p]? = some (parent, pose))
    (hinverse : parent.rest.safeInverse? present.bias = none) :
    present.place library placed (bone :: rest) =
      .error (.singularMatrix parent.name present.frame) := by
  simp only [Settings.place, placeFrom, inherit, hparent, Option.bind_some, hplaced,
    invert, hinverse]
  rfl

/-- The rules lead to no other result than the function. -/
lemma Places.eq_place (h : Places library present placed bones r) :
    r = present.place library placed bones := by
  induction h with
  | done placed => rfl
  | root hparent _ ih => rw [ih, place_cons (inherit_root hparent)]
  | child hparent hplaced hinverse _ ih =>
    rw [ih, place_cons (inherit_child hparent hplaced hinverse)]
  | singular hparent hplaced hinverse => rw [place_singular hparent hplaced hinverse]

/-- The rules lead to a result for bones that stand in order. -/
lemma places_of_sound {names : List String} (hsound : Skeleton.flawAfter names bones = none)
    (hlength : names.length = placed.length) :
    Places library present placed bones (present.place library placed bones) := by
  induction bones generalizing names placed with
  | nil => exact .done placed
  | cons bone rest ih =>
    obtain ⟨hlt, -, hrest⟩ := Skeleton.flawAfter_cons.mp hsound
    have hnext : ∀ pose, Places library present (placed ++ [(bone, pose)]) rest
        (present.place library (placed ++ [(bone, pose)]) rest) :=
      fun pose =>
        ih hrest (by rw [List.length_cons, List.length_append, hlength, List.length_singleton])
    cases hparent : bone.parent with
    | none =>
      rw [place_cons (inherit_root hparent)]
      exact .root hparent (hnext _)
    | some p =>
      -- the parent stands before the bone, so it is placed already
      have hp : p < placed.length := hlength ▸ hlt p hparent
      have hplaced : placed[p]? = some (placed[p].1, placed[p].2) := List.getElem?_eq_getElem hp
      cases hinverse : placed[p].1.rest.safeInverse? present.bias with
      | none =>
        rw [place_singular hparent hplaced hinverse]
        exact .singular hparent hplaced hinverse
      | some inverse =>
        rw [place_cons (inherit_child hparent hplaced hinverse)]
        exact .child hparent hplaced hinverse (hnext _)

lemma places_iff (skeleton : Skeleton α) :
    Places library present [] skeleton.bones r ↔ r = present.place library [] skeleton.bones :=
  ⟨Places.eq_place, fun h => h ▸ places_of_sound skeleton.sound rfl⟩

omit [Metric α] in
lemma getElem?_fst_append {x : Bone α × Mat4 α} (hx : placed[p]? = some x) :
    (placed.map Prod.fst ++ bones)[p]? = some x.1 := by
  have hp : p < (placed.map Prod.fst).length := by
    rw [List.length_map]
    exact (List.getElem?_eq_some_iff.mp hx).1
  rw [List.getElem?_append_left hp, List.getElem?_map, hx, Option.map_some]

/-- Bones can be placed if and only if the rest positions of all their parents have inverses. -/
lemma Places.isOk_iff (h : Places library present placed bones r) :
    r.isOk = true ↔ ∀ bone ∈ bones, ∀ p parent, bone.parent = some p →
      (placed.map Prod.fst ++ bones)[p]? = some parent →
        (parent.rest.safeInverse? present.bias).isSome = true := by
  induction h with
  | done placed => exact ⟨fun _ bone hbone => by simp at hbone, fun _ => rfl⟩
  | root hparent _ ih =>
    rw [List.map_append, List.append_assoc] at ih
    refine ih.trans ⟨fun h => List.forall_mem_cons.mpr ⟨fun p _ hp => ?_, h⟩, fun h =>
      (List.forall_mem_cons.mp h).2⟩
    rw [hparent] at hp
    cases hp
  | child hparent hplaced hinverse _ ih =>
    rw [List.map_append, List.append_assoc] at ih
    refine ih.trans ⟨fun h => List.forall_mem_cons.mpr ⟨fun q parent hq hget => ?_, h⟩, fun h =>
      (List.forall_mem_cons.mp h).2⟩
    obtain rfl := Option.some.inj (hparent.symm.trans hq)
    obtain rfl := Option.some.inj ((getElem?_fst_append hplaced).symm.trans hget)
    rw [hinverse]
    rfl
  | singular hparent hplaced hinverse =>
    constructor
    · intro h
      cases h
    · intro h
      have hsome := h _ List.mem_cons_self _ _ hparent (getElem?_fst_append hplaced)
      rw [hinverse] at hsome
      cases hsome

lemma isOk_place_iff (present : Settings α) (library : Library α) (skeleton : Skeleton α) :
    (present.place library [] skeleton.bones).isOk = true ↔
      skeleton.ParentsInvert present.bias := by
  rw [((places_iff skeleton).mpr rfl).isOk_iff]
  constructor
  · rintro h p parent hget ⟨child, hchild, hparent⟩
    exact h child hchild p parent hparent hget
  · intro h child hchild p parent hparent hget
    exact h p parent hget ⟨child, hchild, hparent⟩

end Evaluation

/-- What can be done to a rig. -/
inductive Call (α : Type) where
  | constrain (bone : Nat) (constraint : Constraint α)
  | setBias (bias : α)
  | setAction (action : Option String)
  | setFrame (frame : Int)

/-- The settings after a call. A name that the library does not have is not taken over. -/
def Settings.after (library : Library α) (present : Settings α) : Call α → Settings α
  | .constrain bone constraint =>
    { present with constraint? := Function.update present.constraint? bone (some constraint) }
  | .setBias bias => { present with bias }
  | .setAction none => { present with action := none }
  | .setAction (some name) =>
    if (library.get? name).isSome then { present with action := some name } else present
  | .setFrame frame => { present with frame }

namespace Rig

variable {skeleton : Skeleton α} {library : Library α} {rig : Rig α}

/-- How a call goes and the rig after it. -/
def perform (rig : Rig α) : Call α → Except Bake.Error Unit × Rig α
  | .constrain bone constraint => (.ok (), rig.withConstraint bone constraint)
  | .setBias bias => (.ok (), rig.withBias bias)
  | .setAction action => (attempt (setAction action)).run rig
  | .setFrame frame => (attempt (setFrame frame)).run rig

def settings (rig : Rig α) : Settings α :=
  ⟨rig.constraint?, rig.bias, rig.action, rig.frame⟩

lemma evaluate_eq (rig : Rig α) :
    rig.evaluate = rig.settings.place rig.library [] rig.skeleton.bones := rfl

lemma perform_setAction_unknown {name : String} (hname : rig.library.get? name = none) :
    rig.perform (.setAction (some name)) = (.error (.unknownAction name), rig) := by
  rw [perform, setAction, Bake.attempt_bind_ok (Bake.attempt_get rig)]
  simp [Option.filter, hname]

lemma settings_perform (rig : Rig α) (call : Call α) :
    (rig.perform call).2.settings = rig.settings.after rig.library call := by
  cases call with
  | constrain bone constraint =>
    simp only [perform, withConstraint, refresh, settings, Settings.after]
    congr 1
    funext i
    rw [Function.update_apply]
  | setBias bias => rfl
  | setFrame frame =>
    rw [perform, attempt_setFrame]
    rfl
  | setAction action =>
    cases action with
    | none =>
      rw [perform, attempt_setAction (by simp [Knows])]
      rfl
    | some name =>
      cases hname : rig.library.get? name with
      | none =>
        rw [perform_setAction_unknown hname]
        simp [Settings.after, hname]
      | some action =>
        rw [perform, attempt_setAction (by simp [Knows, hname])]
        simp [Settings.after, hname, moved, refresh, settings]

lemma Reachable.perform (h : Reachable skeleton library rig) (call : Call α) :
    Reachable skeleton library (rig.perform call).2 := by
  cases call with
  | constrain bone constraint => exact h.withConstraint bone constraint
  | setBias bias => exact h.withBias bias
  | setAction action => exact h.setAction action
  | setFrame frame => exact h.setFrame frame

/-- The rig after calls one after another. -/
def performAll (rig : Rig α) (calls : List (Call α)) : Rig α :=
  calls.foldl (fun rig call => (rig.perform call).2) rig

lemma Reachable.performAll (h : Reachable skeleton library rig) (calls : List (Call α)) :
    Reachable skeleton library (rig.performAll calls) := by
  induction calls generalizing rig with
  | nil => exact h
  | cons call calls ih => exact ih (h.perform call)

lemma settings_performAll (h : Reachable skeleton library rig) (calls : List (Call α)) :
    (rig.performAll calls).settings = calls.foldl (Settings.after library) rig.settings := by
  induction calls generalizing rig with
  | nil => rfl
  | cons call calls ih =>
    rw [List.foldl_cons, ← h.library_eq, ← settings_perform, h.library_eq]
    exact ih (h.perform call)

/-- Evaluation goes well or not, whatever the rig is set to. -/
lemma map_evaluate_eq_ok_iff (hskeleton : rig.skeleton = skeleton) :
    (rig.evaluate.map fun _ => ()) = .ok () ↔ skeleton.ParentsInvert rig.bias := by
  have hplace : rig.evaluate.isOk = true ↔ rig.skeleton.ParentsInvert rig.bias :=
    isOk_place_iff rig.settings rig.library rig.skeleton
  rw [← hskeleton]
  refine Iff.trans ?_ hplace
  cases rig.evaluate <;> simp [Except.map, Except.isOk, Except.toBool]

/-- After any calls, a rig has the settings that the calls gave it. Its poses are those that
evaluating these settings from scratch leads to, and there are none if this fails. An action that
the library does not have is refused and changes nothing. Otherwise setting an action or a frame
goes well exactly when every bone that is a parent has an inverse for its rest position. -/
theorem performAll_spec (skeleton : Skeleton α) (library : Library α) (bias : α)
    (calls : List (Call α)) :
    let rig := (new skeleton library bias).performAll calls
    let present := calls.foldl (Settings.after library) ⟨fun _ => none, bias, none, 0⟩
    rig.settings = present ∧
    (∃ r, (∀ r', Places library present [] skeleton.bones r' ↔ r' = r) ∧
      rig.poses = r.toOption.getD []) ∧
    (∀ name, library.get? name = none →
      rig.perform (.setAction (some name)) = (.error (.unknownAction name), rig)) ∧
    (∀ frame, (rig.perform (.setFrame frame)).1 = .ok () ↔ skeleton.ParentsInvert present.bias) ∧
    ∀ action, (∀ name ∈ action, (library.get? name).isSome) →
      ((rig.perform (.setAction action)).1 = .ok () ↔ skeleton.ParentsInvert present.bias) := by
  intro rig present
  have hreach : Reachable skeleton library rig := (Reachable.new bias).performAll calls
  have hskeleton := hreach.skeleton_eq
  have hlibrary := hreach.library_eq
  have hsettings : rig.settings = present := settings_performAll (.new bias) calls
  have hbias : rig.bias = present.bias := congrArg Settings.bias hsettings
  refine ⟨hsettings, ⟨rig.evaluate, fun r' => ?_, ?_⟩, fun name hname => ?_, fun frame => ?_,
    fun action haction => ?_⟩
  · rw [places_iff, evaluate_eq, hsettings, hlibrary, hskeleton]
  · exact congrArg Rig.poses hreach.refresh_eq.symm
  · exact perform_setAction_unknown (hlibrary ▸ hname)
  · rw [perform, attempt_setFrame, ← hbias]
    exact map_evaluate_eq_ok_iff hskeleton
  · have hknows : rig.Knows action := by
      rw [Knows, hlibrary]
      exact haction
    rw [perform, attempt_setAction hknows, ← hbias]
    exact map_evaluate_eq_ok_iff hskeleton

end Rig

end Pose

end SceneExport
