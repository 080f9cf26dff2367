import Mathlib
import SceneExport.Proofs.Action.Optimize
import SceneExport.Proofs.Curve.Drift

/-!
# Optimizing only prunes

Three passes go over a baked action. Cleaning drops keys and computes handles anew, dead channels
go, and marking straight parts changes interpolations and the heights of handles. None of them moves
a key or changes the order of keys, channels or groups. So what is left of a channel are some of its
keys where they stood, from the first one on, and a channel goes only if cleaning left a single key
of it.
-/
namespace SceneExport

variable {α : Type} [Scalar α]

namespace Curve

variable {cfg : Bake.Config α} {c c' c'' : Curve α}

/-- The curve after cleaning, or as it was if keys are not cleaned. -/
def cleanedBy (cfg : Bake.Config α) (c : Curve α) : Curve α :=
  if cfg.cleanKeys then (c.clean cfg.cleanThreshold).1 else c

/-- `c'` animates the component that `c` does. Its keys are some of those of `c`, the first one
among them, with handles and interpolations of their own. -/
structure Restyled (c c' : Curve α) : Prop where
  target : c'.target = c.target
  index : c'.index = c.index
  places : (c'.keys.map Key.place).Sublist (c.keys.map Key.place)
  first : (c'.keys.map Key.place).head? = (c.keys.map Key.place).head?

/-- Cleaning leaves a single key of a channel that stands for a part of a transform. -/
structure Removable (cfg : Bake.Config α) (c : Curve α) : Prop where
  single : (c.cleanedBy cfg).keys.length = 1
  target : c.target = .location ∨ c.target = .quaternion ∨ c.target = .scale

omit [Scalar α] in
lemma Restyled.refl (c : Curve α) : c.Restyled c := ⟨rfl, rfl, .refl _, rfl⟩

omit [Scalar α] in
lemma Restyled.trans (h : c.Restyled c') (h' : c'.Restyled c'') : c.Restyled c'' :=
  ⟨h'.target.trans h.target, h'.index.trans h.index, h'.places.trans h.places,
    h'.first.trans h.first⟩

lemma head?_thin (t : α) (ks : List (Key α)) : (thin t ks).head? = ks.head? := by
  cases ks <;> rfl

lemma clean_target (t : α) (c : Curve α) :
    (c.clean t).1.target = c.target ∧ (c.clean t).1.index = c.index := by
  simp only [clean]
  split <;> exact ⟨rfl, rfl⟩

lemma restyled_clean (t : α) (c : Curve α) : c.Restyled (c.clean t).1 := by
  obtain ⟨htarget, hindex⟩ := clean_target t c
  refine ⟨htarget, hindex, ?_, ?_⟩
  · rw [map_clean fun _ _ _ => rfl]
    exact (thin_sublist t c.keys).map Key.place
  · rw [map_clean fun _ _ _ => rfl, List.head?_map, List.head?_map, head?_thin]

lemma restyled_cleanedBy (cfg : Bake.Config α) (c : Curve α) : c.Restyled (c.cleanedBy cfg) := by
  unfold cleanedBy
  split
  · exact restyled_clean _ c
  · exact .refl c

lemma restyled_markStraight (tolerance : α) (c : Curve α) :
    c.Restyled (c.markStraight tolerance) := by
  have hplaces := map_place_markStraight tolerance c
  exact ⟨rfl, rfl, by rw [hplaces], by rw [hplaces]⟩

/-- A dead channel has a single key and stands for a part of a transform. -/
lemma single_of_isDead {epsilon : α} (h : c.isDead epsilon = true) :
    ∃ k, c.keys = [k] ∧ c.target ≠ .euler ∧
      Scalar.abs (k.value - c.target.identity c.index) < epsilon := by
  unfold isDead at h
  split at h
  · next k hkeys =>
    rw [Bool.and_eq_true, decide_eq_true_iff, decide_eq_true_iff] at h
    exact ⟨k, hkeys, h⟩
  · cases h

lemma removable_of_isDead {epsilon : α} (h : (c.cleanedBy cfg).isDead epsilon = true) :
    c.Removable cfg := by
  obtain ⟨k, hkeys, htarget, -⟩ := single_of_isDead h
  refine ⟨by rw [hkeys, List.length_singleton], ?_⟩
  rw [(restyled_cleanedBy cfg c).target] at htarget
  cases hc : c.target <;> simp_all

/-- Cleaning counts the keys that it drops. -/
lemma length_clean (t : α) (c : Curve α) :
    c.keys.length = (c.clean t).1.keys.length + (c.clean t).2 := by
  have hkept := congrArg List.length (map_clean (g := Key.place) (fun _ _ _ => rfl) t c)
  rw [List.length_map, List.length_map] at hkept
  have hle := (thin_sublist t c.keys).length_le
  have hcount : (c.clean t).2 = c.keys.length - (thin t c.keys).length := rfl
  omega

end Curve

namespace Group

/-- The channels of a group before and after: each stays, restyled, or is one that may go. -/
inductive Pruned (gone : Curve α → Prop) : List (Curve α) → List (Curve α) → Prop
  | nil : Pruned gone [] []
  | keep {c c' : Curve α} {cs cs' : List (Curve α)} :
    c.Restyled c' → Pruned gone cs cs' → Pruned gone (c :: cs) (c' :: cs')
  | drop {c : Curve α} {cs cs' : List (Curve α)} :
      gone c → Pruned gone cs cs' → Pruned gone (c :: cs) cs'

/-- What the three passes leave of the channels of a group. -/
def optimized (cfg : Bake.Config α) (cs : List (Curve α)) : List (Curve α) :=
  ((cs.map (Curve.cleanedBy cfg)).filter fun c => !c.isDead cfg.identityEpsilon).map
    (Curve.markStraight cfg.linearTolerance)

lemma pruned_optimized (cfg : Bake.Config α) (cs : List (Curve α)) :
    Pruned (Curve.Removable cfg) cs (optimized cfg cs) := by
  induction cs with
  | nil => exact .nil
  | cons c cs ih =>
    cases hdead : (c.cleanedBy cfg).isDead cfg.identityEpsilon with
    | true =>
      have hrest : optimized cfg (c :: cs) = optimized cfg cs := by simp [optimized, hdead]
      rw [hrest]
      exact .drop (Curve.removable_of_isDead hdead) ih
    | false =>
      have hrest : optimized cfg (c :: cs) =
          (c.cleanedBy cfg).markStraight cfg.linearTolerance :: optimized cfg cs := by
        simp [optimized, hdead]
      rw [hrest]
      exact .keep ((Curve.restyled_cleanedBy cfg c).trans (Curve.restyled_markStraight _ _)) ih

end Group

namespace Action

variable {cfg : Bake.Config α} {a : Action α}

/-- The first pass, whether or not keys are cleaned. -/
lemma cleaned_eq (cfg : Bake.Config α) (a : Action α) :
    (if cfg.cleanKeys then a.cleanKeys cfg.cleanThreshold else (a, 0)).1 =
      a.mapCurves (Curve.cleanedBy cfg) := by
  unfold Curve.cleanedBy
  split
  · rfl
  · exact (mapCurves_eq_self fun _ _ => rfl).symm

lemma optimize_eq (cfg : Bake.Config α) (a : Action α) : a.optimize cfg =
    (((a.mapCurves (Curve.cleanedBy cfg)).removeDead cfg.identityEpsilon).1.mapCurves
        (Curve.markStraight cfg.linearTolerance),
      ⟨(if cfg.cleanKeys then a.cleanKeys cfg.cleanThreshold else (a, 0)).2,
        ((a.mapCurves (Curve.cleanedBy cfg)).removeDead cfg.identityEpsilon).2⟩) := by
  rw [← cleaned_eq]
  rfl

lemma groups_optimize (cfg : Bake.Config α) (a : Action α) : (a.optimize cfg).1.groups =
    a.groups.map fun g => { g with channels := Group.optimized cfg g.channels } := by
  rw [optimize_eq]
  simp only [mapCurves, removeDead, List.map_map]
  rfl

omit [Scalar α] in
lemma curveCount_mapCurves (f : Curve α → Curve α) (a : Action α) :
    (a.mapCurves f).curveCount = a.curveCount := by
  have hlength := congrArg List.length (channels_mapCurves f a)
  rwa [List.length_map] at hlength

lemma curveCount_removeDead (epsilon : α) (a : Action α) :
    a.curveCount = (a.removeDead epsilon).1.curveCount + (a.removeDead epsilon).2 := by
  have hlength := congrArg List.length (channels_removeDead epsilon a)
  have hle : (a.removeDead epsilon).1.curveCount ≤ a.curveCount :=
    hlength.trans_le (List.length_filter_le _ _)
  have hcount : (a.removeDead epsilon).2 = a.curveCount - (a.removeDead epsilon).1.curveCount := rfl
  omega

/-- The total of what cleaning counts at each curve. -/
lemma foldl_count (t : α) (cs : List (Curve α)) (n : Nat) :
    n + (cs.map fun c => c.keys.length).sum =
      (cs.map fun c => (c.clean t).1.keys.length).sum +
        cs.foldl (fun total c => total + (c.clean t).2) n := by
  induction cs generalizing n with
  | nil => simp
  | cons c cs ih =>
    rw [List.foldl_cons, List.map_cons, List.map_cons, List.sum_cons, List.sum_cons]
    have hrest := ih (n + (c.clean t).2)
    have hfirst := c.length_clean t
    omega

lemma keys_optimize (cfg : Bake.Config α) (a : Action α) :
    (a.channels.map fun c => c.keys.length).sum =
      (a.channels.map fun c => (c.cleanedBy cfg).keys.length).sum + (a.optimize cfg).2.keys := by
  rw [optimize_eq]
  unfold Curve.cleanedBy
  split
  · have hcount := foldl_count cfg.cleanThreshold a.channels 0
    rwa [Nat.zero_add] at hcount
  · rfl

/-- Optimizing keeps the name, the kind and the range of an action and the names of its groups. Of
the channels of a group some are left in their order, each with some of its keys where they stood
and the first of them. A channel goes only if cleaning left it a single key of a location, a
quaternion or a scale. The keys that cleaning dropped and the channels that went are counted. -/
theorem optimize_prunes (cfg : Bake.Config α) (a : Action α) :
    (a.optimize cfg).1.name = a.name ∧ (a.optimize cfg).1.idRoot = a.idRoot ∧
      (a.optimize cfg).1.range = a.range ∧
      List.Forall₂ (fun g g' => g'.name = g.name ∧
        Group.Pruned (Curve.Removable cfg) g.channels g'.channels) a.groups
          (a.optimize cfg).1.groups ∧
      (a.channels.map fun c => c.keys.length).sum =
        (a.channels.map fun c => (c.cleanedBy cfg).keys.length).sum + (a.optimize cfg).2.keys ∧
      a.curveCount = (a.optimize cfg).1.curveCount + (a.optimize cfg).2.channels := by
  refine ⟨?_, ?_, ?_, ?_, keys_optimize cfg a, ?_⟩
  · rw [optimize_eq]
    rfl
  · rw [optimize_eq]
    rfl
  · rw [optimize_eq]
    rfl
  · rw [groups_optimize, List.forall₂_map_right_iff, List.forall₂_same]
    exact fun g _ => ⟨rfl, Group.pruned_optimized cfg g.channels⟩
  · have hcount := curveCount_removeDead cfg.identityEpsilon (a.mapCurves (Curve.cleanedBy cfg))
    rw [curveCount_mapCurves] at hcount
    rw [optimize_eq, curveCount_mapCurves]
    exact hcount

end Action

end SceneExport
