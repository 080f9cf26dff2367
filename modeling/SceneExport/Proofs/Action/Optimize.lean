import Mathlib
import SceneExport.Action.Optimize
import SceneExport.Proofs.Curve.Straightening
import SceneExport.Proofs.Number.Distance

/-!
# Optimizing twice

An optimized action is finished: its curves are clean, none of them is dead, and straight parts are
marked. Each of the three passes leaves alone what the ones before it did, because straightening
keeps the values that cleaning and the test for dead channels look at. A finished action is not
changed by optimizing it, and nothing is saved.
-/
namespace SceneExport

variable {α : Type} [Scalar α]

namespace Curve

lemma map_value_markStraight (tolerance : α) (c : Curve α) :
    (c.markStraight tolerance).keys.map Key.value = c.keys.map Key.value := by
  have h := congrArg (List.map Prod.snd) (map_place_markStraight tolerance c)
  rwa [List.map_map, List.map_map] at h

/-- Whether a channel is dead is told from the values of its keys. -/
lemma isDead_markStraight (epsilon tolerance : α) (c : Curve α) :
    (c.markStraight tolerance).isDead epsilon = c.isDead epsilon := by
  have hvalues := map_value_markStraight tolerance c
  have htarget : (c.markStraight tolerance).target = c.target := rfl
  have hindex : (c.markStraight tolerance).index = c.index := rfl
  unfold isDead
  rw [htarget, hindex]
  generalize (c.markStraight tolerance).keys = ks' at hvalues ⊢
  generalize c.keys = ks at hvalues ⊢
  rcases ks with _ | ⟨k, _ | ⟨_, _⟩⟩ <;> rcases ks' with _ | ⟨k', _ | ⟨_, _⟩⟩ <;> simp_all

/-- What optimizing makes of a curve. -/
structure Finished (cfg : Bake.Config α) (c : Curve α) : Prop where
  clean : cfg.cleanKeys = true → c.clean cfg.cleanThreshold = (c, 0)
  alive : c.isDead cfg.identityEpsilon = false
  straight : c.markStraight cfg.linearTolerance = c

end Curve

namespace Action

section Channels

variable {α : Type}

/-- All curves of an action. -/
def channels (a : Action α) : List (Curve α) :=
  a.groups.flatMap Group.channels

lemma channels_mapCurves (f : Curve α → Curve α) (a : Action α) :
    (a.mapCurves f).channels = a.channels.map f := by
  simp [channels, mapCurves, List.flatMap_map, List.map_flatMap]

lemma mapCurves_eq_self {a : Action α} {f : Curve α → Curve α} (h : ∀ c ∈ a.channels, f c = c) :
    a.mapCurves f = a := by
  have hgroup : ∀ g ∈ a.groups, { g with channels := g.channels.map f } = id g := by
    intro g hg
    have hchannels : g.channels.map f = g.channels := by
      rw [List.map_congr_left (g := id) fun c hc => h c (List.mem_flatMap.mpr ⟨g, hg, hc⟩),
        List.map_id]
    rw [hchannels, id]
  rw [mapCurves, List.map_congr_left hgroup, List.map_id]

end Channels

variable {cfg : Bake.Config α} {a : Action α}

lemma channels_removeDead (epsilon : α) (a : Action α) :
    (a.removeDead epsilon).1.channels = a.channels.filter fun c => !c.isDead epsilon := by
  simp [channels, removeDead, List.flatMap_map, List.filter_flatMap]

lemma removeDead_eq_self {epsilon : α} (h : ∀ c ∈ a.channels, c.isDead epsilon = false) :
    a.removeDead epsilon = (a, 0) := by
  have hgroup : ∀ g ∈ a.groups,
      { g with channels := g.channels.filter fun c => !c.isDead epsilon } = id g := by
    intro g hg
    have hchannels : (g.channels.filter fun c => !c.isDead epsilon) = g.channels := by
      rw [List.filter_eq_self]
      intro c hc
      rw [h c (List.mem_flatMap.mpr ⟨g, hg, hc⟩), Bool.not_false]
    rw [hchannels, id]
  simp only [removeDead, List.map_congr_left hgroup, List.map_id, Nat.sub_self]

lemma cleanKeys_eq_self {threshold : α} (h : ∀ c ∈ a.channels, c.clean threshold = (c, 0)) :
    a.cleanKeys threshold = (a, 0) := by
  have hcount : ∀ cs : List (Curve α), (∀ c ∈ cs, c.clean threshold = (c, 0)) →
      cs.foldl (fun total c => total + (c.clean threshold).2) 0 = 0 := by
    intro cs hcs
    induction cs with
    | nil => rfl
    | cons c cs ih =>
      rw [List.foldl_cons, hcs c List.mem_cons_self]
      exact ih fun c hc => hcs c (List.mem_cons_of_mem _ hc)
  rw [cleanKeys, mapCurves_eq_self fun c hc => congrArg Prod.fst (h c hc)]
  exact congrArg (Prod.mk a) (hcount _ h)

/-- A finished action stays as it is. -/
theorem optimize_eq_self (h : ∀ c ∈ a.channels, c.Finished cfg) : a.optimize cfg = (a, ⟨0, 0⟩) := by
  have hclean : (if cfg.cleanKeys then a.cleanKeys cfg.cleanThreshold else (a, 0)) = (a, 0) := by
    split
    · next hkeys => exact cleanKeys_eq_self fun c hc => (h c hc).clean hkeys
    · rfl
  have hliving := removeDead_eq_self fun c hc => (h c hc).alive
  have hstraight := mapCurves_eq_self fun c hc => (h c hc).straight
  simp only [optimize, hclean, hliving, hstraight]

/-- Optimizing finishes every curve that it keeps. -/
theorem finished_of_mem_optimize (hdist : Scalar.DistanceComm α) {c : Curve α}
    (hc : c ∈ (a.optimize cfg).1.channels) : c.Finished cfg := by
  simp only [optimize, channels_mapCurves, channels_removeDead, List.mem_map, List.mem_filter] at hc
  obtain ⟨c₀, ⟨hmem, halive⟩, rfl⟩ := hc
  refine ⟨fun hkeys => ?_, ?_, Curve.markStraight_markStraight _ _⟩
  · simp only [hkeys, if_true, cleanKeys, channels_mapCurves, List.mem_map] at hmem
    obtain ⟨c₁, -, rfl⟩ := hmem
    exact Curve.clean_eq_self hdist (Curve.map_value_markStraight _ _)
  · rw [Curve.isDead_markStraight]
    simpa using halive

/-- On any numbers with a distance, optimizing a second time changes nothing. -/
theorem optimize_optimize_of_distanceComm (hdist : Scalar.DistanceComm α) (cfg : Bake.Config α)
    (a : Action α) : (a.optimize cfg).1.optimize cfg = ((a.optimize cfg).1, ⟨0, 0⟩) :=
  optimize_eq_self fun _ hc => finished_of_mem_optimize hdist hc

/-- Optimizing a second time changes nothing and saves nothing, whatever the curves and the
options. -/
theorem optimize_optimize (cfg : Bake.Config Float) (a : Action Float) :
    (a.optimize cfg).1.optimize cfg = ((a.optimize cfg).1, ⟨0, 0⟩) :=
  optimize_optimize_of_distanceComm Number.distanceComm_float cfg a

end Action

end SceneExport
