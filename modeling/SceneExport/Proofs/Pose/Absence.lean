import Mathlib
import SceneExport.Bake.Action
import SceneExport.Pose.Rig
import SceneExport.Proofs.Action.Pruning
import SceneExport.Proofs.Basics
import SceneExport.Proofs.Curve.Lookup
import SceneExport.Proofs.Rounding.Whole

/-!
# Dead channels are not missed

A channel without a curve is played at the value that changes nothing, and a dead channel holds a
single key next to that value. Two pieces of code name the value: the test for dead channels and the
default of a rig. They agree on every component, so dropping dead channels moves what a rig samples
by less than the threshold of the test. Other components stay what they were, since a group without
repeated channels has no second channel that could take the place of one that is gone.
-/
namespace SceneExport

variable {α : Type} [Scalar α] {epsilon x : α} {a : Action α} {g : Group α} {target : Target}
    {index : Nat}

/-- A curve with one key has its value everywhere, if the frame can be compared with that of the
key. -/
lemma Curve.evaluate_single {c : Curve α} {k : Key α} (hkeys : c.keys = [k])
    (hx : x ≤ k.frame ∨ k.frame ≤ x) : c.evaluate x = some k.value := by
  have hfirst : c.keys.head? = some k := by rw [hkeys, List.head?_cons]
  have hlast : c.keys.getLast? = some k := by rw [hkeys, List.getLast?_singleton]
  rw [evaluate_eq hfirst hlast]
  by_cases hle : x ≤ k.frame
  · rw [if_pos hle]
  · rw [if_neg hle, if_pos (hx.resolve_left hle)]

namespace Group

/-- The group without its dead channels. -/
def living (epsilon : α) (g : Group α) : Group α :=
  { g with channels := g.channels.filter fun c => !c.isDead epsilon }

/-- No two channels animate the same component. -/
def Distinct {α : Type} (g : Group α) : Prop :=
  (g.channels.map fun c => (c.target, c.index)).Nodup

lemma channel?_living (hdistinct : g.Distinct) (epsilon : α) (target : Target) (index : Nat) :
    (g.living epsilon).channel? target index =
      (g.channel? target index).filter fun c => !c.isDead epsilon := by
  refine find?_filter_of_nodup (fun c => (c.target, c.index)) (k := (target, index)) hdistinct
    fun c => ?_
  simp [isChannel]

end Group

lemma Action.group?_removeDead (epsilon : α) (a : Action α) (bone : String) :
    (a.removeDead epsilon).1.group? bone = (a.group? bone).map (Group.living epsilon) := by
  unfold Action.group? Action.removeDead
  exact List.find?_map ..

namespace Pose

/-- A component of a bone before and after dead channels are dropped from its group: the same, or
close to the value that changes nothing before and that value after. -/
def Unmissed (epsilon : α) (g g' : Group α) (target : Target) (index : Nat)
    (before after : α) : Prop :=
  after = before ∨
    (∃ c, g.channel? target index = some c ∧ c.isDead epsilon = true) ∧
    g'.channel? target index = none ∧
      after = target.identity index ∧ Scalar.abs (before - after) < epsilon

/-- What a rig samples from a group without its dead channels. -/
lemma unmissed_sample (hdistinct : g.Distinct)
    (hcomparable : ∀ c ∈ g.channels, ∀ k ∈ c.keys, x ≤ k.frame ∨ k.frame ≤ x) (target : Target)
    (index : Nat) :
    Unmissed epsilon g (g.living epsilon) target index (sample g x target index)
      (sample (g.living epsilon) x target index) := by
  have hliving := Group.channel?_living hdistinct epsilon target index
  cases hchannel : g.channel? target index with
  | none =>
    rw [hchannel] at hliving
    left
    rw [sample, sample, hliving, hchannel]
    rfl
  | some c =>
    rw [hchannel] at hliving
    cases hdead : c.isDead epsilon with
    | false =>
      left
      rw [sample, sample, hliving, hchannel]
      simp [Option.filter, hdead]
    | true =>
      have hnone : (g.living epsilon).channel? target index = none := by
        rw [hliving]
        simp [Option.filter, hdead]
      obtain ⟨k, hkeys, -, hclose⟩ := Curve.single_of_isDead hdead
      have hmem : c ∈ g.channels := List.mem_of_find?_eq_some hchannel
      have hname : Group.isChannel target index c = true := List.find?_some hchannel
      have hvalue := Curve.evaluate_single hkeys (hcomparable c hmem k (by simp [hkeys]))
      obtain ⟨htarget, hindex⟩ : c.target = target ∧ c.index = index := by
        simpa [Group.isChannel] using hname
      have hbefore : sample g x target index = k.value := by
        rw [sample, hchannel, Option.bind_some, hvalue, Option.getD_some]
      have hafter : sample (g.living epsilon) x target index = target.identity index := by
        rw [sample, hnone]
        rfl
      right
      refine ⟨⟨c, hchannel, hdead⟩, hnone, hafter, ?_⟩
      rw [hbefore, hafter, ← htarget, ← hindex]
      exact hclose

/-- The transform with these components. -/
def assembled {α : Type} (s : Target → Nat → α) : Transform α :=
  ⟨⟨s .location 0, s .location 1, s .location 2⟩,
    ⟨s .quaternion 0, s .quaternion 1, s .quaternion 2, s .quaternion 3⟩,
    ⟨s .scale 0, s .scale 1, s .scale 2⟩⟩

lemma component_assembled (s : Target → Nat → α) (htarget : target ≠ .euler)
    (hindex : index < target.components) :
    (assembled s).component target index = s target index := by
  cases target with
  | location =>
    have hlt : index < 3 := hindex
    interval_cases index <;> rfl
  | quaternion =>
    have hlt : index < 4 := hindex
    interval_cases index <;> rfl
  | scale =>
    have hlt : index < 3 := hindex
    interval_cases index <;> rfl
  | euler => exact absurd rfl htarget

lemma sampleBone_eq (a : Action α) (bone : String) (x : α) :
    sampleBone (some a) bone x = (a.group? bone).map fun g => assembled (sample g x) := by
  rw [Option.map_eq_bind]
  rfl

/-- Dropping dead channels is not seen when an action is played. A bone has a group afterwards if it
had one. Every component of its transform stays the same, or its channel was dropped and it was
closer than `epsilon` to what is sampled without it. -/
theorem sampleBone_removeDead (epsilon : Float) (a : Action Float)
    (hdistinct : ∀ g ∈ a.groups, g.Distinct)
    (hframes : ∀ g ∈ a.groups, ∀ c ∈ g.channels, ∀ k ∈ c.keys, k.frame.isNaN = false)
    (bone : String) (frame : Int) :
    (a.group? bone = none ∧ sampleBone (some a) bone (Scalar.ofInt frame) = none ∧
        sampleBone (some (a.removeDead epsilon).1) bone (Scalar.ofInt frame) = none) ∨
      ∃ g g' before after, a.group? bone = some g ∧ (a.removeDead epsilon).1.group? bone = some g' ∧
        sampleBone (some a) bone (Scalar.ofInt frame) = some before ∧
        sampleBone (some (a.removeDead epsilon).1) bone (Scalar.ofInt frame) = some after ∧
        ∀ target index, target ≠ .euler → index < target.components →
          Unmissed epsilon g g' target index (before.component target index)
            (after.component target index) := by
  rw [sampleBone_eq, sampleBone_eq, Action.group?_removeDead]
  cases hgroup : a.group? bone with
  | none => exact .inl ⟨rfl, rfl, rfl⟩
  | some g =>
    have hmem : g ∈ a.groups := List.mem_of_find?_eq_some hgroup
    refine .inr ⟨g, g.living epsilon, _, _, rfl, rfl, rfl, rfl,
      fun target index htarget hindex => ?_⟩
    rw [component_assembled _ htarget hindex, component_assembled _ htarget hindex]
    refine unmissed_sample (hdistinct g hmem) (fun c hc k hk => ?_) target index
    exact Rounding.le_total_of_isNaN (Rounding.isNaN_ofInt frame) (hframes g hmem c hc k hk)

/-- A head that is hardly moved and that grows. -/
def fidget : Action Float :=
  ⟨"fidget", .object, (1, 5), [⟨"head",
    [⟨.location, 0, [.plain 3 5e-5]⟩, ⟨.scale, 0, [.plain 1 1, .plain 5 2]⟩]⟩]⟩

/-- The movement of `fidget` is dropped, and the growth is played as before. -/
theorem fidget_unmissed :
    ∃ before after, sampleBone (some fidget) "head" (Scalar.ofInt 2) = some before ∧
      sampleBone (some (fidget.removeDead 1e-4).1) "head" (Scalar.ofInt 2) = some after ∧
      before.location.x = 5e-5 ∧ after.location.x = 0 ∧
      Scalar.abs (before.location.x - after.location.x) < (1e-4 : Float) ∧
      after.scale.x = before.scale.x := by
  have hdistinct : ∀ g ∈ fidget.groups, g.Distinct := by
    unfold Group.Distinct
    decide +kernel
  obtain ⟨hnone, -, -⟩ | ⟨g, g', before, after, hg, hg', hbefore, hafter, hsame⟩ :=
    sampleBone_removeDead 1e-4 fidget hdistinct (by decide +kernel) "head" 2
  · cases hnone
  · have hx : (sampleBone (some fidget) "head" (Scalar.ofInt 2)).map (·.location.x) =
        some 5e-5 := by
      decide +kernel
    have hx' : (sampleBone (some (fidget.removeDead 1e-4).1) "head" (Scalar.ofInt 2)).map
        (·.location.x) = some 0 := by
      decide +kernel
    simp only [hbefore, hafter, Option.map_some, Option.some.injEq] at hx hx'
    have hgrows : ((fidget.group? "head").bind (·.channel? .scale 0)).map (·.isDead 1e-4) =
        some false := by
      decide +kernel
    obtain hequal | ⟨-, -, -, hclose⟩ := hsame .location 0 (by decide) (by decide)
    · have hequal : after.location.x = before.location.x := hequal
      rw [hx, hx'] at hequal
      exact absurd hequal (by decide +kernel)
    obtain hscale | ⟨⟨c, hc, hdead⟩, -⟩ := hsame .scale 0 (by decide) (by decide)
    · exact ⟨before, after, hbefore, hafter, hx, hx', hclose, hscale⟩
    · rw [hg, Option.bind_some, hc, Option.map_some, hdead] at hgrows
      cases hgrows

end Pose

end SceneExport
