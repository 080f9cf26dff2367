import Mathlib
import SceneExport.Bake.FrameRange
import SceneExport.Proofs.Curve.Segment
import SceneExport.Proofs.Curve.Thinning

/-!
# What cleaning leaves of a sampled curve

A bake gives curves with a key at every frame of a range. Cleaning keeps some of these keys. Between
two keys that stay, all values are near that of the first one. The second one is near the last value
before it, so it is within twice the threshold, unless the two keys are neighbours. Behind the last
key that stays all values are near it.
-/
namespace SceneExport

/-- `count` frames from `start` on. -/
def framesFrom (start : Int) : (count : Nat) → List Int
  | 0 => []
  | count + 1 => start :: framesFrom (start + 1) count

lemma framesFrom_eq_map (start : Int) (count : Nat) :
    framesFrom start count = (List.range count).map fun (i : Nat) => start + i := by
  induction count generalizing start with
  | zero => rfl
  | succ count ih =>
    rw [framesFrom, ih, List.range_succ_eq_map, List.map_cons, List.map_map]
    refine congrArg₂ List.cons (by simp) (List.map_congr_left fun i _ => ?_)
    simp only [Function.comp_apply, Nat.succ_eq_add_one, Nat.cast_add, Nat.cast_one]
    ring

lemma Bake.FrameRange.firstFrames_size (range : Bake.FrameRange) :
    range.firstFrames range.size = framesFrom range.start range.size := by
  rw [framesFrom_eq_map, firstFrames, Nat.min_self]

namespace Curve

/-- The key of a sample. -/
def sample {α : Type} [Scalar α] (v : Int → α) (frame : Int) : Key α :=
  .plain (Scalar.ofInt frame) (v frame)

/-- A curve with a key at every frame of a range. -/
def sampled {α : Type} [Scalar α] (target : Target) (index : Nat) (range : Bake.FrameRange)
    (v : Int → α) : Curve α :=
  smooth ⟨target, index, (range.firstFrames range.size).map (sample v)⟩

section Bare

variable {α : Type} [Scalar α]

/-- The key with its handles forgotten. -/
def bare (k : Key α) : Key α :=
  { k with left := ⟨k.frame, k.value⟩, right := ⟨k.frame, k.value⟩ }

/-- New handles do not depend on the old ones. -/
lemma smoothFrom_map_bare (before : Option (Key α)) (ks : List (Key α)) :
    smoothFrom (before.map bare) (ks.map bare) = smoothFrom before ks := by
  induction ks generalizing before with
  | nil => rfl
  | cons k rest ih =>
    have hrest := ih (some k)
    rw [Option.map_some] at hrest
    rw [List.map_cons, smoothFrom, smoothFrom, hrest, List.head?_map]
    cases before <;> cases rest.head? <;> rfl

lemma thinFrom_map_bare (t kept : α) (ks : List (Key α)) :
    thinFrom t kept (ks.map bare) = (thinFrom t kept ks).map bare := by
  induction ks generalizing kept with
  | nil => rfl
  | cons k rest ih =>
    have hrepeats : repeats t kept (bare k) (rest.map bare) = repeats t kept k rest := by
      cases rest <;> rfl
    rw [List.map_cons, thinFrom_cons, thinFrom_cons, hrepeats, ih]
    split
    · rfl
    · rw [List.map_cons, ← ih]
      rfl

lemma thin_map_bare (t : α) (ks : List (Key α)) : thin t (ks.map bare) = (thin t ks).map bare := by
  cases ks with
  | nil => rfl
  | cons first rest =>
    rw [List.map_cons, thin, thin, List.map_cons, ← thinFrom_map_bare]
    rfl

/-- A cleaned curve has the handles of the keys that stayed, whether or not any went. -/
theorem keys_clean_smooth (t : α) (target : Target) (index : Nat) {ks : List (Key α)}
    (hks : ks.map bare = ks) :
    ((smooth ⟨target, index, ks⟩).clean t).1.keys = smoothFrom none (thin t ks) := by
  have hthin : (thin t (smoothFrom none ks)).map bare = thin t ks := by
    rw [← thin_map_bare, map_smoothFrom fun _ _ _ => rfl, hks]
  have hsmooth : smoothFrom none (thin t (smoothFrom none ks)) = smoothFrom none (thin t ks) := by
    rw [← hthin]
    exact (smoothFrom_map_bare none _).symm
  rw [← hsmooth]
  unfold clean
  dsimp only
  split
  · rfl
  · next hremoved =>
    have hsub := thin_sublist t (smoothFrom none ks)
    have hall : thin t (smoothFrom none ks) = smoothFrom none ks := by
      have hle := hsub.length_le
      have hkept : ¬ 0 < (smoothFrom none ks).length - (thin t (smoothFrom none ks)).length :=
        hremoved
      exact hsub.eq_of_length (by omega)
    have hagain : smoothFrom none (smoothFrom none ks) = smoothFrom none ks := by
      have hbare := (smoothFrom_map_bare none (smoothFrom none ks)).symm
      rwa [map_smoothFrom fun _ _ _ => rfl, smoothFrom_map_bare] at hbare
    change thin t (smoothFrom none ks) = _
    rw [hall, hagain]

end Bare

lemma near_iff {t a b : ℚ} : near t a b = true ↔ |a - b| ≤ t := by
  simp only [near, Scalar.abs_rat, decide_eq_true_eq]

/-- Cleaning keeps the samples at `i` and `j` and none in between. -/
structure Gap (v : Int → ℚ) (t : ℚ) (i j : Int) : Prop where
  lt : i < j
  dropped : ∀ k, i < k → k < j → |v k - v i| ≤ t
  ends : i + 1 < j → |v j - v i| ≤ 2 * t

/-- The samples behind one that stays at `i`, those before `start` being dropped already. -/
lemma thinFrom_samples {v : Int → ℚ} {t : ℚ} (count : Nat) {i start : Int} (hlt : i < start)
    (hdropped : ∀ k, i < k → k < start → |v k - v i| ≤ t)
    (hends : 0 < count → i + 1 < start → |v start - v i| ≤ 2 * t) :
    ∃ js, thinFrom t (v i) ((framesFrom start count).map (sample v)) = js.map (sample v) ∧
      (i :: js).IsChain (Gap v t) ∧
      ∀ k, (i :: js).getLast (List.cons_ne_nil i js) < k → k < start + count →
        |v k - v ((i :: js).getLast (List.cons_ne_nil i js))| ≤ t := by
  induction count generalizing i start with
  | zero =>
    refine ⟨[], rfl, .singleton i, fun k hk hk' => hdropped k hk ?_⟩
    simpa using hk'
  | succ count ih =>
    have hrange : ∀ k, k < start + 1 + count ↔ k < start + (count + 1 : Nat) := by
      intro k
      push_cast
      rw [add_assoc, add_comm (1 : Int)]
    rw [framesFrom, List.map_cons, thinFrom_cons]
    split
    · next hrepeats =>
      -- the sample at `start` goes: it is near `v i` and near the one behind it
      have hnear : |v start - v i| ≤ t := by
        cases count <;> simp_all [repeats, framesFrom, sample, Key.plain, near_iff]
      have hnext : 0 < count → |v start - v (start + 1)| ≤ t := by
        intro hcount
        obtain ⟨count, rfl⟩ : ∃ n, count = n + 1 := ⟨count - 1, by omega⟩
        simp only [framesFrom, List.map_cons, repeats, Bool.and_eq_true, near_iff] at hrepeats
        exact hrepeats.2
      have hdropped' : ∀ k, i < k → k < start + 1 → |v k - v i| ≤ t := by
        intro k hk hk'
        by_cases hstart : k = start
        · rw [hstart]
          exact hnear
        · exact hdropped k hk (by omega)
      have hends' : 0 < count → i + 1 < start + 1 → |v (start + 1) - v i| ≤ 2 * t := by
        intro hcount _
        calc |v (start + 1) - v i| = |-(v start - v (start + 1)) + (v start - v i)| := by
              congr 1
              ring
          _ ≤ |-(v start - v (start + 1))| + |v start - v i| := abs_add_le _ _
          _ ≤ 2 * t := by
            rw [abs_neg]
            linarith [hnext hcount]
      obtain ⟨js, hjs, hchain, hlast⟩ := ih (by omega) hdropped' hends'
      exact ⟨js, hjs, hchain, fun k hk hk' => hlast k hk ((hrange k).mpr hk')⟩
    · obtain ⟨js, hjs, hchain, hlast⟩ := ih (lt_add_one start) (fun k hk hk' => by omega)
        (fun _ h => by omega)
      refine ⟨start :: js, ?_, ?_, ?_⟩
      · rw [List.map_cons, ← hjs]
        rfl
      · exact List.isChain_cons_cons.mpr ⟨⟨hlt, hdropped, hends (by omega)⟩, hchain⟩
      · intro k hk hk'
        exact hlast k hk ((hrange k).mpr hk')

/-- What cleaning keeps of a sampled range. -/
theorem thin_samples {v : Int → ℚ} (t : ℚ) (start : Int) (count : Nat) :
    ∃ js, thin t ((framesFrom start (count + 1)).map (sample v)) = (start :: js).map (sample v) ∧
      (start :: js).IsChain (Gap v t) ∧
      ∀ k, (start :: js).getLast (List.cons_ne_nil start js) < k → k < start + (count + 1 : Nat) →
        |v k - v ((start :: js).getLast (List.cons_ne_nil start js))| ≤ t := by
  obtain ⟨js, hjs, hchain, hlast⟩ := thinFrom_samples (v := v) (t := t) count (lt_add_one start)
    (fun k hk hk' => by omega) (fun _ h => by omega)
  refine ⟨js, ?_, hchain, fun k hk hk' => hlast k hk ?_⟩
  · rw [framesFrom, List.map_cons, thin, List.map_cons, ← hjs]
    rfl
  · push_cast at hk'
    omega

end Curve

end SceneExport
