import Mathlib
import SceneExport.Curve.Evaluate

/-!
# Bisection over exact numbers

A bisection halves an interval of parameters at every step and goes on in the half in which the
frame is reached. That the frame lies between what is reached at the two ends is kept at every step,
for any function and not only for one that never decreases. The loop hands back the middle of the
interval it ends at, either because the frame is next to what is reached there or because no steps
are left.
-/
namespace SceneExport

lemma Scalar.abs_rat (x : ℚ) : Scalar.abs x = |x| := by
  change (if 0 ≤ x then x else -x) = |x|
  split
  · next h => rw [abs_of_nonneg h]
  · next h => rw [abs_of_neg (not_le.mp h)]

namespace Curve

/-- The parameters among which a bisection still searches. -/
structure Bounds where
  lo : ℚ
  hi : ℚ

namespace Bounds

def mid (i : Bounds) : ℚ := (i.lo + i.hi) / 2

/-- The half of the interval in which the frame is reached. -/
def halve (x : ℚ → ℚ) (frame : ℚ) (i : Bounds) : Bounds :=
  if x i.mid < frame then ⟨i.mid, i.hi⟩ else ⟨i.lo, i.mid⟩

/-- The interval that is left of a whole segment after some steps. -/
def after (x : ℚ → ℚ) (frame : ℚ) (steps : Nat) : Bounds :=
  (halve x frame)^[steps] ⟨0, 1⟩

/-- In the middle the frame is next to what is reached. -/
def Near (x : ℚ → ℚ) (frame : ℚ) (i : Bounds) : Prop :=
  |x i.mid - frame| < 1 / 1000000000

/-- The interval is part of a segment, and the frame lies between what is reached at its two
ends. -/
structure Enclose (x : ℚ → ℚ) (frame : ℚ) (i : Bounds) : Prop where
  zero_le : 0 ≤ i.lo
  lo_le_hi : i.lo ≤ i.hi
  le_one : i.hi ≤ 1
  low : x i.lo ≤ frame
  high : frame ≤ x i.hi

variable {x : ℚ → ℚ} {frame : ℚ} {i : Bounds}

lemma lo_le_mid (h : i.lo ≤ i.hi) : i.lo ≤ i.mid := by
  unfold mid
  linarith

lemma mid_le_hi (h : i.lo ≤ i.hi) : i.mid ≤ i.hi := by
  unfold mid
  linarith

lemma Enclose.halve (h : i.Enclose x frame) : (i.halve x frame).Enclose x frame := by
  have hlo := lo_le_mid h.lo_le_hi
  have hhi := mid_le_hi h.lo_le_hi
  unfold Bounds.halve
  split_ifs with hless
  · exact ⟨h.zero_le.trans hlo, hhi, h.le_one, hless.le, h.high⟩
  · exact ⟨h.zero_le, hlo, hhi.trans h.le_one, h.low, not_lt.mp hless⟩

theorem enclose_after (x : ℚ → ℚ) {frame : ℚ} (hlow : x 0 ≤ frame) (hhigh : frame ≤ x 1)
    (steps : Nat) : (after x frame steps).Enclose x frame := by
  induction steps with
  | zero => exact ⟨le_refl 0, zero_le_one, le_refl 1, hlow, hhigh⟩
  | succ steps ih =>
    rw [after, Function.iterate_succ_apply']
    exact ih.halve

lemma hi_sub_lo_halve (x : ℚ → ℚ) (frame : ℚ) (i : Bounds) :
    (i.halve x frame).hi - (i.halve x frame).lo = (i.hi - i.lo) / 2 := by
  unfold halve mid
  split_ifs <;> ring

lemma hi_sub_lo_after (x : ℚ → ℚ) (frame : ℚ) (steps : Nat) :
    (after x frame steps).hi - (after x frame steps).lo = 1 / 2 ^ steps := by
  induction steps with
  | zero => norm_num [after]
  | succ steps ih =>
    rw [after, Function.iterate_succ_apply', hi_sub_lo_halve, ← after, ih, pow_succ, div_div]

/-- Every parameter of an interval, rational or not, is as close to its middle as half of its
width. -/
lemma abs_mid_sub_le {K : Type} [Field K] [LinearOrder K] [IsStrictOrderedRing K] {τ : K}
    (hlo : i.lo ≤ τ) (hhi : τ ≤ i.hi) : |i.mid - τ| ≤ ((i.hi - i.lo : ℚ) : K) / 2 := by
  unfold mid
  push_cast
  rw [abs_le]
  constructor <;> linarith

end Bounds

section Loop

variable (x : ℚ → ℚ) (frame : ℚ)

/-- One step of the loop, from any interval. -/
lemma bisect_succ (steps : Nat) (i : Bounds) (last : ℚ) :
    (i.Near x frame ∧ bisect x frame (steps + 1) i.lo i.hi last = i.mid) ∨
      (¬ i.Near x frame ∧ bisect x frame (steps + 1) i.lo i.hi last =
        bisect x frame steps (i.halve x frame).lo (i.halve x frame).hi i.mid) := by
  have hmid : (Scalar.half * (i.lo + i.hi) : ℚ) = i.mid := by
    change 1 / 2 * (i.lo + i.hi) = (i.lo + i.hi) / 2
    ring
  have hnear : Scalar.abs (x i.mid - frame) < (tolerance : ℚ) ↔ i.Near x frame := by
    rw [Scalar.abs_rat]
    rfl
  simp only [bisect]
  rw [hmid]
  by_cases h : i.Near x frame
  · exact .inl ⟨h, if_pos (hnear.mpr h)⟩
  · refine .inr ⟨h, ?_⟩
    rw [if_neg (mt hnear.mp h), Bounds.halve]
    split_ifs <;> rfl

/-- The loop goes from interval to interval and hands back the middle of the first one at which it
may end. -/
lemma exists_bisect_eq (steps : Nat) (i : Bounds) (last : ℚ) :
    ∃ k ≤ steps, bisect x frame (steps + 1) i.lo i.hi last = ((Bounds.halve x frame)^[k] i).mid ∧
      (∀ j ≤ k, ∃ last', bisect x frame (steps + 1) i.lo i.hi last = bisect x frame (steps + 1 - j)
        ((Bounds.halve x frame)^[j] i).lo ((Bounds.halve x frame)^[j] i).hi last') ∧
      (((Bounds.halve x frame)^[k] i).Near x frame ∨ k = steps) := by
  induction steps generalizing i last with
  | zero =>
    refine ⟨0, le_refl 0, ?_, fun j hj => ⟨last, ?_⟩, .inr rfl⟩
    · rcases bisect_succ x frame 0 i last with ⟨-, heq⟩ | ⟨-, heq⟩ <;> exact heq
    · obtain rfl := Nat.le_zero.mp hj
      rfl
  | succ steps ih =>
    rcases bisect_succ x frame (steps + 1) i last with ⟨hnear, heq⟩ | ⟨-, heq⟩
    · refine ⟨0, Nat.zero_le _, heq, fun j hj => ⟨last, ?_⟩, .inl hnear⟩
      obtain rfl := Nat.le_zero.mp hj
      rfl
    · obtain ⟨k, hk, hmid, hcalls, hend⟩ := ih (i.halve x frame) i.mid
      refine ⟨k + 1, Nat.succ_le_succ hk, heq.trans hmid, fun j hj => ?_,
        hend.imp_right (congrArg (· + 1))⟩
      cases j with
      | zero => exact ⟨last, rfl⟩
      | succ j =>
        obtain ⟨last', hlast⟩ := hcalls j (Nat.le_of_succ_le_succ hj)
        exact ⟨last',
          heq.trans (hlast.trans (by rw [Nat.add_sub_add_right, Function.iterate_succ_apply]))⟩

end Loop

end Curve

end SceneExport
