import Mathlib
import SceneExport.Proofs.Curve.Segment

/-!
# Bezier segments are solved

The frame runs along a segment as a cubic whose handles were moved between the two keys. Each handle
then lies at some share of the way. The run is the mean of four runs, in which the handles lie on
the keys: both on their own key, both on the other one, or together on one of the two. None of the
four ever decreases, so the mean does not either, also when the handles have crossed.

Bisection therefore ends next to the frame or next to a parameter at which the frame is reached.
That parameter is a real number, since a cubic with rational coefficients may have no rational
solution. The value is a mean of the values of keys and handles and stays among them.
-/
namespace SceneExport

/-- Real numbers with the operations of curves. -/
@[reducible] noncomputable def Scalar.real : Scalar ℝ where
  ofInt := fun n => n
  abs := fun x => |x|
  isFinite := fun _ => true
  order x y := if x < y then .lt else if x = y then .eq else .gt
  decLt := inferInstance
  decLe := inferInstance

lemma Scalar.clamp_mem {x lo hi : ℚ} (h : lo ≤ hi) :
    lo ≤ Scalar.clamp x lo hi ∧ Scalar.clamp x lo hi ≤ hi := by
  unfold Scalar.clamp
  dsimp only
  split_ifs with hlow hhigh hhigh
  · exact ⟨h, le_refl hi⟩
  · exact ⟨le_refl lo, h⟩
  · exact ⟨h, le_refl hi⟩
  · exact ⟨not_lt.mp hlow, not_lt.mp hhigh⟩

namespace Curve

section Run

variable {s t : ℚ}

/-- The run with a handle on each key of its own. -/
lemma ease_le_ease (hs : 0 ≤ s) (hst : s ≤ t) (ht : t ≤ 1) :
    3 * s ^ 2 - 2 * s ^ 3 ≤ 3 * t ^ 2 - 2 * t ^ 3 := by
  have hslope : 0 ≤ 3 * (s + t) - 2 * (s ^ 2 + s * t + t ^ 2) := by
    have hss : s * s ≤ s * 1 := mul_le_mul_of_nonneg_left (hst.trans ht) hs
    have hleft : s * t ≤ s * 1 := mul_le_mul_of_nonneg_left ht hs
    have htt : t * t ≤ t * 1 := mul_le_mul_of_nonneg_left ht (hs.trans hst)
    have hright : t * s ≤ t * 1 := mul_le_mul_of_nonneg_left (hst.trans ht) (hs.trans hst)
    linarith
  have hdiff : 3 * t ^ 2 - 2 * t ^ 3 - (3 * s ^ 2 - 2 * s ^ 3) =
      (t - s) * (3 * (s + t) - 2 * (s ^ 2 + s * t + t ^ 2)) := by ring
  rw [← sub_nonneg, hdiff]
  exact mul_nonneg (sub_nonneg.mpr hst) hslope

/-- The run with handles at the shares `p` and `q` of the way, counted from their own keys, is the
mean of the runs with handles on the keys. -/
lemma cubic_shares (x m p q t : ℚ) : cubic x (x + p * m) (x + m - q * m) (x + m) t =
    x + m * ((1 - p) * (1 - q) * (3 * t ^ 2 - 2 * t ^ 3) + p * (1 - q) * (1 - (1 - t) ^ 3) +
      (1 - p) * q * t ^ 3 + p * q * (((2 * t - 1) ^ 3 + 1) / 2)) := by
  rw [cubic_eq]
  ring

lemma monotoneOn_shares {x m p q : ℚ} (hm : 0 ≤ m) (hp : 0 ≤ p) (hp' : p ≤ 1) (hq : 0 ≤ q)
    (hq' : q ≤ 1) : MonotoneOn (cubic x (x + p * m) (x + m - q * m) (x + m)) (Set.Icc 0 1) := by
  rintro s ⟨hs, -⟩ t ⟨-, ht⟩ hst
  have hown := ease_le_ease hs hst ht
  have hlate : (1 - t) ^ 3 ≤ (1 - s) ^ 3 := pow_le_pow_left₀ (by linarith) (by linarith) 3
  have hearly : s ^ 3 ≤ t ^ 3 := pow_le_pow_left₀ hs hst 3
  have hcrossed : (2 * s - 1) ^ 3 ≤ (2 * t - 1) ^ 3 :=
    (Odd.strictMono_pow ⟨1, rfl⟩).monotone (by linarith)
  have hp'' : 0 ≤ 1 - p := by linarith
  have hq'' : 0 ≤ 1 - q := by linarith
  rw [cubic_shares, cubic_shares]
  gcongr

end Run

/-- Where the frame is at a parameter of the segment from `a` to `b`. -/
def course (a b : Key ℚ) : ℚ → ℚ :=
  cubic a.frame (Scalar.clamp a.right.frame a.frame b.frame)
    (Scalar.clamp b.left.frame a.frame b.frame) b.frame

variable {a b : Key ℚ}

lemma course_zero (a b : Key ℚ) : course a b 0 = a.frame := by
  rw [course, cubic_eq]
  ring

lemma course_one (a b : Key ℚ) : course a b 1 = b.frame := by
  rw [course, cubic_eq]
  ring

theorem monotoneOn_course (h : a.frame < b.frame) : MonotoneOn (course a b) (Set.Icc 0 1) := by
  have hspan : 0 < b.frame - a.frame := sub_pos.mpr h
  obtain ⟨hlow₁, hhigh₁⟩ := Scalar.clamp_mem (x := a.right.frame) h.le
  obtain ⟨hlow₂, hhigh₂⟩ := Scalar.clamp_mem (x := b.left.frame) h.le
  unfold course
  set x₁ := Scalar.clamp a.right.frame a.frame b.frame
  set x₂ := Scalar.clamp b.left.frame a.frame b.frame
  have hshares := monotoneOn_shares (x := a.frame) (m := b.frame - a.frame)
    (p := (x₁ - a.frame) / (b.frame - a.frame)) (q := (b.frame - x₂) / (b.frame - a.frame)) hspan.le
    (div_nonneg (by linarith) hspan.le) ((div_le_one hspan).mpr (by linarith))
    (div_nonneg (by linarith) hspan.le) ((div_le_one hspan).mpr (by linarith))
  rw [div_mul_cancel₀ _ hspan.ne', div_mul_cancel₀ _ hspan.ne'] at hshares
  convert hshares using 2 <;> ring

/-- Where the frame is at a parameter that need not be rational. -/
noncomputable def realCourse (a b : Key ℚ) : ℝ → ℝ :=
  @cubic ℝ Scalar.real a.frame (Scalar.clamp a.right.frame a.frame b.frame : ℚ)
    (Scalar.clamp b.left.frame a.frame b.frame : ℚ) b.frame

lemma cubic_real (p0 p1 p2 p3 τ : ℝ) : @cubic ℝ Scalar.real p0 p1 p2 p3 τ =
    (1 - τ) ^ 3 * p0 + 3 * (1 - τ) ^ 2 * τ * p1 + 3 * (1 - τ) * τ ^ 2 * p2 + τ ^ 3 * p3 := by
  have hone : (((1 : ℕ) : ℤ) : ℝ) = 1 := by norm_num
  have hthree : (((3 : ℕ) : ℤ) : ℝ) = 3 := by norm_num
  change (((1 : ℕ) : ℤ) - τ) * (((1 : ℕ) : ℤ) - τ) * (((1 : ℕ) : ℤ) - τ) * p0 +
    ((3 : ℕ) : ℤ) * (((1 : ℕ) : ℤ) - τ) * (((1 : ℕ) : ℤ) - τ) * τ * p1 +
    ((3 : ℕ) : ℤ) * (((1 : ℕ) : ℤ) - τ) * τ * τ * p2 + τ * τ * τ * p3 = _
  rw [hone, hthree]
  ring

/-- At rational parameters it is the course of the program. -/
lemma realCourse_cast (a b : Key ℚ) (t : ℚ) : realCourse a b t = course a b t := by
  rw [realCourse, cubic_real, course, cubic_eq]
  push_cast
  ring

lemma continuous_realCourse (a b : Key ℚ) : Continuous (realCourse a b) := by
  have heq : realCourse a b = fun τ => _ := funext fun τ => cubic_real _ _ _ _ τ
  rw [heq]
  fun_prop

/-- Between two parameters that enclose a frame the frame is reached. -/
lemma exists_realCourse_eq {frame : ℚ} {i : Bounds} (h : i.Enclose (course a b) frame) :
    ∃ τ : ℝ, i.lo ≤ τ ∧ τ ≤ i.hi ∧ realCourse a b τ = frame := by
  have hlow : realCourse a b i.lo ≤ frame := by
    rw [realCourse_cast]
    exact Rat.cast_le.mpr h.low
  have hhigh : frame ≤ realCourse a b i.hi := by
    rw [realCourse_cast]
    exact Rat.cast_le.mpr h.high
  obtain ⟨τ, ⟨hlo, hhi⟩, hτ⟩ := intermediate_value_Icc (Rat.cast_le.mpr h.lo_le_hi)
    (continuous_realCourse a b).continuousOn ⟨hlow, hhigh⟩
  exact ⟨τ, hlo, hhi, hτ⟩

section Hull

variable {m p0 p1 p2 p3 t : ℚ}

lemma le_cubic (h0 : 0 ≤ t) (h1 : t ≤ 1) (hp0 : m ≤ p0) (hp1 : m ≤ p1) (hp2 : m ≤ p2)
    (hp3 : m ≤ p3) : m ≤ cubic p0 p1 p2 p3 t := by
  have hu : 0 ≤ 1 - t := by linarith
  have hmean : cubic p0 p1 p2 p3 t - m = (1 - t) ^ 3 * (p0 - m) + 3 * (1 - t) ^ 2 * t * (p1 - m) +
      3 * (1 - t) * t ^ 2 * (p2 - m) + t ^ 3 * (p3 - m) := by
    rw [cubic_eq]
    ring
  rw [← sub_nonneg] at hp0 hp1 hp2 hp3 ⊢
  rw [hmean]
  positivity

lemma cubic_neg : cubic (-p0) (-p1) (-p2) (-p3) t = -cubic p0 p1 p2 p3 t := by
  rw [cubic_eq, cubic_eq]
  ring

lemma cubic_le (h0 : 0 ≤ t) (h1 : t ≤ 1) (hp0 : p0 ≤ m) (hp1 : p1 ≤ m) (hp2 : p2 ≤ m)
    (hp3 : p3 ≤ m) : cubic p0 p1 p2 p3 t ≤ m := by
  rw [← neg_le_neg_iff, ← cubic_neg]
  exact le_cubic h0 h1 (neg_le_neg hp0) (neg_le_neg hp1) (neg_le_neg hp2) (neg_le_neg hp3)

end Hull

/-- Along the segment between two keys the frame never decreases, wherever the handles are. For a
frame of the segment every call of the bisection has it between what the two ends of the interval
reach. The bisection ends at a parameter `t` that reaches the frame up to a billionth, or one that
is next to a parameter which reaches it. The value at `t` lies among the values of the keys and the
handles. -/
theorem segment_solves {frame : ℚ} (hspan : a.frame < b.frame) (hlow : a.frame ≤ frame)
    (hhigh : frame ≤ b.frame) :
    MonotoneOn (course a b) (Set.Icc 0 1) ∧
      ∃ k ≤ 47, ∃ t, bisect (course a b) frame 48 0 1 Scalar.half = t ∧
        t = (Bounds.after (course a b) frame k).mid ∧
        (∀ j ≤ k,
          (∃ last, bisect (course a b) frame 48 0 1 Scalar.half = bisect (course a b) frame (48 - j)
            (Bounds.after (course a b) frame j).lo (Bounds.after (course a b) frame j).hi last) ∧
          course a b (Bounds.after (course a b) frame j).lo ≤ frame ∧
          frame ≤ course a b (Bounds.after (course a b) frame j).hi) ∧
        (|course a b t - frame| < 1 / 10 ^ 9 ∨
          ∃ τ : ℝ, 0 ≤ τ ∧ τ ≤ 1 ∧ realCourse a b τ = frame ∧ |t - τ| ≤ 1 / 2 ^ 48) ∧
        segment a b frame = cubic a.value a.right.value b.left.value b.value t ∧
        min (min a.value a.right.value) (min b.left.value b.value) ≤ segment a b frame ∧
        segment a b frame ≤ max (max a.value a.right.value) (max b.left.value b.value) := by
  have henclose := Bounds.enclose_after (course a b) ((course_zero a b).trans_le hlow)
    (hhigh.trans_eq (course_one a b).symm)
  obtain ⟨k, hk, hmid, hcalls, hend⟩ := exists_bisect_eq (course a b) frame 47 ⟨0, 1⟩ Scalar.half
  rw [← Bounds.after] at hmid hend
  have hin := henclose k
  have h0 : 0 ≤ (Bounds.after (course a b) frame k).mid :=
    hin.zero_le.trans (Bounds.lo_le_mid hin.lo_le_hi)
  have h1 : (Bounds.after (course a b) frame k).mid ≤ 1 :=
    (Bounds.mid_le_hi hin.lo_le_hi).trans hin.le_one
  have hvalue : segment a b frame = cubic a.value a.right.value b.left.value b.value
      (Bounds.after (course a b) frame k).mid := by
    rw [← hmid]
    rfl
  refine ⟨monotoneOn_course hspan, k, hk, _, hmid, rfl,
    fun j hj => ⟨hcalls j hj, (henclose j).low, (henclose j).high⟩, ?_, hvalue, ?_, ?_⟩
  · rcases hend with hnear | rfl
    · refine .inl (lt_of_lt_of_eq hnear ?_)
      norm_num
    · obtain ⟨τ, hlo, hhi, hτ⟩ := exists_realCourse_eq hin
      have hwidth := Bounds.hi_sub_lo_after (course a b) frame 47
      refine .inr ⟨τ, (Rat.cast_nonneg.mpr hin.zero_le).trans hlo, hhi.trans ?_, hτ, ?_⟩
      · exact_mod_cast hin.le_one
      · refine (Bounds.abs_mid_sub_le hlo hhi).trans_eq ?_
        rw [hwidth]
        norm_num
  · rw [hvalue]
    exact le_cubic h0 h1 (by simp) (by simp) (by simp) (by simp)
  · rw [hvalue]
    exact cubic_le h0 h1 (by simp) (by simp) (by simp) (by simp)

/-- Two keys whose handles lie far behind the other key, so that they cross. -/
def crossed : Key ℚ × Key ℚ :=
  (⟨0, 0, ⟨0, 0⟩, ⟨25, 5⟩, .bezier⟩, ⟨10, 1, ⟨-15, -3⟩, ⟨10, 1⟩, .bezier⟩)

theorem crossed_segment_solves :
    crossed.1.frame < crossed.2.frame ∧ crossed.1.frame ≤ 4 ∧ 4 ≤ crossed.2.frame ∧
      MonotoneOn (course crossed.1 crossed.2) (Set.Icc 0 1) ∧
      -3 ≤ segment crossed.1 crossed.2 4 ∧ segment crossed.1 crossed.2 4 ≤ 5 := by
  have hspan : crossed.1.frame < crossed.2.frame := by decide
  have hlow : crossed.1.frame ≤ 4 := by decide
  have hhigh : 4 ≤ crossed.2.frame := by decide
  obtain ⟨hmono, _, -, _, -, -, -, -, -, hleast, hmost⟩ := segment_solves hspan hlow hhigh
  refine ⟨hspan, hlow, hhigh, hmono, le_trans ?_ hleast, hmost.trans ?_⟩
  · norm_num [crossed]
  · norm_num [crossed]

end Curve

end SceneExport
