import Mathlib
import SceneExport.Proofs.Curve.Bisection

/-!
# Bezier segments with handles at the thirds

Where the handles of two keys lie at the thirds of the way between them, the frame runs evenly along
the segment, and bisection finds the parameter of a frame up to a billionth. The value is a mean of
the two keys and the two handles, with weights that are small for the handles far from the frame. So
a segment stays as close to its first key as its handles and its second key do.
-/
namespace SceneExport

lemma Scalar.clamp_rat {x lo hi : ℚ} (hlo : lo ≤ x) (hhi : x ≤ hi) : Scalar.clamp x lo hi = x := by
  simp only [Scalar.clamp, if_neg (not_lt.mpr hlo), if_neg (not_lt.mpr hhi)]

namespace Curve

/-- The cubic seen from its first control value. -/
lemma cubic_eq (p0 p1 p2 p3 t : ℚ) :
    cubic p0 p1 p2 p3 t = p0 + (3 * (1 - t) ^ 2 * t * (p1 - p0) +
      3 * (1 - t) * t ^ 2 * (p2 - p0) + t ^ 3 * (p3 - p0)) := by
  change (1 - t) * (1 - t) * (1 - t) * p0 + 3 * (1 - t) * (1 - t) * t * p1 +
    3 * (1 - t) * t * t * p2 + t * t * t * p3 = _
  ring

/-- Control values at even distances give an even run. -/
lemma cubic_thirds (x m t : ℚ) : cubic x (x + m / 3) (x + m - m / 3) (x + m) t = x + m * t := by
  rw [cubic_eq]
  ring

section Weights

variable {t d₁ d₂ d₃ : ℚ}

/-- The deviation of a cubic from its first control value is at most the mean of the deviations of
the others. -/
lemma abs_weighted_le (h0 : 0 ≤ t) (h1 : t ≤ 1) :
    |3 * (1 - t) ^ 2 * t * d₁ + 3 * (1 - t) * t ^ 2 * d₂ + t ^ 3 * d₃| ≤
      3 * (1 - t) ^ 2 * t * |d₁| + 3 * (1 - t) * t ^ 2 * |d₂| + t ^ 3 * |d₃| := by
  have hu : 0 ≤ 1 - t := by linarith
  have hw₁ : 0 ≤ 3 * (1 - t) ^ 2 * t := by positivity
  have hw₂ : 0 ≤ 3 * (1 - t) * t ^ 2 := by positivity
  have hw₃ : 0 ≤ t ^ 3 := by positivity
  calc |3 * (1 - t) ^ 2 * t * d₁ + 3 * (1 - t) * t ^ 2 * d₂ + t ^ 3 * d₃|
      ≤ |3 * (1 - t) ^ 2 * t * d₁| + |3 * (1 - t) * t ^ 2 * d₂| + |t ^ 3 * d₃| :=
        abs_add_three _ _ _
    _ = 3 * (1 - t) ^ 2 * t * |d₁| + 3 * (1 - t) * t ^ 2 * |d₂| + t ^ 3 * |d₃| := by
      rw [abs_mul _ d₁, abs_mul _ d₂, abs_mul _ d₃, abs_of_nonneg hw₁, abs_of_nonneg hw₂,
        abs_of_nonneg hw₃]

/-- The handle at the first key weighs four ninths at most. -/
lemma weight_le (h1 : t ≤ 1) : 3 * (1 - t) ^ 2 * t ≤ 4 / 9 := by
  nlinarith [sq_nonneg (3 * t - 1)]

/-- A cubic stays near its first control value if the others do; what the second one deviates more
counts by four ninths. -/
lemma abs_cubic_sub_le (h0 : 0 ≤ t) (h1 : t ≤ 1) {p0 p1 p2 p3 r e : ℚ} (hr : 0 ≤ r) (he : 0 ≤ e)
    (hp1 : |p1 - p0| ≤ r + e) (hp2 : |p2 - p0| ≤ r) (hp3 : |p3 - p0| ≤ r) :
    |cubic p0 p1 p2 p3 t - p0| ≤ r + 4 / 9 * e := by
  have hu : 0 ≤ 1 - t := by linarith
  have hw₁ : 0 ≤ 3 * (1 - t) ^ 2 * t := by positivity
  have hw₂ : 0 ≤ 3 * (1 - t) * t ^ 2 := by positivity
  have hw₃ : 0 ≤ t ^ 3 := by positivity
  have hu₃ : 0 ≤ (1 - t) ^ 3 := by positivity
  rw [cubic_eq, add_sub_cancel_left]
  calc |3 * (1 - t) ^ 2 * t * (p1 - p0) + 3 * (1 - t) * t ^ 2 * (p2 - p0) + t ^ 3 * (p3 - p0)|
      ≤ 3 * (1 - t) ^ 2 * t * |p1 - p0| + 3 * (1 - t) * t ^ 2 * |p2 - p0| + t ^ 3 * |p3 - p0| :=
        abs_weighted_le h0 h1
    _ ≤ 3 * (1 - t) ^ 2 * t * (r + e) + 3 * (1 - t) * t ^ 2 * r + t ^ 3 * r := by gcongr
    _ = r - (1 - t) ^ 3 * r + 3 * (1 - t) ^ 2 * t * e := by ring
    _ ≤ r + 4 / 9 * e := by
      have hrest := mul_nonneg hu₃ hr
      have hslack := mul_le_mul_of_nonneg_right (weight_le h1) he
      linarith

/-- Close to its start a cubic is close to its first control value. -/
lemma abs_cubic_sub_le_of_start (h0 : 0 ≤ t) (h1 : t ≤ 1) {p0 p1 p2 p3 r : ℚ} (hp1 : |p1 - p0| ≤ r)
    (hp2 : |p2 - p0| ≤ r) (hp3 : |p3 - p0| ≤ r) : |cubic p0 p1 p2 p3 t - p0| ≤ 3 * t * r := by
  have hr : 0 ≤ r := (abs_nonneg _).trans hp3
  have hu : 0 ≤ 1 - t := by linarith
  have hw : 0 ≤ t ^ 2 * (3 - t) := mul_nonneg (sq_nonneg t) (by linarith)
  rw [cubic_eq, add_sub_cancel_left]
  calc |3 * (1 - t) ^ 2 * t * (p1 - p0) + 3 * (1 - t) * t ^ 2 * (p2 - p0) + t ^ 3 * (p3 - p0)|
      ≤ 3 * (1 - t) ^ 2 * t * |p1 - p0| + 3 * (1 - t) * t ^ 2 * |p2 - p0| + t ^ 3 * |p3 - p0| :=
        abs_weighted_le h0 h1
    _ ≤ 3 * (1 - t) ^ 2 * t * r + 3 * (1 - t) * t ^ 2 * r + t ^ 3 * r := by gcongr
    _ = 3 * t * r - t ^ 2 * (3 - t) * r := by ring
    _ ≤ 3 * t * r := by
      have hrest := mul_nonneg hw hr
      linarith

end Weights

/-- Forty-eight steps find the parameter of a frame up to a billionth, over one frame or more. -/
lemma bisect_close {x m τ : ℚ} (hm : 1 ≤ m) (h0 : 0 ≤ τ) (h1 : τ ≤ 1) :
    0 ≤ bisect (fun t => x + m * t) (x + m * τ) 48 0 1 Scalar.half ∧
      bisect (fun t => x + m * t) (x + m * τ) 48 0 1 Scalar.half ≤ 1 ∧
      |bisect (fun t => x + m * t) (x + m * τ) 48 0 1 Scalar.half - τ| ≤ 1 / 1000000000 := by
  have hpos : 0 < m := by linarith
  obtain ⟨k, -, hmid, -, hend⟩ :=
    exists_bisect_eq (fun t => x + m * t) (x + m * τ) 47 ⟨0, 1⟩ Scalar.half
  rw [hmid, ← Bounds.after]
  rw [← Bounds.after] at hend
  have hstart : x + m * 0 ≤ x + m * τ := by simpa using mul_nonneg hpos.le h0
  have hstop : x + m * τ ≤ x + m * 1 := by simpa using mul_le_of_le_one_right hpos.le h1
  have hin := Bounds.enclose_after (fun t => x + m * t) hstart hstop k
  have hwidth := Bounds.hi_sub_lo_after (fun t => x + m * t) (x + m * τ) k
  set i := Bounds.after (fun t => x + m * t) (x + m * τ) k
  have hlo : i.lo ≤ τ := le_of_mul_le_mul_left (le_of_add_le_add_left hin.low) hpos
  have hhi : τ ≤ i.hi := le_of_mul_le_mul_left (le_of_add_le_add_left hin.high) hpos
  refine ⟨hin.zero_le.trans (Bounds.lo_le_mid hin.lo_le_hi),
    (Bounds.mid_le_hi hin.lo_le_hi).trans hin.le_one, ?_⟩
  rcases hend with hnear | rfl
  · refine le_of_lt ?_
    calc |i.mid - τ| ≤ m * |i.mid - τ| := le_mul_of_one_le_left (abs_nonneg _) hm
      _ = |x + m * i.mid - (x + m * τ)| := by
        rw [show x + m * i.mid - (x + m * τ) = m * (i.mid - τ) by ring, abs_mul, abs_of_pos hpos]
      _ < 1 / 1000000000 := hnear
  · refine (Bounds.abs_mid_sub_le (by simpa using hlo) (by simpa using hhi)).trans ?_
    rw [hwidth]
    norm_num

section Between

variable {a b : Key ℚ} {x : ℚ}

/-- The handles between two keys lie at the thirds of the way. -/
structure Thirds (a b : Key ℚ) : Prop where
  right : a.right.frame = a.frame + (b.frame - a.frame) / 3
  left : b.left.frame = b.frame - (b.frame - a.frame) / 3

/-- The value of a segment is that of the cubic at the parameter of the frame, up to a billionth of
the way. -/
lemma segment_eq_cubic (h : Thirds a b) (hspan : 1 ≤ b.frame - a.frame) (hlow : a.frame ≤ x)
    (hhigh : x ≤ b.frame) :
    ∃ t, 0 ≤ t ∧ t ≤ 1 ∧ |t - (x - a.frame) / (b.frame - a.frame)| ≤ 1 / 1000000000 ∧
      segment a b x = cubic a.value a.right.value b.left.value b.value t := by
  have hpos : 0 < b.frame - a.frame := by linarith
  have hx : x = a.frame + (b.frame - a.frame) * ((x - a.frame) / (b.frame - a.frame)) := by
    rw [mul_div_cancel₀ _ hpos.ne']
    ring
  have hrun : (fun t => cubic a.frame (Scalar.clamp a.right.frame a.frame b.frame)
      (Scalar.clamp b.left.frame a.frame b.frame) b.frame t) =
        fun t => a.frame + (b.frame - a.frame) * t := by
    funext t
    rw [h.right, h.left, Scalar.clamp_rat (by linarith) (by linarith),
      Scalar.clamp_rat (by linarith) (by linarith), ← cubic_thirds]
    congr 1 <;> ring
  obtain ⟨h0, h1, hclose⟩ := bisect_close (x := a.frame) hspan
    (div_nonneg (sub_nonneg.mpr hlow) hpos.le) ((div_le_one hpos).mpr (by linarith))
  rw [← hx, ← hrun] at h0 h1 hclose
  exact ⟨_, h0, h1, hclose, rfl⟩

/-- What runs between two keys stays near the first one as far as the second one and the handles are
near it. -/
theorem abs_between_sub_le (h : Thirds a b) (hspan : 1 ≤ b.frame - a.frame) (hlow : a.frame ≤ x)
    (hhigh : x ≤ b.frame) {r e : ℚ} (he : 0 ≤ e) (hend : |b.value - a.value| ≤ r)
    (hkind : a.interpolation ≠ .constant)
    (hbezier : a.interpolation = .bezier →
      |a.right.value - a.value| ≤ r + e ∧ |b.left.value - a.value| ≤ r) :
    |between a b x - a.value| ≤ r + 4 / 9 * e := by
  have hr : 0 ≤ r := (abs_nonneg _).trans hend
  have hpos : 0 < b.frame - a.frame := by linarith
  simp only [between, if_neg (not_le.mpr hpos)]
  cases hinter : a.interpolation with
  | constant => exact absurd hinter hkind
  | linear =>
    have hτ : 0 ≤ (x - a.frame) / (b.frame - a.frame) := div_nonneg (sub_nonneg.mpr hlow) hpos.le
    have hτ' : (x - a.frame) / (b.frame - a.frame) ≤ 1 := (div_le_one hpos).mpr (by linarith)
    simp only [add_sub_cancel_left]
    rw [abs_mul, abs_of_nonneg hτ]
    have hle := mul_le_of_le_one_right (abs_nonneg (b.value - a.value)) hτ'
    linarith
  | bezier =>
    obtain ⟨hright, hleft⟩ := hbezier hinter
    obtain ⟨t, h0, h1, -, hvalue⟩ := segment_eq_cubic h hspan hlow hhigh
    simp only [hvalue]
    exact abs_cubic_sub_le h0 h1 hr he hright hleft hend

/-- At the first of two keys the curve is next to its value. -/
theorem abs_between_sub_le_of_start (h : Thirds a b) (hspan : 1 ≤ b.frame - a.frame) {r : ℚ}
    (hend : |b.value - a.value| ≤ r) (hkind : a.interpolation ≠ .constant)
    (hright : |a.right.value - a.value| ≤ r) (hleft : |b.left.value - a.value| ≤ r) :
    |between a b a.frame - a.value| ≤ 3 / 1000000000 * r := by
  have hr : 0 ≤ r := (abs_nonneg _).trans hend
  have hpos : 0 < b.frame - a.frame := by linarith
  simp only [between, if_neg (not_le.mpr hpos)]
  cases hinter : a.interpolation with
  | constant => exact absurd hinter hkind
  | linear =>
    simp only [sub_self, zero_div, mul_zero, add_zero, abs_zero]
    positivity
  | bezier =>
    obtain ⟨t, h0, h1, hclose, hvalue⟩ := segment_eq_cubic h hspan (le_refl _) (by linarith)
    rw [sub_self, zero_div, sub_zero, abs_of_nonneg h0] at hclose
    simp only [hvalue]
    calc |cubic a.value a.right.value b.left.value b.value t - a.value| ≤ 3 * t * r :=
          abs_cubic_sub_le_of_start h0 h1 hright hleft hend
      _ ≤ 3 * (1 / 1000000000) * r := by gcongr
      _ = 3 / 1000000000 * r := by ring

end Between

end Curve

end SceneExport
