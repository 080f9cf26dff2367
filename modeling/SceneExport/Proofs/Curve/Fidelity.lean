import Mathlib
import SceneExport.Proofs.Curve.Gaps
import SceneExport.Proofs.Curve.Lookup
import SceneExport.Proofs.Curve.Straightening

/-!
# What optimizing keeps of a sampled curve

Samples that are dropped lie near one that stays, so a curve that runs straight from one key that
stays to the next runs near all of them. A Bezier curve does so only if its handles do not point
away, and new handles are computed from the neighbours that are left. A gap of several frames may
lie beside a steep step of one frame, and then the handle at their common key points far off.

Marking the straight parts mends this. A step of one frame becomes linear, and the handle beyond it
is turned to the line of its own segment. The pass runs by the middle one of three keys, so it looks
at every step but the first one. If the first step is one frame long and the second key is not in
line, the step stays as it is, and the segment behind it overshoots.

The keys are followed in the order of the pass. What is known of the segment in front (`Head`) says
how its left handles may still move, a segment behind the pass is settled (`Tame`), and the first
two segments may be loose (`Trim`).
-/
namespace SceneExport.Curve

variable {v : Int → ℚ} {t e : ℚ} {h i j k : Int} {a b c : Key ℚ}

@[simp] theorem sample_frame (v : Int → ℚ) (i : Int) : (sample v i).frame = i := rfl

@[simp] theorem sample_value (v : Int → ℚ) (i : Int) : (sample v i).value = v i := rfl

/-- The slope at a sample does not point away from the sample before it, and along it no handle
rises by more than a third of the way between the neighbours. -/
lemma slope_sample (hij : i < j) (hjk : j < k) :
    (∀ x, 0 ≤ x → x ≤ (k - i : ℚ) →
      |slope (some (sample v i)) (sample v j) (some (sample v k)) * (x / 3)| ≤ |v k - v i| / 3) ∧
    0 ≤ slope (some (sample v i)) (sample v j) (some (sample v k)) * (v j - v i) := by
  have hpos : (0 : ℚ) < k - i := by
    rw [sub_pos, Int.cast_lt]
    omega
  have hslope : slope (some (sample v i)) (sample v j) (some (sample v k)) =
      if (v i ≤ v j ∧ v k ≤ v j) ∨ (v j ≤ v i ∧ v j ≤ v k) ∨ ((k : ℚ) == i) = true then 0
      else (v k - v i) / (k - i) := rfl
  rw [hslope]
  split_ifs with hflat
  · simp only [zero_mul, abs_zero, le_refl, and_true]
    intro _ _ _
    positivity
  · rw [not_or, not_or] at hflat
    constructor
    · intro x hx hle
      rw [abs_mul, abs_div, abs_of_pos hpos, abs_of_nonneg (by positivity : 0 ≤ x / 3),
        div_mul_div_comm, div_le_div_iff₀ (by positivity) (by norm_num)]
      have hmul := mul_le_mul_of_nonneg_left hle (abs_nonneg (v k - v i))
      nlinarith
    · rw [div_mul_eq_mul_div]
      apply div_nonneg _ hpos.le
      rcases le_total (v i) (v j) with hle | hle
      · have hlt : v j < v k := by
          by_contra hge
          exact hflat.1 ⟨hle, not_lt.mp hge⟩
        exact mul_nonneg (by linarith) (by linarith)
      · have hlt : v k < v j := by
          by_contra hge
          exact hflat.2.1 ⟨hle, not_lt.mp hge⟩
        exact mul_nonneg_of_nonpos_of_nonpos (by linarith) (by linarith)

/-- Two handles of one sign differ by no more than the longer one. -/
lemma abs_sub_le_of_mul_nonneg {x y r : ℚ} (hsign : 0 ≤ x * y) (hx : |x| ≤ r) (hy : |y| ≤ r) :
    |x - y| ≤ r := by
  rw [abs_le] at hx hy ⊢
  rcases mul_nonneg_iff.mp hsign with ⟨h0, h0'⟩ | ⟨h0, h0'⟩
  · constructor <;> linarith
  · constructor <;> linarith

/-- A sample with handles, between two others if they are given. -/
def smoothed (v : Int → ℚ) (before : Option Int) (j : Int) (after : Option Int) : Key ℚ :=
  smoothKey (before.map (sample v)) (sample v j) (after.map (sample v))

lemma smoothed_left (v : Int → ℚ) (i j : Int) (after : Option Int) :
    (smoothed v (some i) j after).left = ⟨j - (j - i) / 3,
      v j - slope (some (sample v i)) (sample v j) (after.map (sample v)) * ((j - i) / 3)⟩ := rfl

lemma smoothed_right (v : Int → ℚ) (before : Option Int) (j k : Int) :
    (smoothed v before j (some k)).right = ⟨j + (k - j) / 3,
      v j + slope (before.map (sample v)) (sample v j) (some (sample v k)) * ((k - j) / 3)⟩ := by
  cases before <;> rfl

lemma slope_first (k : Key ℚ) (after : Option (Key ℚ)) : slope none k after = 0 := rfl

lemma slope_last (before : Option (Key ℚ)) (k : Key ℚ) : slope before k none = 0 := by
  cases before <;> rfl

section Handles

variable (hij : i < j) (hjk : j < k)
include hij hjk

lemma abs_smoothed_left_sub_le (hv : ∀ f, |v f| ≤ 1) :
    |(smoothed v (some i) j (some k)).left.value - v j| ≤ 1 := by
  have hx : (0 : ℚ) ≤ j - i := by
    rw [sub_nonneg, Int.cast_le]
    omega
  have hle : (j - i : ℚ) ≤ k - i := by
    rw [sub_le_sub_iff_right, Int.cast_le]
    omega
  have hrise := (slope_sample (v := v) hij hjk).1 (j - i) hx hle
  have hi := abs_le.mp (hv i)
  have hk := abs_le.mp (hv k)
  rw [smoothed_left, sub_sub_cancel_left, abs_neg]
  refine hrise.trans ?_
  rw [div_le_iff₀ (by norm_num), abs_le]
  constructor <;> linarith

lemma abs_smoothed_right_sub_le_third :
    |(smoothed v (some i) j (some k)).right.value - v j| ≤ |v k - v i| / 3 := by
  have hx : (0 : ℚ) ≤ k - j := by
    rw [sub_nonneg, Int.cast_le]
    omega
  have hle : (k - j : ℚ) ≤ k - i := by
    rw [sub_le_sub_iff_left, Int.cast_le]
    omega
  rw [smoothed_right, add_sub_cancel_left]
  exact (slope_sample hij hjk).1 (k - j) hx hle

lemma abs_smoothed_right_sub_le (hv : ∀ f, |v f| ≤ 1) :
    |(smoothed v (some i) j (some k)).right.value - v j| ≤ 1 := by
  have hi := abs_le.mp (hv i)
  have hk := abs_le.mp (hv k)
  refine (abs_smoothed_right_sub_le_third hij hjk).trans ?_
  rw [div_le_iff₀ (by norm_num), abs_le]
  constructor <;> linarith

/-- Between dropped samples on both sides the left handle stays near the sample before. -/
lemma abs_smoothed_left_sub_le_of_near (ht : 0 ≤ t) (hleft : |v j - v i| ≤ 2 * t)
    (hright : |v k - v j| ≤ 2 * t) :
    |(smoothed v (some i) j (some k)).left.value - v i| ≤ 2 * t := by
  have hx : (0 : ℚ) ≤ j - i := by
    rw [sub_nonneg, Int.cast_le]
    omega
  have hle : (j - i : ℚ) ≤ k - i := by
    rw [sub_le_sub_iff_right, Int.cast_le]
    omega
  obtain ⟨hrise, hsign⟩ := slope_sample (v := v) hij hjk
  have hfar : |v k - v i| ≤ 4 * t := by
    rw [abs_le] at hleft hright ⊢
    constructor <;> linarith
  rw [smoothed_left, sub_right_comm]
  refine abs_sub_le_of_mul_nonneg ?_ hleft ((hrise _ hx hle).trans ?_)
  · rw [← mul_assoc]
    refine mul_nonneg ?_ (by positivity)
    rw [mul_comm]
    exact hsign
  · linarith

/-- How far the right handle leads away before dropped samples. -/
lemma abs_smoothed_right_sub_le_of_near (hright : |v k - v j| ≤ 2 * t) :
    |(smoothed v (some i) j (some k)).right.value - v j| ≤ 2 * t / 3 + |v j - v i| / 3 := by
  have hsum : |v k - v i| ≤ |v k - v j| + |v j - v i| := abs_sub_le _ _ _
  linarith [abs_smoothed_right_sub_le_third (v := v) hij hjk]

end Handles

/-- A segment between kept samples whose handles do not lead far away: where samples were dropped,
the handles are within twice the threshold, up to `e` for the first one. -/
structure Tame (v : Int → ℚ) (t e : ℚ) (a b : Key ℚ) : Prop where
  gap : ∃ i j : Int, a.place = ((i : ℚ), v i) ∧ b.place = ((j : ℚ), v j) ∧ Gap v t i j
  thirds : Thirds a b
  kind : a.interpolation ≠ .constant
  right_le : |a.right.value - a.value| ≤ 3
  left_le : |b.left.value - a.value| ≤ 3
  hull : a.interpolation = .bezier → a.frame + 1 < b.frame →
    |a.right.value - a.value| ≤ 2 * t + e ∧ |b.left.value - a.value| ≤ 2 * t

/-- A key before the sample at `j` whose interpolation is settled, and its right handle but for what
the next step may do. -/
structure Head (v : Int → ℚ) (t e : ℚ) (h j : Int) (a : Key ℚ) : Prop where
  place : a.place = ((h : ℚ), v h)
  reach : a.right.frame = h + (j - h) / 3
  kind : a.interpolation ≠ .constant
  right_le : |a.right.value - v h| ≤ 2
  hull : a.interpolation = .bezier → h + 1 < j → |a.right.value - v h| ≤ 2 * t + e

lemma Head.frame (ha : Head v t e h j a) : a.frame = h := congrArg Prod.fst ha.place

lemma Head.value (ha : Head v t e h j a) : a.value = v h := congrArg Prod.snd ha.place

/-- A segment is tame if its left handle is. -/
lemma Head.tame (ha : Head v t e h j a) (hgap : Gap v t h j) (hv : ∀ f, |v f| ≤ 1)
    (hplace : b.place = ((j : ℚ), v j)) (hframe : b.left.frame = j - (j - h) / 3)
    (hbound : |b.left.value - v j| ≤ 1)
    (hleft : a.interpolation = .bezier → h + 1 < j → |b.left.value - v h| ≤ 2 * t) :
    Tame v t e a b := by
  have hb : b.frame = j := congrArg Prod.fst hplace
  refine ⟨⟨h, j, ha.place, hplace, hgap⟩, ⟨?_, ?_⟩, ha.kind, ?_, ?_, fun hbezier hlt => ?_⟩
  · rw [ha.reach, ha.frame, hb]
  · rw [hframe, ha.frame, hb]
  · rw [ha.value]
    linarith [ha.right_le]
  · rw [ha.value]
    have hh := abs_le.mp (hv h)
    have hj := abs_le.mp (hv j)
    rw [abs_le] at hbound ⊢
    constructor <;> linarith
  · rw [ha.frame, hb] at hlt
    have hlt : h + 1 < j := by exact_mod_cast hlt
    rw [ha.value]
    exact ⟨ha.hull hbezier hlt, hleft hbezier hlt⟩

/-- The line between two kept samples at the thirds of the way. -/
lemma line_thirds (ha : a.place = ((h : ℚ), v h)) (hb : b.place = ((j : ℚ), v j)) (hlt : h < j) :
    (lineThrough a b).1 * (h + (j - h) / 3) + (lineThrough a b).2 = v h + (v j - v h) / 3 ∧
      (lineThrough a b).1 * (j - (j - h) / 3) + (lineThrough a b).2 = v j - (v j - v h) / 3 := by
  have hpos : (j - h : ℚ) ≠ 0 := by
    rw [sub_ne_zero, Ne, Int.cast_inj]
    omega
  simp only [Key.place, Prod.mk.injEq] at ha hb
  simp only [lineThrough, ha, hb]
  constructor <;> field_simp <;> ring

/-- A linear key needs nothing of its handle. -/
lemma Head.of_linear (ha : Head v t e h j a) (hlinear : a.interpolation = .linear) :
    Head v t 0 h j a :=
  ⟨ha.place, ha.reach, ha.kind, ha.right_le, fun hbezier => by simp [hlinear] at hbezier⟩

lemma Head.straight (ha : Head v t e h j a) : Head v t 0 h j a.straight :=
  ⟨ha.place, ha.reach, by simp [Key.straight], ha.right_le, fun hbezier => by cases hbezier⟩

lemma Head.trail (ha : Head v t e h j a) (height : ℚ) : Head v t e h j (a.trail height) :=
  ⟨ha.place, ha.reach, ha.kind, ha.right_le, ha.hull⟩

lemma head_smoothed (hij : i < j) (hjk : j < k) (hv : ∀ f, |v f| ≤ 1)
    (hright : |(smoothed v (some i) j (some k)).right.value - v j| ≤ 2 * t + e) :
    Head v t e j k (smoothed v (some i) j (some k)) := by
  refine ⟨rfl, ?_, by simp [smoothed, smoothKey, sample, Key.plain], ?_, fun _ _ => hright⟩
  · rw [smoothed_right]
  · linarith [abs_smoothed_right_sub_le (v := v) hij hjk hv]

section Step

variable (hv : ∀ f, |v f| ≤ 1) (ht : 0 ≤ t) (hgap : Gap v t h j) (hnext : Gap v t j k)
include hv ht hgap hnext

/-- The step at a straight key: what was Bezier before it is laid onto the line. -/
lemma tame_fit_straight (ha : Head v t e h j a) {line : ℚ × ℚ} (height : ℚ)
    (hline : line.1 * (h + (j - h) / 3) + line.2 = v h + (v j - v h) / 3 ∧
      line.1 * (j - (j - h) / 3) + line.2 = v j - (v j - v h) / 3) :
    let fitted := fit line height a (smoothed v (some h) j (some k)).straight
    Tame v t 0 fitted.1 fitted.2 ∧ Head v t 0 j k fitted.2 ∧ fitted.2.interpolation = .linear := by
  have hb : Head v t 1 j k (smoothed v (some h) j (some k)) :=
    head_smoothed hgap.lt hnext.lt hv
      (by linarith [abs_smoothed_right_sub_le (v := v) hgap.lt hnext.lt hv])
  have hh := abs_le.mp (hv h)
  have hj := abs_le.mp (hv j)
  cases hinter : a.interpolation with
  | constant => exact absurd hinter ha.kind
  | linear =>
    have hfit : fit line height a (smoothed v (some h) j (some k)).straight =
        (a, (smoothed v (some h) j (some k)).straight) := by
      simp [fit, hinter, Key.straight]
    simp only [hfit]
    refine ⟨(ha.of_linear hinter).tame hgap hv rfl ?_ ?_ fun hbezier => ?_, hb.straight, rfl⟩
    · exact congrArg Handle.frame (smoothed_left v h j (some k))
    · exact abs_smoothed_left_sub_le hgap.lt hnext.lt hv
    · simp [hinter] at hbezier
  | bezier =>
    have hfit : fit line height a (smoothed v (some h) j (some k)).straight =
        (a.aim (v h + (v j - v h) / 3),
          (smoothed v (some h) j (some k)).straight.trail (v j - (v j - v h) / 3)) := by
      have hframe : (smoothed v (some h) j (some k)).straight.left.frame = j - (j - h) / 3 :=
        congrArg Handle.frame (smoothed_left v h j (some k))
      have hlinear : (smoothed v (some h) j (some k)).straight.interpolation = .linear := rfl
      simp only [fit, hinter, hlinear, ha.reach, hframe, hline]
    have hends : h + 1 < j → |v j - v h| ≤ 2 * t := hgap.ends
    simp only [hfit]
    refine ⟨Head.tame ⟨ha.place, ha.reach, ha.kind, ?_, fun _ hlt => ?_⟩ hgap hv rfl ?_ ?_
      fun _ hlt => ?_, hb.straight.trail _, rfl⟩
    · simp only [Key.aim, add_sub_cancel_left]
      rw [abs_le]
      constructor <;> linarith
    · simp only [Key.aim, add_sub_cancel_left]
      have hle := abs_le.mp (hends hlt)
      rw [abs_le]
      constructor <;> linarith
    · exact congrArg Handle.frame (smoothed_left v h j (some k))
    · simp only [Key.trail, sub_sub_cancel_left]
      rw [abs_le]
      constructor <;> linarith
    · have hle := abs_le.mp (hends hlt)
      simp only [Key.trail]
      rw [abs_le]
      constructor <;> linarith

omit ht in
/-- The step at a key that is not straight, behind a linear part: the right handle goes to the
height of the next key. -/
lemma tame_fit_behind_linear (ha : Head v t e h j a) (hinter : a.interpolation = .linear)
    (line : ℚ × ℚ) (hwide : j + 1 < k) :
    let fitted := fit line (v k) a (smoothed v (some h) j (some k))
    Tame v t 0 fitted.1 fitted.2 ∧ Head v t 0 j k fitted.2 := by
  have hfit : fit line (v k) a (smoothed v (some h) j (some k)) =
      (a, (smoothed v (some h) j (some k)).aim (v k)) := by
    simp [fit, hinter, smoothed, smoothKey, sample, Key.plain]
  have hj := abs_le.mp (hv j)
  have hk := abs_le.mp (hv k)
  simp only [hfit]
  refine ⟨(ha.of_linear hinter).tame hgap hv rfl ?_ ?_ fun hbezier => ?_, rfl, ?_, ?_, ?_,
    fun _ _ => ?_⟩
  · exact congrArg Handle.frame (smoothed_left v h j (some k))
  · exact abs_smoothed_left_sub_le hgap.lt hnext.lt hv
  · simp [hinter] at hbezier
  · exact congrArg Handle.frame (smoothed_right v (some h) j k)
  · simp [Key.aim, smoothed, smoothKey, sample, Key.plain]
  · simp only [Key.aim]
    rw [abs_le]
    constructor <;> linarith
  · simp only [Key.aim, add_zero]
    exact hnext.ends hwide

/-- The step at a key that is not straight, behind a Bezier part: the handles stay. Between dropped
samples on both sides they are near the keys. -/
lemma tame_fit_behind_bezier (ha : Head v t e h j a) (hinter : a.interpolation = .bezier)
    (line : ℚ × ℚ) (hwide : j + 1 < k) :
    let fitted := fit line (v k) a (smoothed v (some h) j (some k))
    fitted = (a, smoothed v (some h) j (some k)) ∧ Tame v t e fitted.1 fitted.2 ∧
      Head v t (|v j - v h| / 3) j k fitted.2 ∧ (h + 1 < j → Head v t 0 j k fitted.2) := by
  have hfit : fit line (v k) a (smoothed v (some h) j (some k)) =
      (a, smoothed v (some h) j (some k)) := by
    simp [fit, hinter, smoothed, smoothKey, sample, Key.plain]
  have hright := abs_smoothed_right_sub_le_of_near (v := v) hgap.lt hnext.lt (hnext.ends hwide)
  simp only [hfit, true_and]
  refine ⟨ha.tame hgap hv rfl ?_ ?_ fun _ hlt => ?_, ?_, fun hlt => ?_⟩
  · exact congrArg Handle.frame (smoothed_left v h j (some k))
  · exact abs_smoothed_left_sub_le hgap.lt hnext.lt hv
  · exact abs_smoothed_left_sub_le_of_near hgap.lt hnext.lt ht (hgap.ends hlt) (hnext.ends hwide)
  · exact head_smoothed hgap.lt hnext.lt hv (by linarith)
  · exact head_smoothed hgap.lt hnext.lt hv (by linarith [hgap.ends hlt])

end Step

lemma wide_of_not_straight {tolerance : ℚ} (hb : b.frame = j) (hc : c.frame = k) (hlt : j < k)
    (h : isStraight tolerance a b c = false) : j + 1 < k := by
  simp only [isStraight, Bool.or_eq_false_iff, beq_eq_false_iff_ne, hb, hc] at h
  have hne : k - j ≠ 1 := by
    intro heq
    apply h.1
    have hcast : ((k - j : Int) : ℚ) = ((1 : Int) : ℚ) := by rw [heq]
    push_cast at hcast
    exact hcast
  omega

/-- One step of the pass behind the first key. The head of the rest is settled, and the segment
before it is tame, up to what was left open if the step changes nothing. -/
lemma exists_step (tolerance : ℚ) (last : Bool) (hv : ∀ f, |v f| ≤ 1) (ht : 0 ≤ t)
    (hgap : Gap v t h j) (hnext : Gap v t j k) (ha : Head v t e h j a)
    (hinner : a.interpolation = .bezier → h + 1 < j) (hc : c.place = ((k : ℚ), v k)) :
    ∃ a' b' m, straighten tolerance false last a (smoothed v (some h) j (some k)) c =
        (a', b', c.mark (m && last)) ∧ Head v t 0 j k b' ∧
      (b'.interpolation = .bezier → j + 1 < k) ∧
      (Tame v t 0 a' b' ∨ b'.interpolation = .bezier ∧ Tame v t e a' b') := by
  have hvalue : ∀ m, (c.mark m).value = v k := by
    intro m
    have hplace := Key.place_mark m c
    rw [hc] at hplace
    exact congrArg Prod.snd hplace
  have ha' : a.mark (isStraight tolerance a (smoothed v (some h) j (some k)) c && false) = a := by
    rw [Bool.and_false]
    rfl
  rw [straighten_eq]
  simp only [hvalue, ha']
  cases hstraight : isStraight tolerance a (smoothed v (some h) j (some k)) c with
  | true =>
    obtain ⟨htame, hhead, hlinear⟩ := tame_fit_straight hv ht hgap hnext ha (v k)
      (line_thirds (b := smoothed v (some h) j (some k)) ha.place rfl hgap.lt)
    refine ⟨_, _, true, rfl, hhead, fun hbezier => ?_, .inl htame⟩
    change (fit _ _ _ (smoothed v (some h) j (some k)).straight).2.interpolation = _ at hbezier
    rw [hlinear] at hbezier
    cases hbezier
  | false =>
    have hwide : j + 1 < k :=
      wide_of_not_straight rfl (congrArg Prod.fst hc) hnext.lt hstraight
    cases hinter : a.interpolation with
    | constant => exact absurd hinter ha.kind
    | linear =>
      obtain ⟨htame, hhead⟩ := tame_fit_behind_linear hv hgap hnext ha hinter
        (lineThrough a (smoothed v (some h) j (some k))) hwide
      exact ⟨_, _, false, rfl, hhead, fun _ => hwide, .inl htame⟩
    | bezier =>
      obtain ⟨hfit, htame, -, hhead⟩ := tame_fit_behind_bezier hv ht hgap hnext ha hinter
        (lineThrough a (smoothed v (some h) j (some k))) hwide
      refine ⟨_, _, false, rfl, hhead (hinner hinter), fun _ => hwide, .inr ⟨?_, htame⟩⟩
      change (fit _ _ _ (smoothed v (some h) j (some k))).2.interpolation = _
      rw [hfit]
      rfl

/-- The segments from a key on are tame, the first one up to `e` unless its second key is linear. -/
def TameFrom (v : Int → ℚ) (t e : ℚ) (ks : List (Key ℚ)) : Prop :=
  ks.IsChain (Tame v t 0) ∨ ∃ a b rest, ks = a :: b :: rest ∧ b.interpolation = .bezier ∧
    Tame v t e a b ∧ (b :: rest).IsChain (Tame v t 0)

lemma TameFrom.isChain {ks : List (Key ℚ)} (hks : TameFrom v t 0 ks) : ks.IsChain (Tame v t 0) := by
  rcases hks with hchain | ⟨a, b, rest, rfl, -, htame, hchain⟩
  · exact hchain
  · exact List.isChain_cons_cons.mpr ⟨htame, hchain⟩

lemma smoothFrom_samples (v : Int → ℚ) (h j : Int) (js : List Int) :
    smoothFrom (some (sample v h)) ((j :: js).map (sample v)) =
      smoothed v (some h) j js.head? :: smoothFrom (some (sample v j)) (js.map (sample v)) := by
  rw [List.map_cons, smoothFrom, List.head?_map]
  rfl

/-- The last segment is tame if its first key is settled. -/
lemma Head.tame_last (ha : Head v t e h j a) (hgap : Gap v t h j) (hv : ∀ f, |v f| ≤ 1)
    (hb : b.place = ((j : ℚ), v j)) (hleft : b.left = (smoothed v (some h) j none).left) :
    Tame v t e a b := by
  rw [smoothed_left, Option.map_none, slope_last, zero_mul, sub_zero] at hleft
  refine ha.tame hgap hv hb (congrArg Handle.frame hleft) ?_ fun _ hlt => ?_
  · simp [hleft]
  · rw [hleft]
    exact hgap.ends hlt

lemma Tame.aim (hab : Tame v t e a b) (height : ℚ) : Tame v t e a (b.aim height) :=
  ⟨hab.gap, ⟨hab.thirds.right, hab.thirds.left⟩, hab.kind, hab.right_le, hab.left_le, hab.hull⟩

/-- What one step leaves of the first segment stays, whatever the later steps do to the right handle
of its second key. -/
lemma tameFrom_cons {rest : List (Key ℚ)} {tolerance : ℚ} {tail : List (Key ℚ)}
    (hseg : Tame v t 0 a b ∨ b.interpolation = .bezier ∧ Tame v t e a b)
    (htail : straightenFrom tolerance false b rest = tail) (hchain : tail.IsChain (Tame v t 0)) :
    TameFrom v t e (a :: tail) := by
  obtain ⟨_, rest', heq, -, -, hhead⟩ := straightenFrom_cases tolerance false b rest
  obtain ⟨x, rfl⟩ := hhead rfl
  rw [heq] at htail
  subst htail
  rcases hseg with htame | ⟨hbezier, htame⟩
  · exact .inl (List.isChain_cons_cons.mpr ⟨htame.aim x, hchain⟩)
  · exact .inr ⟨a, b.aim x, rest', rfl, hbezier, htame.aim x, hchain⟩

lemma isEmpty_smoothFrom (before : Option (Key ℚ)) (js : List Int) :
    (smoothFrom before (js.map (sample v))).isEmpty = js.isEmpty := by
  cases js <;> rfl

/-- The pass from a settled key on, with the next key marked already if it is the last one. -/
theorem tameFrom_straightenFrom (tolerance : ℚ) (hv : ∀ f, |v f| ≤ 1) (ht : 0 ≤ t) (js : List Int)
    {m : Bool} (hm : m = true → e = 0) (hchain : (h :: j :: js).IsChain (Gap v t))
    (ha : Head v t e h j a) (hinner : a.interpolation = .bezier → h + 1 < j) :
    TameFrom v t e (straightenFrom tolerance false a
      ((smoothed v (some h) j js.head?).mark (m && js.isEmpty) ::
        smoothFrom (some (sample v j)) (js.map (sample v)))) := by
  induction js generalizing h j a e m with
  | nil =>
    obtain ⟨hgap, -⟩ := List.isChain_cons_cons.mp hchain
    have htame : Tame v t e a ((smoothed v (some h) j none).mark m) :=
      ha.tame_last hgap hv (Key.place_mark _ _) (by cases m <;> rfl)
    rw [List.map_nil, smoothFrom, straightenFrom, List.isEmpty_nil, Bool.and_true, List.head?_nil]
    · cases m with
      | true =>
        rw [hm rfl] at htame
        exact .inl (List.isChain_cons_cons.mpr ⟨htame, .singleton _⟩)
      | false => exact .inr ⟨a, _, [], rfl, rfl, htame, .singleton _⟩
    · simp
  | cons k js ih =>
    obtain ⟨hgap, hrest⟩ := List.isChain_cons_cons.mp hchain
    obtain ⟨hnext, -⟩ := List.isChain_cons_cons.mp hrest
    have hmark : (smoothed v (some h) j (k :: js).head?).mark (m && (k :: js).isEmpty) =
        smoothed v (some h) j (some k) := by
      rw [List.isEmpty_cons, Bool.and_false]
      rfl
    rw [hmark, smoothFrom_samples, straightenFrom, isEmpty_smoothFrom]
    obtain ⟨a', b', m', hstep, hhead, hwide, hseg⟩ :=
      exists_step tolerance js.isEmpty hv ht hgap hnext
      ha hinner (c := smoothed v (some j) k js.head?) rfl
    rw [hstep]
    exact tameFrom_cons hseg rfl (ih (fun _ => rfl) hrest hhead hwide).isChain

/-- A curve begins with a loose step: it is one frame long, and neither the first nor the third key
is marked. -/
structure Loose (a b c : Key ℚ) : Prop where
  first : a.interpolation = .bezier
  step : b.frame = a.frame + 1
  third : c.interpolation = .bezier

/-- All segments of the curve are tame, but for the one behind a loose first step. -/
def Trim (v : Int → ℚ) (t : ℚ) (ks : List (Key ℚ)) : Prop :=
  ks.IsChain (Tame v t 0) ∨ ∃ a b c rest, ks = a :: b :: c :: rest ∧ Loose a b c ∧
    Tame v t 0 a b ∧ Tame v t (|b.value - a.value| / 3) b c ∧ (c :: rest).IsChain (Tame v t 0)

/-- A first step of one frame, which the pass does not look at, before keys that it settles. -/
lemma trim_cons {rest : List (Key ℚ)} {tolerance : ℚ} (htame : Tame v t 0 a b)
    (hbezier : a.interpolation = .bezier) (hstep : b.frame = a.frame + 1)
    (htail : TameFrom v t (|b.value - a.value| / 3) (straightenFrom tolerance false b rest)) :
    Trim v t (a :: straightenFrom tolerance false b rest) := by
  rcases htail with hchain | ⟨b', c, rest', heq, hbezier', htame', hchain⟩
  · exact .inl (tameFrom_cons (e := 0) (.inl htame) rfl hchain).isChain
  · obtain ⟨_, rest'', hcons, -, -, haim⟩ := straightenFrom_cases tolerance false b rest
    obtain ⟨x, rfl⟩ := haim rfl
    rw [hcons] at heq ⊢
    obtain ⟨rfl, rfl⟩ := List.cons.inj heq
    exact .inr ⟨a, _, c, rest', rfl, ⟨hbezier, hstep, hbezier'⟩, htame.aim x, htame', hchain⟩

lemma head_first (v : Int → ℚ) (h j : Int) (ht : 0 ≤ t) :
    Head v t 0 h j (smoothed v none h (some j)) := by
  have hright : (smoothed v none h (some j)).right = ⟨h + (j - h) / 3, v h⟩ := by
    rw [smoothed_right, Option.map_none, slope_first, zero_mul, add_zero]
  refine ⟨rfl, by rw [hright], by simp [smoothed, smoothKey, sample, Key.plain], ?_, fun _ _ => ?_⟩
  · simp [hright]
  · simp [hright, ht]

/-- The pass over kept samples. -/
theorem trim_straightenFrom (tolerance : ℚ) (hv : ∀ f, |v f| ≤ 1) (ht : 0 ≤ t) (js : List Int)
    (hchain : (h :: js).IsChain (Gap v t)) :
    Trim v t (straightenFrom tolerance true (smoothed v none h js.head?)
      (smoothFrom (some (sample v h)) (js.map (sample v)))) := by
  cases js with
  | nil =>
    rw [List.map_nil, smoothFrom, straightenFrom]
    · exact .inl (.singleton _)
    · simp
  | cons j js =>
    obtain ⟨hgap, hrest⟩ := List.isChain_cons_cons.mp hchain
    have ha := head_first v h j ht
    rw [smoothFrom_samples, List.head?_cons]
    cases js with
    | nil =>
      rw [List.map_nil, smoothFrom, straightenFrom]
      · exact .inl (List.isChain_cons_cons.mpr ⟨ha.tame_last hgap hv rfl rfl, .singleton _⟩)
      · simp
    | cons k js =>
      obtain ⟨hnext, -⟩ := List.isChain_cons_cons.mp hrest
      have hvalue : ∀ m, ((smoothed v (some j) k js.head?).mark m).value = v k :=
        fun m => congrArg Prod.snd (Key.place_mark m _)
      rw [smoothFrom_samples, List.head?_cons, straightenFrom, isEmpty_smoothFrom, straighten_eq]
      simp only [hvalue]
      cases hstraight : isStraight tolerance (smoothed v none h (some j))
        (smoothed v (some h) j (some k))
          (smoothed v (some j) k js.head?) with
      | true =>
        obtain ⟨htame, hhead, hlinear⟩ := tame_fit_straight hv ht hgap hnext ha.straight (v k)
          (line_thirds (b := smoothed v (some h) j (some k)) ha.place rfl hgap.lt)
        have htail :=
          tameFrom_straightenFrom tolerance hv ht js (m := true) (fun _ => rfl) hrest hhead
          (fun hbezier => by simp [hlinear] at hbezier)
        exact .inl (tameFrom_cons (e := 0) (.inl htame) rfl htail.isChain).isChain
      | false =>
        have hwide : j + 1 < k := wide_of_not_straight rfl rfl hnext.lt hstraight
        obtain ⟨hfit, htame, hhead, hhead'⟩ := tame_fit_behind_bezier hv ht hgap hnext ha rfl
          (lineThrough (smoothed v none h (some j)) (smoothed v (some h) j (some k))) hwide
        rw [hfit] at htame hhead hhead'
        change Trim v t
          ((fit _ _ (smoothed v none h (some j)) (smoothed v (some h) j (some k))).1 ::
          straightenFrom tolerance false
            (fit _ _ (smoothed v none h (some j)) (smoothed v (some h) j (some k))).2
            ((smoothed v (some j) k js.head?).mark (false && js.isEmpty) :: _))
        rw [hfit]
        by_cases hlt : h + 1 < j
        · have htail := tameFrom_straightenFrom tolerance hv ht js (m := false) (fun _ => rfl) hrest
            (hhead' hlt) (fun _ => hwide)
          exact .inl (tameFrom_cons (e := 0) (.inl htame) rfl htail.isChain).isChain
        · have htail :=
            tameFrom_straightenFrom tolerance hv ht js (m := false) (fun hm => by cases hm)
            hrest hhead (fun _ => hwide)
          have hj : j = h + 1 := by
            have hgt := hgap.lt
            omega
          refine trim_cons htame rfl ?_ htail
          change (j : ℚ) = h + 1
          rw [hj]
          push_cast
          rfl

/-- Inside a gap a tame segment stays near the samples that were dropped, and at its first key it is
next to the sample that was kept. -/
lemma Tame.abs_between_sub_le (hab : Tame v t e a b) (hv : ∀ f, |v f| ≤ 1) (ht : 1 / 1000000 ≤ t)
    (he : 0 ≤ e) {f : Int} (hlow : a.frame ≤ f) (hhigh : (f : ℚ) < b.frame) :
    |between a b f - v f| ≤ 4 * t ∨ a.frame < f ∧ |between a b f - v f| ≤ 4 * t + 4 / 9 * e := by
  obtain ⟨i, j, ha, hb, hgap⟩ := hab.gap
  simp only [Key.place, Prod.mk.injEq] at ha hb
  have hspan : 1 ≤ b.frame - a.frame := by
    rw [ha.1, hb.1]
    have hlt : i + 1 ≤ j := hgap.lt
    have hcast : ((i + 1 : Int) : ℚ) ≤ (j : ℚ) := Int.cast_le.mpr hlt
    push_cast at hcast
    linarith
  have hi := abs_le.mp (hv i)
  have hj := abs_le.mp (hv j)
  rcases hlow.eq_or_lt with heq | hlt
  · have hf : f = i := by
      rw [ha.1] at heq
      exact_mod_cast heq.symm
    have hend : |b.value - a.value| ≤ 3 := by
      rw [ha.2, hb.2, abs_le]
      constructor <;> linarith
    have hstart :=
      abs_between_sub_le_of_start hab.thirds hspan hend hab.kind hab.right_le hab.left_le
    rw [heq, ha.2, ← hf] at hstart
    left
    linarith
  · have hif : i < f := by
      rw [ha.1] at hlt
      exact_mod_cast hlt
    have hfj : f < j := by
      rw [hb.1] at hhigh
      exact_mod_cast hhigh
    have hwide : a.frame + 1 < b.frame := by
      have hint : i + 1 < j := by omega
      rw [ha.1, hb.1]
      exact_mod_cast hint
    have hend : |b.value - a.value| ≤ 2 * t := by
      rw [ha.2, hb.2]
      exact hgap.ends (by omega)
    have hbetween := Curve.abs_between_sub_le hab.thirds hspan hlow hhigh.le he hend hab.kind
      fun hbezier => hab.hull hbezier hwide
    have hdropped := hgap.dropped f hif hfj
    rw [ha.2] at hbetween
    refine .inr ⟨hlt, ?_⟩
    rw [abs_le] at hbetween hdropped ⊢
    constructor <;> linarith

/-- A sampled curve with the keys cleaned and the straight parts marked. -/
def optimized (target : Target) (index : Nat) (range : Bake.FrameRange) (v : Int → ℚ)
    (threshold tolerance : ℚ) : Curve ℚ :=
  ((sampled target index range v).clean threshold).1.markStraight tolerance

/-- The frames whose samples stay, and what is known of the keys there. -/
lemma exists_kept (target : Target) (index : Nat) (range : Bake.FrameRange) (hv : ∀ f, |v f| ≤ 1)
    (ht : 0 ≤ t) (tolerance : ℚ) :
    ∃ js : List Int,
      (∀ f, (range.start :: js).getLast (List.cons_ne_nil _ js) < f → f ≤ range.stop →
        |v f - v ((range.start :: js).getLast (List.cons_ne_nil _ js))| ≤ t) ∧
      (optimized target index range v t tolerance).keys.map Key.place =
        (range.start :: js).map (fun i : Int => ((i : ℚ), v i)) ∧
      Trim v t (optimized target index range v t tolerance).keys := by
  have hsize : range.size = (range.stop - range.start).toNat + 1 := by
    have hle := range.start_le
    unfold Bake.FrameRange.size
    omega
  obtain ⟨js, hthin, hchain, hlast⟩ := thin_samples (v := v) t range.start
    (range.stop - range.start).toNat
  rw [← hsize, ← range.firstFrames_size] at hthin
  have hbare : ((range.firstFrames range.size).map (sample v)).map bare =
      (range.firstFrames range.size).map (sample v) := by
    rw [List.map_map]
    rfl
  have hclean : ((sampled target index range v).clean t).1.keys =
      smoothFrom none ((range.start :: js).map (sample v)) := by
    rw [← hthin]
    exact keys_clean_smooth t target index hbare
  refine ⟨js, fun f hf hf' => hlast f hf ?_, ?_, ?_⟩
  · have hle := range.start_le
    push_cast
    omega
  · rw [optimized, map_place_markStraight, hclean, map_smoothFrom fun _ _ _ => rfl,
      List.map_map]
    rfl
  · have hkeys : (optimized target index range v t tolerance).keys =
        straightenFrom tolerance true (smoothed v none range.start js.head?)
          (smoothFrom (some (sample v range.start)) (js.map (sample v))) := by
      rw [List.map_cons, smoothFrom, List.head?_map] at hclean
      simp only [optimized, markStraight, hclean]
      rfl
    rw [hkeys]
    exact trim_straightenFrom tolerance hv ht js hchain

lemma tame_of_isChain {front back ks : List (Key ℚ)} (hchain : ks.IsChain (Tame v t 0))
    (hks : ks = front ++ a :: b :: back) : Tame v t 0 a b := by
  rw [hks] at hchain
  exact (List.isChain_append_cons_cons.mp hchain).2.1

/-- Neighbouring keys are those of a tame segment, or the second and third key behind a loose
step. -/
lemma Trim.neighbours {front back ks : List (Key ℚ)} (htrim : Trim v t ks)
    (hks : ks = front ++ a :: b :: back) :
    Tame v t 0 a b ∨ ∃ first, ks = first :: a :: b :: back ∧ Loose first a b ∧
      Tame v t (|a.value - first.value| / 3) a b := by
  rcases htrim with hchain | ⟨p, q, r, rest, hsplit, hloose, hpq, hqr, hchain⟩
  · exact .inl (tame_of_isChain hchain hks)
  · rw [hks] at hsplit
    match front, hsplit with
    | [], hsplit =>
      simp only [List.nil_append, List.cons.injEq] at hsplit
      obtain ⟨rfl, rfl, -⟩ := hsplit
      exact .inl hpq
    | [first], hsplit =>
      simp only [List.cons_append, List.nil_append, List.cons.injEq] at hsplit
      obtain ⟨rfl, rfl, rfl, rfl⟩ := hsplit
      exact .inr ⟨first, hks, hloose, hqr⟩
    | _ :: _ :: front, hsplit =>
      simp only [List.cons_append, List.cons.injEq] at hsplit
      exact .inl (tame_of_isChain hchain hsplit.2.2.symm)

/-- The values of an optimized curve, for samples that are bounded everywhere. -/
lemma exists_evaluate_optimized (target : Target) (index : Nat) (range : Bake.FrameRange)
    (hv : ∀ f, |v f| ≤ 1) (ht : 1 / 1000000 ≤ t) (tolerance : ℚ) {f : Int}
    (hstart : range.start ≤ f) (hstop : f ≤ range.stop) :
    ∃ y, (optimized target index range v t tolerance).evaluate f = some y ∧
      (|y - v f| ≤ 4 * t ∨ ∃ a b c rest,
        (optimized target index range v t tolerance).keys = a :: b :: c :: rest ∧ Loose a b c ∧
          b.frame < f ∧ f < c.frame ∧ |y - v f| ≤ 4 * t + 4 / 27 * |b.value - a.value|) := by
  have ht0 : 0 ≤ t := by linarith
  obtain ⟨js, hlast, hplaces, htrim⟩ := exists_kept target index range hv ht0 tolerance
  generalize optimized target index range v t tolerance = c at hplaces htrim ⊢
  have hne : c.keys ≠ [] := by
    intro hnil
    simp [hnil] at hplaces
  rcases evaluate_cases hne fun k _ => le_total (f : ℚ) k.frame with
    ⟨a, back, hkeys, hle, hvalue⟩ | ⟨front, a, hkeys, hle, hvalue⟩ |
      ⟨front, a, b, back, hkeys, -, hlow, hnle, hvalue⟩
  · -- at the first key, whose sample always stays
    have ha : a.place = ((range.start : ℚ), v range.start) := by
      rw [hkeys, List.map_cons, List.map_cons] at hplaces
      exact (List.cons.inj hplaces).1
    obtain ⟨hframe, hsample⟩ := Prod.mk.inj ha
    have hf : f = range.start := by
      rw [hframe] at hle
      have hle : f ≤ range.start := by exact_mod_cast hle
      omega
    refine ⟨_, hvalue, .inl ?_⟩
    rw [hf, hsample]
    simp [ht0]
  · -- behind the last key
    have ha : a.place = (((range.start :: js).getLast (List.cons_ne_nil _ js) : ℚ),
        v ((range.start :: js).getLast (List.cons_ne_nil _ js))) := by
      have hend := congrArg List.getLast? hplaces
      rw [hkeys, List.map_append, List.map_singleton, List.getLast?_concat, List.getLast?_map,
        List.getLast?_eq_some_getLast (List.cons_ne_nil _ js)] at hend
      exact Option.some.inj hend
    obtain ⟨hframe, hsample⟩ := Prod.mk.inj ha
    refine ⟨_, hvalue, .inl ?_⟩
    rw [hsample]
    rw [hframe] at hle
    have hle : (range.start :: js).getLast (List.cons_ne_nil _ js) ≤ f := by exact_mod_cast hle
    rcases hle.eq_or_lt with heq | hlt
    · rw [heq]
      simp [ht0]
    · have hnear := hlast f hlt hstop
      rw [abs_sub_comm] at hnear
      linarith
  · have hhigh : f < b.frame := not_le.mp hnle
    refine ⟨_, hvalue, ?_⟩
    rcases htrim.neighbours hkeys with htame | ⟨first, hfirst, hloose, htame⟩
    · left
      rcases htame.abs_between_sub_le hv ht le_rfl hlow hhigh with hbound | ⟨-, hbound⟩
      · exact hbound
      · linarith
    · rcases htame.abs_between_sub_le hv ht (by positivity) hlow hhigh with hbound | ⟨hlt, hbound⟩
      · exact .inl hbound
      · refine .inr ⟨first, a, b, back, hfirst, hloose, hlt, hhigh, ?_⟩
        linarith

lemma sampled_congr (target : Target) (index : Nat) {range : Bake.FrameRange} {w : Int → ℚ}
    (hvw : ∀ f, range.start ≤ f → f ≤ range.stop → v f = w f) :
    sampled target index range v = sampled target index range w := by
  have hkeys : (range.firstFrames range.size).map (sample v) =
      (range.firstFrames range.size).map (sample w) := by
    refine List.map_congr_left fun f hf => ?_
    rw [range.firstFrames_size, framesFrom_eq_map, List.mem_map] at hf
    obtain ⟨i, hi, rfl⟩ := hf
    rw [List.mem_range, Bake.FrameRange.size] at hi
    rw [sample, sample, hvw (range.start + i) (by omega) (by omega)]
  rw [sampled, hkeys, sampled]

/-- Optimizing keeps a sampled curve at every frame up to four times the threshold. The only
exception is behind a loose first step. There the handle of the second key follows the slope of the
step, and the curve may be off by a further part of it. -/
theorem evaluate_optimized (target : Target) (index : Nat) (range : Bake.FrameRange) (v : Int → ℚ)
    (hv : ∀ f, range.start ≤ f → f ≤ range.stop → |v f| ≤ 1) (t : ℚ) (ht : 1 / 1000000 ≤ t)
    (tolerance : ℚ) (f : Int) (hstart : range.start ≤ f) (hstop : f ≤ range.stop) :
    ∃ y, (optimized target index range v t tolerance).evaluate f = some y ∧
      (|y - v f| ≤ 4 * t ∨ ∃ a b c rest,
        (optimized target index range v t tolerance).keys = a :: b :: c :: rest ∧ Loose a b c ∧
          b.frame < f ∧ f < c.frame ∧ |y - v f| ≤ 4 * t + 4 / 27 * |b.value - a.value|) := by
  -- samples outside the range are never looked at
  let w : Int → ℚ := fun f => if range.start ≤ f ∧ f ≤ range.stop then v f else 0
  have hw : ∀ f, |w f| ≤ 1 := by
    intro f
    by_cases hf : range.start ≤ f ∧ f ≤ range.stop
    · simpa only [w, if_pos hf] using hv f hf.1 hf.2
    · simp [w, if_neg hf]
  have hwv : ∀ f, range.start ≤ f → f ≤ range.stop → v f = w f :=
    fun f hf hf' => (if_pos ⟨hf, hf'⟩).symm
  rw [optimized, sampled_congr target index hwv, hwv f hstart hstop]
  exact exists_evaluate_optimized target index range hw ht tolerance hstart hstop

/-- A step of one frame, and behind it samples that hardly differ. -/
def landing (f : Int) : ℚ :=
  if f = 1 then -1 else if f = 2 then 0 else if f = 3 then 1 / 1250 else 1 / 625

/-- Behind the step of `landing` the curve overshoots. -/
theorem landing_overshoots :
    ∃ y, (optimized .location 0 ⟨1, 4, by decide⟩ landing (1 / 1000) (1 / 10000)).evaluate
        ((3 : Int) : ℚ) = some y ∧ 4 * (1 / 1000) < |y - landing 3| ∧ ∃ a b c rest,
      (optimized .location 0 ⟨1, 4, by decide⟩ landing (1 / 1000) (1 / 10000)).keys =
        a :: b :: c :: rest ∧ Loose a b c ∧ b.frame < (3 : Int) ∧ (3 : Int) < c.frame ∧
        |y - landing 3| ≤ 4 * (1 / 1000) + 4 / 27 * |b.value - a.value| := by
  have hbounded : ∀ f, 1 ≤ f → f ≤ 4 → |landing f| ≤ 1 := by
    intro f _ _
    unfold landing
    split_ifs <;> norm_num
  obtain ⟨y, hy, hbound⟩ := evaluate_optimized .location 0 ⟨1, 4, by decide⟩ landing hbounded
    (1 / 1000) (by norm_num) (1 / 10000) 3 (by decide) (by decide)
  have hvalue : (optimized .location 0 ⟨1, 4, by decide⟩ landing (1 / 1000) (1 / 10000)).evaluate
      ((3 : Int) : ℚ) = some (158 / 1875) := by decide +kernel
  have hfar : 4 * (1 / 1000) < |(158 / 1875 : ℚ) - landing 3| := by
    norm_num [landing]
  obtain rfl : y = 158 / 1875 := Option.some.inj (hy.symm.trans hvalue)
  exact ⟨_, hvalue, hfar, hbound.resolve_left (not_le.mpr hfar)⟩

end SceneExport.Curve
