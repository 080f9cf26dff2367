import Mathlib
import SceneExport.Proofs.Rounding.Monotone

/-!
# Nearest whole numbers

A finite number of double width is a whole multiple of the least one, and the greater its pattern
the greater the multiple. A unit is the multiple by two to the 1074. In these terms the rounded
pattern is that of the nearest whole number, halves away from zero. Up to two to the 24 a whole
number keeps all its bits in single width, so there two frames are recorded alike if and only if
they have the same nearest whole number.
-/
namespace SceneExport.Rounding

open Float.Model.UnpackedFloat

/-- The number of a pattern as a multiple of the least one. -/
def units (p : Nat) : Nat :=
  (p - (p / 0x10000000000000 - 1) * 0x10000000000000) * 2 ^ (p / 0x10000000000000 - 1)

section Units

variable {a m p q : Nat}

/-- A mantissa may also be the next power of two. -/
lemma units_add (hle : m ≤ 2 * 0x10000000000000) (hfull : 0x10000000000000 ≤ m ∨ a = 0) :
    units (a * 0x10000000000000 + m) = m * 2 ^ a := by
  unfold units
  rcases hle.lt_or_eq with hlt | rfl
  · have hexponent : (a * 0x10000000000000 + m) / 0x10000000000000 - 1 = a := by omega
    rw [hexponent, Nat.add_sub_cancel_left]
  · have hexponent : (a * 0x10000000000000 + 2 * 0x10000000000000) / 0x10000000000000 - 1 =
        a + 1 := by omega
    have hmantissa : a * 0x10000000000000 + 2 * 0x10000000000000 - (a + 1) * 0x10000000000000 =
        0x10000000000000 := by
      omega
    rw [hexponent, hmantissa, pow_succ]
    ring

lemma exists_mantissa (p : Nat) :
    ∃ a m, p = a * 0x10000000000000 + m ∧ a = p / 0x10000000000000 - 1 ∧
    m < 2 * 0x10000000000000 ∧ (0x10000000000000 ≤ m ∨ a = 0) ∧ units p = m * 2 ^ a := by
  refine ⟨p / 0x10000000000000 - 1, p - (p / 0x10000000000000 - 1) * 0x10000000000000, ?_, rfl,
    ?_, ?_, rfl⟩
  · omega
  · omega
  · omega

lemma units_strictMono : StrictMono units := by
  intro p q h
  obtain ⟨a, m, hp, ha, hm, hfull, hunits⟩ := exists_mantissa p
  obtain ⟨b, n, hq, hb, hn, hfull', hunits'⟩ := exists_mantissa q
  have hab : a ≤ b := by omega
  rw [hunits, hunits']
  rcases hab.lt_or_eq with hlt | rfl
  · calc
      m * 2 ^ a < 2 * 0x10000000000000 * 2 ^ a := Nat.mul_lt_mul_of_pos_right hm (Nat.two_pow_pos a)
      _ = 0x10000000000000 * 2 ^ (a + 1) := by ring
      _ ≤ n * 2 ^ b :=
        Nat.mul_le_mul (hfull'.resolve_right (by omega)) (Nat.pow_le_pow_right (by norm_num) hlt)
  · exact Nat.mul_lt_mul_of_pos_right (by omega) (Nat.two_pow_pos a)

/-- One half is the least number times two to this. Irreducible, since the power is not to be
computed. -/
@[irreducible]
def halfExponent : Nat := 1073

lemma halfExponent_eq : halfExponent = 1073 := by rw [halfExponent]

/-- One half as a multiple of the least number. -/
def halfUnit : Nat := 2 ^ halfExponent

lemma halfUnit_pos : 0 < halfUnit := Nat.two_pow_pos _

lemma half_mul (ha : a < 1074) : 2 ^ (1074 - a) / 2 * 2 ^ a = halfUnit := by
  have hexponent : 1073 - a + a = halfExponent := by
    rw [halfExponent_eq]
    omega
  rw [show 1074 - a =
    1073 - a + 1 by
      omega, pow_succ, Nat.mul_div_cancel _ (by norm_num), ← pow_add, hexponent, halfUnit]

lemma unit_mul_pow (ha : a < 1074) : 2 ^ (1074 - a) * 2 ^ a = 2 * halfUnit := by
  rw [← half_mul ha, ← Nat.mul_assoc, Nat.mul_div_cancel' (dvd_pow_self 2 (by omega))]

lemma pow_eq_mul (ha : 1074 ≤ a) : 2 ^ a = 2 ^ (a - 1074) * (2 * halfUnit) := by
  have hexponent : a - 1074 + (halfExponent + 1) = a := by
    rw [halfExponent_eq]
    omega
  rw [halfUnit, ← pow_succ', ← pow_add, hexponent]

/-- The whole number nearest to the number of a pattern, halves upwards. -/
def wholeUnits (p : Nat) : Nat := (units p + halfUnit) / (2 * halfUnit)

/-- Multiples of a unit are whole. -/
lemma wholeUnits_of_eq (h : units p = m * (2 * halfUnit)) : wholeUnits p = m := by
  have hpos := halfUnit_pos
  rw [wholeUnits, h, Nat.mul_comm m, Nat.mul_add_div (by omega), Nat.div_eq_of_lt (by omega),
    Nat.add_zero]

/-- Below exponent 1075 it is enough to round the mantissa. -/
lemma wholeUnits_of_lt (hunits : units p = m * 2 ^ a) (ha : a < 1074) :
    wholeUnits p = (m + 2 ^ (1074 - a) / 2) / 2 ^ (1074 - a) := by
  rw [wholeUnits, hunits, ← unit_mul_pow ha, ← half_mul ha, ← Nat.add_mul,
    Nat.mul_div_mul_right _ _ (Nat.two_pow_pos a)]

/-- From one on the mantissa is rounded like the pattern. -/
lemma wholePattern_add (hm : m < 2 * 0x10000000000000) (hfull : 0x10000000000000 ≤ m)
    (hlo : 1022 ≤ a) (hhi : a < 1074) : wholePattern (a * 0x10000000000000 + m) =
      a * 0x10000000000000 + (m + 2 ^ (1074 - a) / 2) / 2 ^ (1074 - a) * 2 ^ (1074 - a) := by
  have hexponent : (a * 0x10000000000000 + m) / 0x10000000000000 = a + 1 := by omega
  have hbits : 1075 - (a + 1) = 1074 - a := by omega
  obtain ⟨k, hk⟩ : 2 ^ (1074 - a) ∣ a * 0x10000000000000 :=
    (pow_dvd_pow 2 (show 1074 - a ≤ 52 by omega)).mul_left a
  rw [wholePattern_of_mem hexponent (by omega) (by omega), hbits, hk, Nat.add_assoc,
    Nat.mul_add_div (Nat.two_pow_pos _), Nat.add_mul, Nat.mul_comm k]

/-- The rounded mantissa lies between the same powers of two. -/
lemma mantissa_bounds (hm : m < 2 * 0x10000000000000) (hfull : 0x10000000000000 ≤ m)
    (hlo : 1022 ≤ a) :
    0x10000000000000 ≤ (m + 2 ^ (1074 - a) / 2) / 2 ^ (1074 - a) * 2 ^ (1074 - a) ∧
      (m + 2 ^ (1074 - a) / 2) / 2 ^ (1074 - a) * 2 ^ (1074 - a) ≤ 2 * 0x10000000000000 := by
  obtain ⟨k, hk⟩ : 2 ^ (1074 - a) ∣ 0x10000000000000 := pow_dvd_pow 2 (show 1074 - a ≤ 52 by omega)
  rw [hk, Nat.mul_comm _ k] at hm hfull ⊢
  rw [← Nat.mul_assoc] at hm ⊢
  exact ⟨le_nearest_multiple (Nat.two_pow_pos _) hfull,
    nearest_multiple_le (Nat.two_pow_pos _) hm.le⟩

/-- The rounded pattern is that of the nearest whole number. -/
theorem units_wholePattern (p : Nat) : units (wholePattern p) = wholeUnits p * (2 * halfUnit) := by
  obtain ⟨a, m, hp, ha, hm, hfull, hunits⟩ := exists_mantissa p
  rcases Nat.lt_or_ge (p / 0x10000000000000) 1022 with hlo | hlo
  · -- less than a half
    have hpow : 2 * 0x10000000000000 ≤ 2 ^ (1074 - a) / 2 := by
      rw [show 1074 - a = 1073 - a + 1 by omega, pow_succ, Nat.mul_div_cancel _ (by norm_num)]
      exact Nat.pow_le_pow_right (n := 2) (i := 53) (by norm_num) (by omega)
    rw [wholePattern_of_lt hlo, wholeUnits_of_lt hunits (by omega), Nat.div_eq_of_lt (by omega),
      Nat.zero_mul]
    rfl
  have hfull : 0x10000000000000 ≤ m := hfull.resolve_right (by omega)
  rcases Nat.eq_or_lt_of_le hlo with hhalf | hlo
  · -- from a half on, less than one
    have hone : units (1022 * 0x10000000000000 + 0x10000000000000) = 2 * halfUnit := by
      rw [units_add (by norm_num) (.inl le_rfl), ← unit_mul_pow (show 1022 < 1074 by norm_num),
        show 2 ^ (1074 - 1022) = 0x10000000000000 by norm_num]
    have hwhole : wholeUnits p = 1 := by
      rw [wholeUnits_of_lt hunits (by omega), show 1074 - a = 53 by omega]
      omega
    rw [wholePattern_of_eq hhalf.symm, hwhole, Nat.one_mul, ← hone]
  rcases Nat.lt_or_ge (p / 0x10000000000000) 1075 with hhi | hhi
  · obtain ⟨hlower, hupper⟩ := mantissa_bounds (a := a) hm hfull (by omega)
    rw [wholeUnits_of_lt hunits (by omega), hp, wholePattern_add hm hfull (by omega) (by omega),
      units_add hupper (.inl hlower), Nat.mul_assoc, unit_mul_pow (by omega)]
  · have hmultiple : units p = m * 2 ^ (a - 1074) * (2 * halfUnit) := by
      rw [hunits, pow_eq_mul (by omega), Nat.mul_assoc]
    rw [wholePattern_of_ge hhi, wholeUnits_of_eq hmultiple, hmultiple]

end Units

/-- The number that is meant. Infinities and what is not a number count as zero. -/
def value (x : Float) : ℚ :=
  match x.toModel.unpack with
  | .finite s m e _ => s.apply m * 2 ^ e
  | _ => 0

/-- The nearest whole number, halves away from zero. -/
def nearest (q : ℚ) : ℤ :=
  if q < 0 then -round (-q) else round q

section Values

variable {x y : Float} {p q w w' : Nat}

/-- A number in terms of its sign and its pattern. -/
lemma value_eq (hx : pattern x < 0x7ff0000000000000) :
    value x = (sign x).apply (units (pattern x)) / (2 * halfUnit : Nat) := by
  have hunpack : x.toModel.unpack = unpack .binary64 x.toBits.toBitVec := rfl
  rcases @unpack_of_lt_top .binary64 _ hx
    with ⟨hzero, hsize⟩ | ⟨a, m, hm, hfinite, hsize, hcanonical⟩
  · have hpattern : pattern x = 0 := hsize
    have hunits : units 0 = 0 := rfl
    rw [value, hunpack, hzero, hpattern, hunits]
    cases sign x <;> simp [Sign.apply]
  · have hpattern : pattern x = a * 0x10000000000000 + m := hsize
    have hleast : least .binary64 = -1074 := by decide
    have hpow : (2 : ℚ) ^ ((a : ℤ) + least .binary64) = 2 ^ a / (2 * halfUnit : Nat) := by
      have hexponent : (a : ℤ) + least .binary64 = a - (halfExponent + 1 : Nat) := by
        rw [hleast, halfExponent_eq]
        omega
      rw [hexponent, zpow_sub₀ (by norm_num), zpow_natCast, zpow_natCast, halfUnit, ← pow_succ']
      push_cast
      rfl
    have hsign (s : Sign) : ((s.apply (m * 2 ^ a : Nat) : ℤ) : ℚ) = s.apply m * 2 ^ a := by
      cases s <;> simp [Sign.apply]
    rw [value, hunpack, hfinite, hpattern, units_add hcanonical.lt.le hcanonical.full, sign, hsign]
    simp only [hpow, mul_div_assoc]

lemma round_div (n : Nat) :
    round ((n : ℚ) / (2 * halfUnit : Nat)) = ((n + halfUnit) / (2 * halfUnit) : Nat) := by
  have hpos : (halfUnit : ℚ) ≠ 0 := Nat.cast_ne_zero.mpr halfUnit_pos.ne'
  have hsum : (n : ℚ) / (2 * halfUnit : Nat) + 1 / 2 =
      ((n + halfUnit : Nat) : ℚ) / (2 * halfUnit : Nat) := by
    push_cast
    field_simp
  rw [round_eq, hsum, Rat.floor_natCast_div_natCast]
  norm_cast

/-- The nearest whole number in terms of the sign and the pattern. -/
lemma nearest_value (hx : pattern x < 0x7ff0000000000000) :
    nearest (value x) = (sign x).apply (wholeUnits (pattern x)) := by
  have hround : round (units (pattern x) / (2 * halfUnit : Nat) : ℚ) = wholeUnits (pattern x) :=
    round_div _
  have hnonneg : (0 : ℚ) ≤ units (pattern x) / (2 * halfUnit : Nat) := by positivity
  rw [value_eq hx, nearest]
  cases sign x with
  | positive =>
    simp only [Sign.apply, Int.cast_natCast]
    rw [if_neg hnonneg.not_gt, hround]
  | negative =>
    simp only [Sign.apply, Int.cast_neg, Int.cast_natCast, neg_div, neg_neg, neg_lt_zero]
    rcases hnonneg.lt_or_eq with hpos | hzero
    · rw [if_pos hpos, hround]
    · rw [← hzero, round_zero] at hround
      rw [← hzero, if_neg (lt_irrefl _), neg_zero, round_zero, ← hround, neg_zero]

lemma abs_value (hx : pattern x < 0x7ff0000000000000) :
    |value x| = units (pattern x) / (2 * halfUnit : Nat) := by
  have hsign (s : Sign) : |((s.apply (units (pattern x)) : ℤ) : ℚ)| = units (pattern x) := by
    cases s <;> simp [Sign.apply]
  rw [value_eq hx, abs_div, hsign, Nat.abs_cast]

/-- The greatest number up to which all whole numbers have single width. -/
lemma units_limit : units 0x4170000000000000 = 0x1000000 * (2 * halfUnit) := by
  rw [show 0x4170000000000000 = 1046 * 0x10000000000000 + 0x10000000000000 by norm_num,
    units_add (by norm_num) (.inl le_rfl), ← unit_mul_pow
      (show 1046 < 1074 by norm_num), ← Nat.mul_assoc]
  norm_num

lemma pattern_le_limit (hx : pattern x < 0x7ff0000000000000) (h : |value x| ≤ 2 ^ 24) :
    pattern x ≤ 0x4170000000000000 := by
  have hpos : (0 : ℚ) < (2 * halfUnit : Nat) := Nat.cast_pos.mpr (Nat.mul_pos two_pos halfUnit_pos)
  rw [abs_value hx, div_le_iff₀ hpos] at h
  rw [← units_strictMono.le_iff_le, units_limit]
  exact_mod_cast h

/-- The patterns of zero and of the whole numbers up to the limit. -/
structure ShortPattern (w : Nat) : Prop where
  dvd : 0x20000000 ∣ w
  le : w ≤ 0x4170000000000000
  ge : w = 0 ∨ 0x3ff0000000000000 ≤ w

lemma shortPattern_wholePattern (hp : p ≤ 0x4170000000000000) : ShortPattern (wholePattern p) := by
  have hle : wholePattern p ≤ 0x4170000000000000 :=
    (wholePattern_mono hp).trans_eq (by decide +kernel)
  rcases Nat.lt_or_ge (p / 0x10000000000000) 1022 with hlo | hlo
  · rw [wholePattern_of_lt hlo]
    exact ⟨dvd_zero _, Nat.zero_le _, .inl rfl⟩
  rcases Nat.eq_or_lt_of_le hlo with hhalf | hlo
  · rw [wholePattern_of_eq hhalf.symm]
    exact ⟨by norm_num, by norm_num, .inr le_rfl⟩
  refine ⟨?_, hle, .inr (le_trans (by omega) (wholePattern_bounds rfl hlo).1)⟩
  rcases hp.lt_or_eq with hlt | rfl
  · rw [wholePattern_of_mem rfl hlo (by omega)]
    exact (pow_dvd_pow 2 (show 29 ≤ 1075 - p / 0x10000000000000 by omega)).mul_left _
  · decide +kernel

/-- Single width has room for these patterns. -/
lemma narrowPattern_of_short (h : ShortPattern w) :
    narrowPattern w = w / 0x20000000 - 0x1c0000000 := by
  obtain ⟨hdvd, hle, rfl | hge⟩ := h
  · decide +kernel
  · have hdvd' : 0x20000000 ∣ w - 0x3800000000000000 := Nat.dvd_sub hdvd (by norm_num)
    rw [narrowPattern_of_ge (by omega) (by omega), divEven_of_dvd (by norm_num) hdvd',
      min_eq_right (by omega)]
    omega

lemma narrowPattern_inj (h : ShortPattern w) (h' : ShortPattern w') :
    narrowPattern w = narrowPattern w' ↔ w = w' := by
  refine ⟨fun heq => ?_, congrArg _⟩
  rw [narrowPattern_of_short h, narrowPattern_of_short h'] at heq
  obtain ⟨⟨n, rfl⟩, hle, hge⟩ := h
  obtain ⟨⟨n', rfl⟩, hle', hge'⟩ := h'
  omega

/-- Two patterns are recorded alike just if they have the same nearest whole number. -/
lemma recorded_eq_iff (hp : p ≤ 0x4170000000000000) (hq : q ≤ 0x4170000000000000) :
    narrowPattern (wholePattern p) = narrowPattern (wholePattern q) ↔
      wholeUnits p = wholeUnits q := by
  have hpos := halfUnit_pos
  rw [narrowPattern_inj (shortPattern_wholePattern hp) (shortPattern_wholePattern hq),
    ← units_strictMono.injective.eq_iff, units_wholePattern, units_wholePattern]
  exact Nat.mul_left_inj (by omega)

lemma apply_eq_apply {f g : Nat → Nat} (s s' : Sign) {m n : Nat} (hmn : f m = f n ↔ g m = g n)
    (hm : f m = 0 ↔ g m = 0) (hn : f n = 0 ↔ g n = 0) :
    s.apply (f m) = s'.apply (f n) ↔ s.apply (g m) = s'.apply (g n) := by
  cases s <;> cases s' <;> simp only [Sign.apply] <;> omega

/-- Frames up to the limit are recorded alike just if they have the same nearest whole number. -/
theorem narrow_whole_beq_iff (hx : pattern x < 0x7ff0000000000000)
    (hy : pattern y < 0x7ff0000000000000) (hvx : |value x| ≤ 2 ^ 24) (hvy : |value y| ≤ 2 ^ 24) :
    narrow (whole x) == narrow (whole y) ↔ nearest (value x) = nearest (value y) := by
  have hle := pattern_le_limit hx hvx
  have hle' := pattern_le_limit hy hvy
  have hzero : narrowPattern (wholePattern 0) = 0 := by decide +kernel
  have hzero' : wholeUnits 0 = 0 := wholeUnits_of_eq (by rw [Nat.zero_mul]; rfl)
  have hnil {p : Nat} (hp : p ≤ 0x4170000000000000) := recorded_eq_iff hp (Nat.zero_le _)
  rw [beq_iff_rank32 (pattern32_recorded_le hx.le) (pattern32_recorded_le hy.le), rank32, rank32,
    (recorded_spec hx.le).1, (recorded_spec hx.le).2, (recorded_spec hy.le).1,
    (recorded_spec hy.le).2, nearest_value hx, nearest_value hy]
  rw [hzero, hzero'] at hnil
  exact apply_eq_apply (f := fun n => narrowPattern (wholePattern n)) (g := wholeUnits) _ _
    (recorded_eq_iff hle hle') (hnil hle) (hnil hle')

end Values

end SceneExport.Rounding
