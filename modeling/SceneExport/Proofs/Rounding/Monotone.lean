import Mathlib
import SceneExport.Proofs.Rounding.Order

/-!
# Rounding keeps the order

Both roundings are made on patterns, and they keep the order of patterns: within one exponent
because quotients are rounded to greater numbers the greater they are, and from one exponent to the
next because a rounded number does not pass the next power of two. Signs stay as they are. So of two
numbers the greater one is never rounded to a smaller number, but both may be rounded to the same.
-/
namespace SceneExport.Rounding

open Float.Model.UnpackedFloat

section DivEven

variable {n d n' d' : Nat}

lemma div_le_divEven (n d : Nat) : n / d ≤ divEven n d := by
  unfold divEven
  split <;> omega

lemma divEven_le_succ (n d : Nat) : divEven n d ≤ n / d + 1 := by
  unfold divEven
  split <;> omega

/-- Greater quotients are rounded to greater numbers. -/
lemma divEven_le_divEven (hd : 0 < d) (hd' : 0 < d') (h : n * d' ≤ n' * d) :
    divEven n d ≤ divEven n' d' := by
  have hq : n / d ≤ n' / d' := by
    rw [Nat.le_div_iff_mul_le hd']
    refine Nat.le_of_mul_le_mul_right ?_ hd
    calc n / d * d' * d = n / d * d * d' := by ring
      _ ≤ n * d' := Nat.mul_le_mul_right _ (Nat.div_mul_le_self n d)
      _ ≤ n' * d := h
  rcases hq.lt_or_eq with hlt | heq
  · exact (divEven_le_succ n d).trans ((Nat.succ_le_of_lt hlt).trans (div_le_divEven n' d'))
  -- of two numbers with the same whole part the one with the greater rest is rounded up first
  · have hrest : n % d * d' ≤ n' % d' * d := by
      have hn := congrArg (· * d') (Nat.div_add_mod n d)
      have hn' := congrArg (· * d) (Nat.div_add_mod n' d')
      simp only [Nat.add_mul, ← heq] at hn hn'
      have hwhole : d * (n / d) * d' = d' * (n / d) * d := by ring
      omega
    unfold divEven
    split_ifs with hup hdown hdown
    · exact hq
    · omega
    · rcases hdown with hlt | ⟨hhalf, heven⟩
      · have hlt : 2 * (n % d) * d' < d * d' := by nlinarith
        have hlt := Nat.lt_of_mul_lt_mul_right hlt
        omega
      · have hle : 2 * (n % d) * d' ≤ d * d' := by nlinarith
        have hle := Nat.le_of_mul_le_mul_right hle hd'
        omega
    · omega

lemma divEven_of_dvd (hd : 0 < d) (h : d ∣ n) : divEven n d = n / d := by
  have hr : n % d = 0 := Nat.mod_eq_zero_of_dvd h
  rw [divEven, if_pos (.inl (by omega))]

end DivEven

section Patterns

variable {p p' e u k : Nat}

lemma wholePattern_of_lt (h : p / 0x10000000000000 < 1022) : wholePattern p = 0 :=
  if_pos h

lemma wholePattern_of_eq (h : p / 0x10000000000000 = 1022) :
    wholePattern p = 0x3ff0000000000000 := by
  simp only [wholePattern, h, lt_irrefl, if_false, if_true]

/-- Between exponent 1023 and 1075 the last bits of a pattern are fractions of a unit. -/
lemma wholePattern_of_mem (he : p / 0x10000000000000 = e) (hlo : 1023 ≤ e) (hhi : e < 1075) :
    wholePattern p = (p + 2 ^ (1075 - e) / 2) / 2 ^ (1075 - e) * 2 ^ (1075 - e) := by
  simp only [wholePattern, he, if_neg (show ¬ e < 1022 by omega), if_neg (show ¬ e = 1022 by omega),
    if_pos hhi, Nat.pow_eq]

lemma wholePattern_of_ge (h : 1075 ≤ p / 0x10000000000000) : wholePattern p = p := by
  simp only [wholePattern, if_neg (show ¬ p / 0x10000000000000 < 1022 by omega),
    if_neg (show ¬ p / 0x10000000000000 = 1022 by omega),
    if_neg (show ¬ p / 0x10000000000000 < 1075 by omega)]

lemma unit_mul (hlo : 1023 ≤ e) (hhi : e < 1075) :
    2 ^ (e - 1023) * 2 ^ (1075 - e) = 0x10000000000000 := by
  rw [← pow_add, show e - 1023 + (1075 - e) = 52 by omega]
  norm_num

lemma le_nearest_multiple (hu : 0 < u) (h : k * u ≤ p) : k * u ≤ (p + u / 2) / u * u :=
  Nat.mul_le_mul_right _ ((Nat.le_div_iff_mul_le hu).mpr (h.trans (Nat.le_add_right _ _)))

lemma nearest_multiple_le (hu : 0 < u) (h : p ≤ k * u) : (p + u / 2) / u * u ≤ k * u := by
  refine Nat.mul_le_mul_right _ (Nat.lt_succ_iff.mp ((Nat.div_lt_iff_lt_mul hu).mpr ?_))
  rw [Nat.succ_mul]
  omega

/-- The nearest whole number lies between the same powers of two. -/
lemma wholePattern_bounds (he : p / 0x10000000000000 = e) (hlo : 1023 ≤ e) :
    e * 0x10000000000000 ≤ wholePattern p ∧ wholePattern p ≤ (e + 1) * 0x10000000000000 := by
  have hp : e * 0x10000000000000 ≤ p ∧ p ≤ (e + 1) * 0x10000000000000 := by omega
  rcases Nat.lt_or_ge e 1075 with hhi | hhi
  · rw [wholePattern_of_mem he hlo hhi]
    rw [← unit_mul hlo hhi, ← Nat.mul_assoc, ← Nat.mul_assoc] at hp ⊢
    exact ⟨le_nearest_multiple (Nat.two_pow_pos _) hp.1,
      nearest_multiple_le (Nat.two_pow_pos _) hp.2⟩
  · rw [wholePattern_of_ge (he ▸ hhi)]
    exact hp

/-- Greater numbers have greater nearest whole numbers. -/
lemma wholePattern_mono : Monotone wholePattern := by
  intro p p' h
  have he : p / 0x10000000000000 ≤ p' / 0x10000000000000 := Nat.div_le_div_right h
  rcases Nat.lt_or_ge (p / 0x10000000000000) 1022 with hlo | hlo
  · rw [wholePattern_of_lt hlo]
    exact Nat.zero_le _
  rcases Nat.eq_or_lt_of_le hlo with hhalf | hlo
  · rw [wholePattern_of_eq hhalf.symm]
    rcases Nat.eq_or_lt_of_le (hlo.trans he) with hhalf' | hlo'
    · rw [wholePattern_of_eq hhalf'.symm]
    · have hbounds := (wholePattern_bounds rfl hlo').1
      omega
  rcases he.lt_or_eq with hlt | heq
  · have hupper := (wholePattern_bounds rfl hlo).2
    have hlower := (wholePattern_bounds rfl (hlo.trans_le he)).1
    omega
  rcases Nat.lt_or_ge (p / 0x10000000000000) 1075 with hhi | hhi
  · rw [wholePattern_of_mem rfl hlo hhi, wholePattern_of_mem heq.symm hlo hhi]
    exact Nat.mul_le_mul_right _ (Nat.div_le_div_right (Nat.add_le_add_right h _))
  · rw [wholePattern_of_ge hhi, wholePattern_of_ge (hhi.trans he)]
    exact h

lemma wholePattern_le_top (h : p ≤ 0x7ff0000000000000) : wholePattern p ≤ 0x7ff0000000000000 :=
  wholePattern_mono h

lemma narrowPattern_of_lt (he : p / 0x10000000000000 = e) (hlt : e < 897) :
    narrowPattern p = divEven (p % 0x10000000000000 + 0x10000000000000) (2 ^ (926 - e)) := by
  have htop : ¬ 0x7ff0000000000000 < p := by omega
  simp only [narrowPattern, he, if_neg htop, if_pos hlt, Nat.pow_eq]

lemma narrowPattern_of_ge (hge : 897 ≤ p / 0x10000000000000) (htop : p ≤ 0x7ff0000000000000) :
    narrowPattern p = min 0x7f800000 (divEven (p - 0x3800000000000000) 0x20000000) := by
  simp only [narrowPattern, if_neg (show ¬ 0x7ff0000000000000 < p by omega),
    if_neg (show ¬ p / 0x10000000000000 < 897 by omega)]

/-- Numbers below exponent 897 become numbers without a leading bit, or the least one with it. -/
lemma narrowPattern_le (hlt : p / 0x10000000000000 < 897) : narrowPattern p ≤ 0x800000 := by
  rw [narrowPattern_of_lt rfl hlt]
  have hpow : 0x40000000 ≤ 2 ^ (926 - p / 0x10000000000000) := by
    calc 0x40000000 = 2 ^ 30 := by norm_num
      _ ≤ 2 ^ (926 - p / 0x10000000000000) := Nat.pow_le_pow_right (by norm_num) (by omega)
  calc divEven _ _ ≤ divEven 0x20000000000000 0x40000000 := by
        refine divEven_le_divEven (Nat.two_pow_pos _) (by norm_num) ?_
        have hmod := Nat.mod_lt p (show 0 < 0x10000000000000 by norm_num)
        exact Nat.mul_le_mul (by omega) hpow
    _ = 0x800000 := by decide

/-- Greater numbers become greater numbers of single width. -/
lemma narrowPattern_mono (h : p ≤ p') (htop : p' ≤ 0x7ff0000000000000) :
    narrowPattern p ≤ narrowPattern p' := by
  have he : p / 0x10000000000000 ≤ p' / 0x10000000000000 := Nat.div_le_div_right h
  rcases Nat.lt_or_ge (p' / 0x10000000000000) 897 with hlt' | hge'
  · have hmod := Nat.mod_lt p (show 0 < 0x10000000000000 by norm_num)
    rw [narrowPattern_of_lt rfl (he.trans_lt hlt'), narrowPattern_of_lt rfl hlt']
    refine divEven_le_divEven (Nat.two_pow_pos _) (Nat.two_pow_pos _) ?_
    rcases he.lt_or_eq with hlt | heq
    · -- one more in the exponent is at least a factor of two
      have hpow : 2 * 2 ^ (926 - p' / 0x10000000000000) ≤ 2 ^ (926 - p / 0x10000000000000) := by
        rw [← pow_succ']
        exact Nat.pow_le_pow_right (by norm_num) (by omega)
      calc (p % 0x10000000000000 + 0x10000000000000) * 2 ^ (926 - p' / 0x10000000000000)
          ≤ (0x10000000000000 * 2) * 2 ^ (926 - p' / 0x10000000000000) :=
            Nat.mul_le_mul_right _ (by omega)
        _ = 0x10000000000000 * (2 * 2 ^ (926 - p' / 0x10000000000000)) := Nat.mul_assoc _ _ _
        _ ≤ _ := Nat.mul_le_mul (Nat.le_add_left _ _) hpow
    · rw [heq]
      exact Nat.mul_le_mul_right _ (by omega)
  · rw [narrowPattern_of_ge hge' htop]
    rcases Nat.lt_or_ge (p / 0x10000000000000) 897 with hlt | hge
    · refine (narrowPattern_le hlt).trans (le_min (by norm_num) ?_)
      refine le_trans ?_ (div_le_divEven _ _)
      omega
    · rw [narrowPattern_of_ge hge (h.trans htop)]
      refine min_le_min_left _ (divEven_le_divEven (by norm_num) (by norm_num) ?_)
      exact Nat.mul_le_mul_right _ (Nat.sub_le_sub_right h _)

lemma narrowPattern_le_top (h : p ≤ 0x7ff0000000000000) : narrowPattern p ≤ 0x7f800000 := by
  rcases Nat.lt_or_ge (p / 0x10000000000000) 897 with hlt | hge
  · exact (narrowPattern_le hlt).trans (by norm_num)
  · rw [narrowPattern_of_ge hge h]
    exact min_le_left _ _

end Patterns

section Numbers

variable {x y : Float}

/-- The nearest whole number has the same sign. -/
lemma whole_spec (hx : pattern x ≤ 0x7ff0000000000000) :
    pattern (whole x) = wholePattern (pattern x) ∧ sign (whole x) = sign x := by
  have hbits := x.toBits.toNat_lt
  have htop := wholePattern_le_top hx
  rw [pattern_eq x] at htop
  rw [pattern_eq x, sign_eq x]
  exact ofBits_spec (by omega) htop

/-- The nearest number of single width has the same sign. -/
lemma narrow_spec (hx : pattern x ≤ 0x7ff0000000000000) :
    pattern32 (narrow x) = narrowPattern (pattern x) ∧ sign32 (narrow x) = sign x := by
  have hbits := x.toBits.toNat_lt
  have htop := narrowPattern_le_top hx
  rw [pattern_eq x] at htop
  rw [pattern_eq x, sign_eq x]
  exact ofBits_spec32 (by omega) htop

lemma apply_le_apply {f : Nat → Nat} (hzero : f 0 = 0) (s s' : Sign) {m n : Nat}
    (hmn : m ≤ n → f m ≤ f n) (hnm : n ≤ m → f n ≤ f m) (h : s.apply m ≤ s'.apply n) :
    s.apply (f m) ≤ s'.apply (f n) := by
  cases s <;> cases s' <;> simp only [Sign.apply] at h ⊢
  · have hle := hnm (by omega)
    omega
  · omega
  · obtain ⟨rfl, rfl⟩ : m = 0 ∧ n = 0 := by omega
    simp [hzero]
  · have hle := hmn (by omega)
    omega

/-- The recorded pattern of a frame. -/
lemma recorded_spec (hx : pattern x ≤ 0x7ff0000000000000) :
    pattern32 (narrow (whole x)) = narrowPattern (wholePattern (pattern x)) ∧
      sign32 (narrow (whole x)) = sign x := by
  obtain ⟨hwhole, hsign⟩ := whole_spec hx
  have htop := wholePattern_le_top hx
  rw [← hwhole] at htop
  obtain ⟨hnarrow, hsign'⟩ := narrow_spec htop
  exact ⟨by rw [hnarrow, hwhole], hsign'.trans hsign⟩

lemma pattern32_recorded_le (hx : pattern x ≤ 0x7ff0000000000000) :
    pattern32 (narrow (whole x)) ≤ 0x7f800000 := by
  rw [(recorded_spec hx).1]
  exact narrowPattern_le_top (wholePattern_le_top hx)

/-- A greater number is not rounded to a smaller one. -/
theorem narrow_whole_le (hx : pattern x ≤ 0x7ff0000000000000) (hy : pattern y ≤ 0x7ff0000000000000)
    (h : x < y) : narrow (whole x) ≤ narrow (whole y) := by
  rw [le_iff_rank32 (pattern32_recorded_le hx) (pattern32_recorded_le hy), rank32, rank32]
  rw [(recorded_spec hx).1, (recorded_spec hx).2, (recorded_spec hy).1, (recorded_spec hy).2]
  have hzero : narrowPattern (wholePattern 0) = 0 := by decide +kernel
  refine apply_le_apply (f := fun n => narrowPattern (wholePattern n)) hzero _ _ (fun hle => ?_)
    (fun hle => ?_) ((lt_iff_rank hx hy).mp h).le
  · exact narrowPattern_mono (wholePattern_mono hle) (wholePattern_le_top hy)
  · exact narrowPattern_mono (wholePattern_mono hle) (wholePattern_le_top hx)

end Numbers

end SceneExport.Rounding
