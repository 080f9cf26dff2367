import Mathlib
import SceneExport.Decimal.Shortest

/-!
# Digits of floating-point numbers

The digits that are written for a number other than zero are never zero. A point of a grid that lies
in the interval around a number is positive, since the whole interval is. When no grid has such a
point, the digits are those of the number itself, cut off seventeen places behind the leading digit,
and the leading digit is found up to one place.
-/
namespace SceneExport.Decimal

variable {i : Interval} {tie : Tie} {k : Int}

lemma Interval.contains_zero (hlow : 0 < i.low) : i.contains 0 k = false := by
  unfold contains
  cases i.closed <;> simp [Nat.ne_of_gt hlow]

lemma Tie.choose_ne_zero {below : Nat} (h : below ≠ 0) : tie.choose below ≠ 0 := by
  cases tie with
  | even =>
    rw [Tie.choose]
    split_ifs <;> omega
  | away => exact Nat.succ_ne_zero below

lemma Interval.gridPoint?_ne_zero {n : Nat} (hlow : 0 < i.low) (h : i.gridPoint? tie k = some n) :
    n ≠ 0 := by
  rintro rfl
  have hzero := Interval.contains_zero (k := k) hlow
  unfold gridPoint? at h
  dsimp only at h
  set below := i.value * Nat.pow 10 (-k).toNat / (Nat.pow 10 k.toNat * i.denominator)
  have hbelow : i.contains below k = true → below ≠ 0 := by
    intro hcontains hbelow
    rw [hbelow, hzero] at hcontains
    cases hcontains
  split at h
  · next hcontains _ => exact hbelow hcontains (Option.some.inj h)
  · exact Nat.succ_ne_zero _ (Option.some.inj h)
  · cases h
  · next hcontains _ =>
    have hpos := hbelow hcontains
    split_ifs at h
    · exact hpos (Option.some.inj h)
    · exact Nat.succ_ne_zero _ (Option.some.inj h)
    · exact Tie.choose_ne_zero hpos (Option.some.inj h)

/-- A power of ten that is at most the value has smaller ones below it. -/
lemma Interval.reaches_pred (h : i.reaches k = true) : i.reaches (k - 1) = true := by
  simp only [reaches, decide_eq_true_iff] at h ⊢
  rcases le_or_gt 1 k with hk | hk
  · obtain ⟨n, rfl⟩ : ∃ n : Nat, k = n + 1 := ⟨(k - 1).toNat, by omega⟩
    have hup : ((n : Int) + 1).toNat = n + 1 := by omega
    have hdown : ((n : Int) + 1 - 1).toNat = n := by omega
    have hzero : (-((n : Int) + 1)).toNat = 0 := by omega
    have hzero' : (-((n : Int) + 1 - 1)).toNat = 0 := by omega
    rw [hup, hzero] at h
    rw [hdown, hzero']
    refine le_trans (Nat.mul_le_mul_right _ ?_) h
    exact Nat.pow_le_pow_right (by decide) (Nat.le_succ n)
  · obtain ⟨n, rfl⟩ : ∃ n : Nat, k = -n := ⟨(-k).toNat, by omega⟩
    have hzero : (-(n : Int)).toNat = 0 := by omega
    have hzero' : (-(n : Int) - 1).toNat = 0 := by omega
    have hup : (- -(n : Int)).toNat = n := by omega
    have hup' : (-(-(n : Int) - 1)).toNat = n + 1 := by omega
    rw [hzero, hup] at h
    rw [hzero', hup']
    refine le_trans h (Nat.mul_le_mul_left _ ?_)
    exact Nat.pow_le_pow_right (by decide) (Nat.le_succ n)

lemma Interval.reaches_sub (n : Nat) (h : i.reaches k = true) : i.reaches (k - n) = true := by
  induction n with
  | zero => simpa using h
  | succ n ih =>
    have hstep := reaches_pred ih
    rwa [show k - (n : Int) - 1 = k - ((n + 1 : Nat) : Int) by omega] at hstep

/-- Where the search for the last digit ends at the latest, from an estimate of the leading one. -/
def lastPlace (bits : Int) : Int :=
  (bits * 30103).fdiv 100000 - 18

/-- In the range of floating-point numbers the estimate is good enough: `10 ^ 3 ≤ 2 ^ 10` and
`2 ^ 13 ≤ 10 ^ 4`. -/
lemma pow_lastPlace_le {bits : Int} (hlow : -1100 ≤ bits) (hhigh : bits < 1100) :
    10 ^ (lastPlace bits).toNat * 2 ^ (1 - bits).toNat ≤
      2 ^ (bits - 1).toNat * 10 ^ (-lastPlace bits).toNat := by
  have hplace : lastPlace bits = bits * 30103 / 100000 - 18 := by
    rw [lastPlace, Int.fdiv_eq_ediv_of_nonneg _ (by decide)]
  rcases le_or_gt 1 bits with hbits | hbits
  · set q := (bits - 1).toNat / 10 with hq
    calc 10 ^ (lastPlace bits).toNat * 2 ^ (1 - bits).toNat
        = 10 ^ (lastPlace bits).toNat := by
          rw [show (1 - bits).toNat = 0 by omega, pow_zero, mul_one]
      _ ≤ 10 ^ (3 * q) := Nat.pow_le_pow_right (by decide) (by omega)
      _ = (10 ^ 3) ^ q := pow_mul 10 3 q
      _ ≤ (2 ^ 10) ^ q := Nat.pow_le_pow_left (by decide) q
      _ = 2 ^ (10 * q) := (pow_mul 2 10 q).symm
      _ ≤ 2 ^ (bits - 1).toNat := Nat.pow_le_pow_right (by decide) (by omega)
      _ ≤ 2 ^ (bits - 1).toNat * 10 ^ (-lastPlace bits).toNat :=
        Nat.le_mul_of_pos_right _ (Nat.pow_pos (by decide))
  · set t := (1 - bits).toNat / 13 + 1 with ht
    calc 10 ^ (lastPlace bits).toNat * 2 ^ (1 - bits).toNat
        = 2 ^ (1 - bits).toNat := by
          rw [show (lastPlace bits).toNat = 0 by omega, pow_zero, one_mul]
      _ ≤ 2 ^ (13 * t) := Nat.pow_le_pow_right (by decide) (by omega)
      _ = (2 ^ 13) ^ t := pow_mul 2 13 t
      _ ≤ (10 ^ 4) ^ t := Nat.pow_le_pow_left (by decide) t
      _ = 10 ^ (4 * t) := (pow_mul 10 4 t).symm
      _ ≤ 10 ^ (-lastPlace bits).toNat := Nat.pow_le_pow_right (by decide) (by omega)
      _ ≤ 2 ^ (bits - 1).toNat * 10 ^ (-lastPlace bits).toNat :=
        Nat.le_mul_of_pos_left _ (Nat.pow_pos (by decide))

lemma Interval.reaches_lastPlace (hvalue : i.value ≠ 0)
    (hlow : -1100 ≤ (i.value.log2 : Int) - i.denominator.log2)
    (hhigh : (i.value.log2 : Int) - i.denominator.log2 < 1100) :
    i.reaches (lastPlace ((i.value.log2 : Int) - i.denominator.log2)) = true := by
  have hbound := pow_lastPlace_le hlow hhigh
  have hleast : 2 ^ i.value.log2 ≤ i.value := Nat.log2_self_le hvalue
  have hmost : i.denominator ≤ 2 ^ (i.denominator.log2 + 1) := Nat.le_of_lt Nat.lt_log2_self
  set low := i.value.log2
  set high := i.denominator.log2
  set place := lastPlace ((low : Int) - high)
  -- both powers of two on one side
  have hpowers : 10 ^ place.toNat * 2 ^ (high + 1) ≤ 2 ^ low * 10 ^ (-place).toNat := by
    rcases le_or_gt (high + 1) low with hle | hgt
    · rw [show (1 - ((low : Int) - high)).toNat = 0 by omega,
        show ((low : Int) - high - 1).toNat = low - (high + 1) by
          omega, pow_zero, mul_one] at hbound
      calc 10 ^ place.toNat * 2 ^ (high + 1)
          ≤ 2 ^ (low - (high + 1)) * 10 ^ (-place).toNat * 2 ^ (high + 1) :=
            Nat.mul_le_mul_right _ hbound
        _ = 2 ^ (low - (high + 1)) * 2 ^ (high + 1) * 10 ^ (-place).toNat := by ring
        _ = 2 ^ low * 10 ^ (-place).toNat := by rw [← pow_add, Nat.sub_add_cancel hle]
    · rw [show (1 - ((low : Int) - high)).toNat = high + 1 - low by omega,
        show ((low : Int) - high - 1).toNat = 0 by omega, pow_zero, one_mul] at hbound
      calc 10 ^ place.toNat * 2 ^ (high + 1)
          = 2 ^ low * (10 ^ place.toNat * 2 ^ (high + 1 - low)) := by
            rw [← Nat.sub_add_cancel (Nat.le_of_lt hgt), pow_add]
            simp only [Nat.add_sub_cancel]
            ring
        _ ≤ 2 ^ low * 10 ^ (-place).toNat := Nat.mul_le_mul_left _ hbound
  rw [reaches, decide_eq_true_iff]
  calc Nat.pow 10 place.toNat * i.denominator
      ≤ 10 ^ place.toNat * 2 ^ (high + 1) := Nat.mul_le_mul_left _ hmost
    _ ≤ 2 ^ low * 10 ^ (-place).toNat := hpowers
    _ ≤ i.value * Nat.pow 10 (-place).toNat := Nat.mul_le_mul_right _ hleast

lemma Interval.reaches_leadingExponent (hvalue : i.value ≠ 0)
    (hlow : -1100 ≤ (i.value.log2 : Int) - i.denominator.log2)
    (hhigh : (i.value.log2 : Int) - i.denominator.log2 < 1100) :
    i.reaches (i.leadingExponent - 17) = true := by
  have hlast := reaches_lastPlace hvalue hlow hhigh
  unfold leadingExponent
  dsimp only
  split_ifs with hmore hsame
  · exact reaches_sub 17 hmore
  · exact reaches_sub 17 hsame
  · rwa [sub_sub]

lemma Interval.search_ne_zero (hlow : 0 < i.low) (hden : i.denominator ≠ 0) (tries : Nat)
    (h : i.reaches (k - tries) = true) : (i.search tie tries k).coefficient ≠ 0 := by
  induction tries generalizing k with
  | zero =>
    have hreach : i.reaches k = true := by simpa using h
    rw [reaches, decide_eq_true_iff] at hreach
    have hstep : 0 < Nat.pow 10 k.toNat * i.denominator :=
      Nat.mul_pos (Nat.pow_pos (by decide)) (Nat.pos_of_ne_zero hden)
    exact Nat.ne_of_gt (Nat.div_pos hreach hstep)
  | succ tries ih =>
    unfold search
    split
    · next n hpoint => exact gridPoint?_ne_zero hlow hpoint
    · exact ih (by rwa [sub_sub, add_comm, ← Nat.cast_succ])

lemma trim_ne_zero (limit : Nat) {d : Decimal} (h : d.coefficient ≠ 0) :
    (trim limit d).coefficient ≠ 0 := by
  induction limit generalizing d with
  | zero => exact h
  | succ limit ih =>
    unfold trim
    split_ifs with hzero
    · refine ih ?_
      simp only [Bool.and_eq_true, decide_eq_true_eq] at hzero
      dsimp only
      omega
    · exact h

/-- The binary fractions that are floating-point numbers of either width. -/
structure Binary.Sized (b : Binary) : Prop where
  positive : 0 < b.mantissa
  bounded : b.mantissa < 2 ^ 53
  least : -1074 ≤ b.exponent
  most : b.exponent ≤ 971

/-- No floating-point number but zero is written with the digit zero alone. -/
theorem shortest_ne_zero {b : Binary} (hb : b.Sized) : (shortest tie b).coefficient ≠ 0 := by
  obtain ⟨hpos, hbounded, hleast, hmost⟩ := hb
  have hscale : 0 < Nat.pow 2 (b.exponent - 2).toNat := Nat.pow_pos (by decide)
  have hlow : 0 < (Interval.around b).low := by
    refine Nat.mul_pos ?_ hscale
    split_ifs <;> omega
  have hvalue : (Interval.around b).value ≠ 0 :=
    Nat.ne_of_gt (Nat.mul_pos (Nat.mul_pos (by decide) hpos) hscale)
  have hden : (Interval.around b).denominator ≠ 0 := Nat.ne_of_gt (Nat.pow_pos (by decide))
  have hdenLog : (Interval.around b).denominator.log2 = (2 - b.exponent).toNat := Nat.log2_two_pow
  have hvalueLow : 2 + (b.exponent - 2).toNat ≤ (Interval.around b).value.log2 := by
    rw [Nat.le_log2 hvalue, pow_add]
    exact Nat.mul_le_mul_right _ (by omega)
  have hvalueHigh : (Interval.around b).value.log2 < 55 + (b.exponent - 2).toNat := by
    rw [Nat.log2_lt hvalue, pow_add]
    exact Nat.mul_lt_mul_of_pos_right (by omega) hscale
  refine trim_ne_zero 20 (Interval.search_ne_zero hlow hden 17 ?_)
  exact Interval.reaches_leadingExponent hvalue (by omega) (by omega)

end SceneExport.Decimal
