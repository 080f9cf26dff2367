import Mathlib
import SceneExport.Proofs.Rounding.Nearest
import SceneExport.Scalar

/-!
# Whole numbers in double width

A whole number below two to the 53 fits into a mantissa. Nothing is rounded off when it becomes a
floating-point number, so the numbers of frames have the order of the frames, both as numbers and in
the order of their representations. No whole number becomes something that is not a number, and any
two numbers can be compared.
-/
namespace SceneExport.Rounding

open Float.Model (Format UnpackedFloat)
open Float.Model.UnpackedFloat

section Full

variable {s : Sign} {m k n : Nat} {e : Int}

/-- The mantissa has all its bits, the leading one among them. -/
structure Full (m : Nat) : Prop where
  le : 0x10000000000000 ≤ m
  lt : m < 2 * 0x10000000000000

lemma Full.pos (h : Full m) : 0 < m := by
  have hle := h.le
  omega

lemma Full.log2_mul (h : Full m) (k : Nat) : (m * 2 ^ k).log2 = 52 + k := by
  have hpos : m * 2 ^ k ≠ 0 := (Nat.mul_pos h.pos (Nat.two_pow_pos k)).ne'
  rw [Nat.log2_eq_iff hpos, pow_add, show 52 + k + 1 = 53 + k by omega, pow_add]
  exact ⟨Nat.mul_le_mul_right _ h.le, Nat.mul_lt_mul_of_pos_right h.lt (Nat.two_pow_pos k)⟩

/-- Bits that are all zero are shifted out without a trace. -/
lemma shiftRight_mul (m k : Nat) :
    (⟨m * 2 ^ k, false, false⟩ : ExtendedMantissa) >>> k = ⟨m, false, false⟩ := by
  induction k generalizing m with
  | zero =>
    rw [pow_zero, Nat.mul_one]
    rfl
  | succ k ih =>
    have hstep : (⟨m * 2 ^ (k + 1), false, false⟩ : ExtendedMantissa) >>> (k + 1) =
        ((⟨m * 2 * 2 ^ k, false, false⟩ : ExtendedMantissa) >>> k).shiftRightOne := by
      rw [pow_succ', ← Nat.mul_assoc]
      rfl
    rw [hstep, ih]
    simp [ExtendedMantissa.shiftRightOne]

lemma shiftToTargetExponent_mul (h : Full m) (k : Nat) (he : -1074 ≤ e) :
    shiftToTargetExponent .binary64 (m * 2 ^ k) (e - k) .exact = (⟨m, false, false⟩, e) := by
  have htarget : Format.binary64.targetExponent (Float.Model.totalExponent (m * 2 ^ k) (e - k)) =
      e := by
    simp only [Format.targetExponent, Float.Model.totalExponent, h.log2_mul, Format.mantissaBits,
      Format.minExponent]
    omega
  have hamount : (e - (e - k)).toNat = k := by omega
  simp only [shiftToTargetExponent, htarget, shiftToExponent, hamount,
    ExtendedMantissa.ofMantissaAndAccuracy, shiftRight_mul, sub_add_cancel]

/-- A full mantissa with zeros behind it is not rounded. -/
lemma roundWithAccuracy_mul (h : Full m) (s : Sign) (k : Nat) (he : -1074 ≤ e) :
    roundWithAccuracy .binary64 s (m * 2 ^ k) (e - k) .exact = .finite s m e h.pos := by
  have hagain := shiftToTargetExponent_mul h 0 he
  rw [pow_zero, Nat.mul_one, Nat.cast_zero, sub_zero] at hagain
  have hrounded : (⟨m, false, false⟩ : ExtendedMantissa).roundedMantissa = m := rfl
  simp only [roundWithAccuracy, shiftToTargetExponent_mul h k he, hrounded, hagain,
    h.pos.ne', dite_false]

lemma pack_full (h : Full m) (hlo : -1074 ≤ e) (hhi : e ≤ 971) :
    pack .binary64 (.finite s m e h.pos) =
      packComponents .binary64 s (BitVec.ofNat 11 (e + 1075).toNat) (BitVec.ofNat 52 m) := by
  have hbias :
      (e + Format.binary64.exponentBias + Format.binary64.mantissaBitsWithoutImplicit).toNat =
      (e + 1075).toNat := by
    change (e + 1023 + 52).toNat = _
    omega
  have hsmall : ¬ 2 ^ Format.binary64.exponentBits ≤ (e + 1075).toNat + 1 := by
    change ¬ 2048 ≤ _
    omega
  have hbits : m.log2 + 1 = Format.binary64.mantissaBits := by
    have hlog := h.log2_mul 0
    rw [pow_zero, Nat.mul_one] at hlog
    rw [hlog]
    rfl
  simp only [pack, hbias, if_neg hsmall, if_pos hbits]

lemma Canonical.inj {spec : Format} {a m a' m' : Nat} (h : Canonical spec a m)
    (h' : Canonical spec a' m')
    (heq : a * 2 ^ spec.mantissaBitsWithoutImplicit + m =
      a' * 2 ^ spec.mantissaBitsWithoutImplicit + m') :
    a = a' ∧ m = m' := by
  rcases lt_trichotomy a a' with ha | rfl | ha
  · exact absurd heq (h.lt_of_lt h' ha).ne
  · exact ⟨rfl, Nat.add_left_cancel heq⟩
  · exact absurd heq (h'.lt_of_lt h ha).ne'

/-- The fields of a number with a full mantissa. -/
lemma size_pack_full (h : Full m) (hlo : -1074 ≤ e) (hhi : e ≤ 971) :
    size .binary64 (pack .binary64 (.finite s m e h.pos)) =
      (e + 1074).toNat * 0x10000000000000 + m ∧
      signOf .binary64 (pack .binary64 (.finite s m e h.pos)) = s := by
  have hexponent : (BitVec.ofNat 11 (e + 1075).toNat).toNat = (e + 1074).toNat + 1 := by
    rw [BitVec.toNat_ofNat]
    omega
  have hmantissa : (BitVec.ofNat 52 m).toNat + 0x10000000000000 = m := by
    have hle := h.le
    have hlt := h.lt
    rw [BitVec.toNat_ofNat]
    omega
  rw [pack_full h hlo hhi, signOf, unpackSign_packComponents, Sign.ofBitVec_toBitVec, size,
    unpackExponent_packComponents, unpackMantissa_packComponents, hexponent]
  refine ⟨?_, rfl⟩
  change ((e + 1074).toNat + 1) * 0x10000000000000 + _ = _
  omega

lemma unpack_pack_full (h : Full m) (hlo : -1074 ≤ e) (hhi : e ≤ 971) :
    unpack .binary64 (pack .binary64 (.finite s m e h.pos)) = .finite s m e h.pos := by
  obtain ⟨hsize, hsign⟩ := size_pack_full (s := s) h hlo hhi
  have hcanonical : Canonical .binary64 (e + 1074).toNat m := ⟨h.lt, .inl h.le⟩
  have hlt := h.lt
  have htop : size .binary64 (pack .binary64 (.finite s m e h.pos)) < top .binary64 := by
    rw [hsize]
    change _ < 0x7ff0000000000000
    omega
  rcases unpack_of_lt_top htop with ⟨-, hzero⟩ | ⟨a, m', hm', hunpack, hsize', hcanonical'⟩
  · have hpos := h.pos
    omega
  · obtain ⟨rfl, rfl⟩ := hcanonical.inj hcanonical' (hsize.symm.trans hsize')
    have hleast : least .binary64 = -1074 := by decide
    rw [hunpack, hsign, hleast]
    congr 1
    omega

end Full

section Whole

variable {n : Nat}

lemma two_pow_mul {a b : Nat} (h : a + b = 1074) : 2 ^ a * 2 ^ b = 2 * halfUnit := by
  have hexponent : a + b = halfExponent + 1 := by
    rw [h, halfExponent_eq]
  rw [← pow_add, hexponent, pow_succ', halfUnit]

/-- The bits of a whole number, filled up with zeros. -/
def filled (n : Nat) : Nat := n * 2 ^ (52 - n.log2)

lemma log2_le (hpos : 0 < n) (hlt : n < 0x20000000000000) : n.log2 ≤ 52 := by
  have hlog : n.log2 < 53 := (Nat.log2_lt hpos.ne').mpr hlt
  omega

lemma full_filled (hpos : 0 < n) (hlt : n < 0x20000000000000) : Full (filled n) := by
  have hlog := log2_le hpos hlt
  obtain ⟨hlo, hhi⟩ := (Nat.log2_eq_iff hpos.ne').mp (rfl : n.log2 = n.log2)
  have hlo' := Nat.mul_le_mul_right (2 ^ (52 - n.log2)) hlo
  have hhi' := Nat.mul_lt_mul_of_pos_right hhi (Nat.two_pow_pos (52 - n.log2))
  rw [← pow_add] at hlo' hhi'
  rw [show n.log2 + (52 - n.log2) = 52 by omega] at hlo'
  rw [show n.log2 + 1 + (52 - n.log2) = 53 by omega] at hhi'
  exact ⟨hlo', hhi'⟩

lemma unpacked_ofNat (hpos : 0 < n) (hlt : n < 0x20000000000000) :
    UnpackedFloat.ofNat .binary64 n =
      .finite .positive (filled n) (n.log2 - 52) (full_filled hpos hlt).pos := by
  have hlog := log2_le hpos hlt
  have hcompare : compare (n : Int) 0 = .gt := compare_gt_iff_gt.mpr (by omega)
  have htarget : Format.binary64.targetExponent (Float.Model.totalExponent n 0) = n.log2 - 52 := by
    simp only [Format.targetExponent, Float.Model.totalExponent, Format.mantissaBits,
      Format.minExponent]
    omega
  have hamount : (0 - ((n.log2 : Int) - 52)).toNat = 52 - n.log2 := by omega
  have hexponent : (0 : Int) - (52 - n.log2 : Nat) = (n.log2 - 52 : Int) - (0 : Nat) := by omega
  simp only [UnpackedFloat.ofNat, UnpackedFloat.ofInt, UnpackedFloat.normalize, hcompare,
    Int.toNat_natCast, UnpackedFloat.round, htarget, decreaseExponent, hamount,
    Nat.shiftLeft_eq, hexponent]
  have hround := roundWithAccuracy_mul (full_filled hpos hlt) .positive 0
    (e := (n.log2 : Int) - 52) (by omega)
  rwa [pow_zero, Nat.mul_one] at hround

/-- Small whole numbers go through a product with one. -/
lemma ofNat_eq_mul (hlt : n < 0x20000000000000) :
    Float.ofNat n = n.toUInt64.toFloat * Float.ofBits 0x3ff0000000000000 := by
  change Float.ofScientific n false 0 = _
  rw [Float.ofScientific, dif_pos ⟨hlt, by decide⟩]
  rfl

lemma unpacked_mul_one (hpos : 0 < n) (hlt : n < 0x20000000000000) :
    UnpackedFloat.mul .binary64 n.toUInt64.toFloat.toModel.unpack
        (Float.ofBits 0x3ff0000000000000).toModel.unpack =
      .finite .positive (filled n) (n.log2 - 52) (full_filled hpos hlt).pos := by
  have hlog := log2_le hpos hlt
  have hfull := full_filled hpos hlt
  have hword : n.toUInt64.toNat = n := by
    change n % 2 ^ 64 = n
    omega
  have hfirst : n.toUInt64.toFloat.toModel.unpack =
      .finite .positive (filled n) (n.log2 - 52) hfull.pos := by
    change unpack .binary64 (pack .binary64 (UnpackedFloat.ofNat .binary64 n.toUInt64.toNat)) = _
    rw [hword, unpacked_ofNat hpos hlt, unpack_pack_full hfull (by omega) (by omega)]
  have hone : (Float.ofBits 0x3ff0000000000000).toModel.unpack =
      .finite .positive (2 ^ 52) (-52) (by decide) := rfl
  rw [hfirst, hone]
  change roundWithAccuracy .binary64 .positive (filled n * 2 ^ 52)
    ((n.log2 : Int) - 52 + -52) .exact = _
  exact roundWithAccuracy_mul hfull .positive 52 (by omega)

/-- A whole number of either sign. -/
lemma ofInt_eq_pack {z : Int} (hne : z ≠ 0) (hlt : z.natAbs < 0x20000000000000) :
    Float.ofInt z =
      .ofModel (.pack (.finite (if z < 0 then .negative else .positive) (filled z.natAbs)
      (z.natAbs.log2 - 52) (full_filled (by omega) hlt).pos)) := by
  have hpos : 0 < z.natAbs := by omega
  have hlog := log2_le hpos hlt
  have hsmall : Float.ofNat z.natAbs = .ofModel (.pack (.finite .positive (filled z.natAbs)
      (z.natAbs.log2 - 52) (full_filled hpos hlt).pos)) := by
    rw [ofNat_eq_mul hlt, ← unpacked_mul_one hpos hlt]
    rfl
  cases z with
  | ofNat n =>
    have hofNat : Float.ofInt (.ofNat n) = Float.ofNat n := rfl
    have hnonneg : ¬ Int.ofNat n < 0 := (Int.natCast_nonneg n).not_gt
    rw [hofNat, if_neg hnonneg]
    exact hsmall
  | negSucc n =>
    have hneg : Float.ofInt (.negSucc n) =
        .ofModel (.pack (Float.ofNat (n + 1)).toModel.unpack.neg) := rfl
    have hunpack : (Float.ofNat (n + 1)).toModel.unpack = _ :=
      (congrArg (fun x => x.toModel.unpack) hsmall).trans
        (unpack_pack_full (full_filled hpos hlt) (by omega) (by omega))
    rw [hneg, hunpack, if_pos (Int.negSucc_lt_zero n)]
    rfl

/-- Sign and pattern of a whole number, the pattern as a multiple of the least number. -/
lemma ofInt_spec {z : Int} (hlt : z.natAbs < 0x20000000000000) :
    pattern (Float.ofInt z) < 0x7ff0000000000000 ∧
      units (pattern (Float.ofInt z)) = z.natAbs * (2 * halfUnit) ∧
      sign (Float.ofInt z) = if z < 0 then .negative else .positive := by
  rcases eq_or_ne z 0 with rfl | hne
  · have hpattern : pattern (Float.ofInt 0) = 0 := by decide +kernel
    have hunits : units 0 = 0 := rfl
    have hword : (Float.ofInt 0).toBits.toNat / 0x8000000000000000 = 0 := by decide +kernel
    refine ⟨by rw [hpattern]; decide, by rw [hpattern, hunits]; simp, ?_⟩
    rw [sign_eq, if_pos hword, if_neg (lt_irrefl 0)]
  · have hpos : 0 < z.natAbs := by omega
    have hlog := log2_le hpos hlt
    have hfull := full_filled hpos hlt
    obtain ⟨hsize, hsign⟩ := size_pack_full (s := if z < 0 then .negative else .positive) hfull
      (e := (z.natAbs.log2 : Int) - 52) (by omega) (by omega)
    have hexponent : ((z.natAbs.log2 : Int) - 52 + 1074).toNat = z.natAbs.log2 + 1022 := by omega
    rw [hexponent] at hsize
    rw [ofInt_eq_pack hne hlt]
    refine ⟨?_, ?_, hsign⟩
    · refine hsize.trans_lt ?_
      have hbound := hfull.lt
      omega
    · have hpattern := congrArg units hsize
      rw [units_add hfull.lt.le (.inl hfull.le)] at hpattern
      refine hpattern.trans ?_
      rw [filled, Nat.mul_assoc, two_pow_mul (by omega)]

lemma pattern_ofInt_lt {y z : Int} (hy : y.natAbs < 0x20000000000000)
    (hz : z.natAbs < 0x20000000000000) (h : y.natAbs < z.natAbs) :
    pattern (Float.ofInt y) < pattern (Float.ofInt z) := by
  obtain ⟨-, hunits, -⟩ := ofInt_spec hy
  obtain ⟨-, hunits', -⟩ := ofInt_spec hz
  rw [← units_strictMono.lt_iff_lt, hunits, hunits']
  exact Nat.mul_lt_mul_of_pos_right h (Nat.mul_pos two_pos halfUnit_pos)

/-- Patterns are in the order of the sizes, which is turned around for negative numbers. -/
lemma rank_ofInt_lt {y z : Int} (hy : y.natAbs < 0x20000000000000)
    (hz : z.natAbs < 0x20000000000000) (h : y < z) :
    rank (Float.ofInt y) < rank (Float.ofInt z) := by
  obtain ⟨-, -, hsign⟩ := ofInt_spec hy
  obtain ⟨-, -, hsign'⟩ := ofInt_spec hz
  rw [rank, rank, hsign, hsign']
  split_ifs with hy0 hz0 hz0
  · have hpattern := pattern_ofInt_lt hz hy (by omega)
    simp only [Sign.apply]
    omega
  · have hpattern := pattern_ofInt_lt (y := 0) (by decide) hy (by omega)
    simp only [Sign.apply]
    omega
  · omega
  · have hpattern := pattern_ofInt_lt hy hz (by omega)
    simp only [Sign.apply]
    omega

/-- Whole numbers have the order of the numbers they become. -/
theorem ofInt_lt_ofInt {y z : Int} (hy : y.natAbs < 0x20000000000000)
    (hz : z.natAbs < 0x20000000000000) (h : y < z) : Float.ofInt y < Float.ofInt z :=
  (lt_iff_rank (ofInt_spec hy).1.le (ofInt_spec hz).1.le).mpr (rank_ofInt_lt hy hz h)

/-- In the order of all representations the negative numbers stand one place lower, so that the two
zeros are told apart. -/
lemma floatRank_cases (x : Float) :
    sign x = .positive ∧ floatRank x = pattern x ∨
    sign x = .negative ∧ floatRank x = -1 - pattern x := by
  have hword : x.toBits.toNat < 2 * 0x8000000000000000 := x.toBits.toNat_lt
  unfold floatRank
  dsimp only
  rw [pattern_eq, sign_eq]
  by_cases hsmall : x.toBits.toNat < 0x8000000000000000
  · have hquot : x.toBits.toNat / 0x8000000000000000 = 0 := by omega
    have hbits : (x.toBits.toNat : Int) < 0x8000000000000000 := by omega
    exact .inl ⟨if_pos hquot, by rw [if_pos hbits]; omega⟩
  · have hquot : ¬ x.toBits.toNat / 0x8000000000000000 = 0 := by omega
    have hbits : ¬ (x.toBits.toNat : Int) < 0x8000000000000000 := by omega
    exact .inr ⟨if_neg hquot, by rw [if_neg hbits]; omega⟩

lemma floatRank_lt_of_rank {x y : Float} (h : rank x < rank y) : floatRank x < floatRank y := by
  rw [rank, rank] at h
  rcases floatRank_cases x with ⟨hx, hrank⟩ | ⟨hx, hrank⟩ <;>
    rcases floatRank_cases y with ⟨hy, hrank'⟩ | ⟨hy, hrank'⟩ <;>
    rw [hx, hy] at h <;> simp only [Sign.apply] at h <;> omega

/-- Whole numbers have the order of the representations they get. -/
theorem order_ofInt {y z : Int} (hy : y.natAbs < 0x20000000000000)
    (hz : z.natAbs < 0x20000000000000) (h : y < z) :
    Scalar.order (Float.ofInt y) (Float.ofInt z) = .lt :=
  compare_lt_iff_lt.mpr (floatRank_lt_of_rank (rank_ofInt_lt hy hz h))

end Whole

section Comparable

variable {spec : Format} {x y : Float}

lemma isNaN_unpack_packComponents {s : Sign} {e : BitVec spec.exponentBits}
    {m : BitVec spec.mantissaBitsWithoutImplicit}
    (h : e ≠ -BitVec.ofNat spec.exponentBits 1 ∨
      m = BitVec.ofNat spec.mantissaBitsWithoutImplicit 0) :
    (unpack spec (packComponents spec s e m)).isNaN = false := by
  simp only [unpack, unpackExponent_packComponents, unpackMantissa_packComponents]
  split_ifs with hones hnil
  · rfl
  · exact absurd h (not_or.mpr ⟨not_not.mpr hones, hnil⟩)
  all_goals rfl

lemma isNaN_unpack_pack {u : UnpackedFloat} (h : u.isNaN = false) :
    (unpack spec (pack spec u)).isNaN = false := by
  have hwidth : 1 < 2 ^ spec.exponentBits := Nat.one_lt_two_pow spec.he.ne'
  have hother : ∀ n, n + 1 < 2 ^ spec.exponentBits →
      BitVec.ofNat spec.exponentBits n ≠ -BitVec.ofNat spec.exponentBits 1 := by
    intro n hn heq
    have hnat := congrArg BitVec.toNat heq
    rw [BitVec.neg_one_eq_allOnes, BitVec.toNat_allOnes, BitVec.toNat_ofNat,
      Nat.mod_eq_of_lt (by omega)] at hnat
    omega
  cases u with
  | notANumber => cases h
  | infinity s => exact isNaN_unpack_packComponents (.inr rfl)
  | zero s => exact isNaN_unpack_packComponents (.inr rfl)
  | finite s m e hm =>
    simp only [pack]
    split_ifs with hlarge
    · exact isNaN_unpack_packComponents (.inr rfl)
    · exact isNaN_unpack_packComponents (.inl (hother _ (not_le.mp hlarge)))
    · exact isNaN_unpack_packComponents (.inl (hother 0 hwidth))

lemma isNaN_mul_finite {s s' : Sign} {m m' : Nat} {e e' : Int} (hm : 0 < m) (hm' : 0 < m') :
    (UnpackedFloat.mul spec (.finite s m e hm) (.finite s' m' e' hm')).isNaN = false := by
  simp only [UnpackedFloat.mul, roundWithAccuracy]
  split_ifs <;> rfl

/-- What a whole number becomes before it is packed. -/
lemma exists_ofNat (n : Nat) :
    ∃ u : UnpackedFloat, u.isNaN = false ∧ Float.ofNat n = .ofModel (.pack u) := by
  by_cases hlt : n < 0x20000000000000
  · rw [ofNat_eq_mul hlt]
    rcases Nat.eq_zero_or_pos n with rfl | hpos
    · exact ⟨.zero .positive, rfl, by rfl⟩
    · exact ⟨_, by rw [unpacked_mul_one hpos hlt]; rfl, rfl⟩
  · have hlarge : Float.ofNat n = .ofModel (.ofScientific n 0) := by
      change Float.ofScientific n false 0 = _
      rw [Float.ofScientific, dif_neg fun h => hlt h.1]
      rfl
    have hpos : n ≠ 0 := by omega
    have hwidth : (0 : Int) ≤ 2 ^ Format.binary64.exponentBits := by positivity
    have hlow : ¬ (0 : Int) < -(2 ^ Format.binary64.exponentBits + n.log2) := by omega
    rw [hlarge, Float.Model.ofScientific, UnpackedFloat.ofScientific, dif_neg hpos,
      if_neg hwidth.not_gt, if_neg hlow, if_pos (le_refl (0 : Int))]
    refine ⟨_, ?_, rfl⟩
    exact isNaN_mul_finite _ _

/-- A whole number is a number. -/
theorem isNaN_ofInt (z : Int) : (Float.ofInt z).isNaN = false := by
  cases z with
  | ofNat n =>
    obtain ⟨u, hu, hofNat⟩ := exists_ofNat n
    have heq : Float.ofInt (.ofNat n) = Float.ofNat n := rfl
    rw [heq, hofNat]
    exact isNaN_unpack_pack hu
  | negSucc n =>
    obtain ⟨u, hu, hofNat⟩ := exists_ofNat (n + 1)
    have heq : Float.ofInt (.negSucc n) =
        .ofModel (.pack (Float.ofNat (n + 1)).toModel.unpack.neg) := rfl
    have hnan : (Float.ofNat (n + 1)).toModel.unpack.isNaN = false := by
      rw [hofNat]
      exact isNaN_unpack_pack hu
    rw [heq]
    refine isNaN_unpack_pack ?_
    cases hneg : (Float.ofNat (n + 1)).toModel.unpack <;> simp_all [UnpackedFloat.neg, isNaN]

lemma pattern_le_top (hx : x.isNaN = false) : pattern x ≤ 0x7ff0000000000000 := by
  by_contra hgt
  have htop : ¬ size .binary64 x.toBits.toBitVec < top .binary64 := fun hlt => hgt hlt.le
  rw [size_lt_top_iff, not_not] at htop
  have hnil : @unpackMantissa .binary64 x.toBits.toBitVec ≠ BitVec.ofNat 52 0 := by
    intro hnil
    have hsize : pattern x = 0x7ff0000000000000 := by
      rw [pattern, size, htop, hnil]
      rfl
    exact hgt hsize.le
  have hnan' : x.isNaN = true := by
    change (unpack .binary64 x.toBits.toBitVec).isNaN = true
    simp only [unpack, if_pos htop, if_neg hnil]
    rfl
  rw [hx] at hnan'
  cases hnan'

lemma le_iff_rank (hx : pattern x ≤ 0x7ff0000000000000) (hy : pattern y ≤ 0x7ff0000000000000) :
    x ≤ y ↔ rank x ≤ rank y := by
  have hcompare : x.toModel.unpack.compare y.toModel.unpack = some (compare (rank x) (rank y)) :=
    compare_unpack hx hy
  have hle : x ≤ y ↔ (x.toModel.unpack.compare y.toModel.unpack).any Ordering.isLE = true :=
    decide_eq_true_iff
  rw [hle, hcompare, Option.any_some, Ordering.isLE_iff_ne_gt]
  exact (not_congr compare_gt_iff_gt).trans not_lt

/-- Of two numbers one is at least the other. -/
theorem le_total_of_isNaN (hx : x.isNaN = false) (hy : y.isNaN = false) : x ≤ y ∨ y ≤ x := by
  have hpx := pattern_le_top hx
  have hpy := pattern_le_top hy
  rw [le_iff_rank hpx hpy, le_iff_rank hpy hpx]
  exact le_total _ _

lemma not_le_iff_of_isNaN (hx : x.isNaN = false) (hy : y.isNaN = false) : ¬ x ≤ y ↔ y < x := by
  rw [le_iff_rank (pattern_le_top hx) (pattern_le_top hy),
    lt_iff_rank (pattern_le_top hy) (pattern_le_top hx), not_le]

lemma le_trans_of_isNaN {z : Float} (hx : x.isNaN = false) (hy : y.isNaN = false)
    (hz : z.isNaN = false) (hxy : x ≤ y) (hyz : y ≤ z) : x ≤ z := by
  have hpx := pattern_le_top hx
  have hpy := pattern_le_top hy
  have hpz := pattern_le_top hz
  rw [le_iff_rank hpx hpy] at hxy
  rw [le_iff_rank hpy hpz] at hyz
  exact (le_iff_rank hpx hpz).mpr (hxy.trans hyz)

end Comparable

end SceneExport.Rounding
