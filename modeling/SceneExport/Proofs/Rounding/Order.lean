import Mathlib
import SceneExport.Rounding

/-!
# The order of bit patterns

A bit pattern without its sign is a whole number that grows with the size of the number it stands
for: exponents come first, and all but the least numbers have the same leading bit in front of their
fraction. So floating-point numbers of either width are compared like whole numbers, the patterns
with their signs in front. The two zeros have the same place.
-/
namespace SceneExport.Rounding

open Float.Model (Format UnpackedFloat)
open Float.Model.UnpackedFloat

section Patterns

variable (spec : Format)

/-- The pattern of a number without its sign. -/
def size (b : BitVec spec.numBits) : Nat :=
  (unpackExponent b).toNat * 2 ^ spec.mantissaBitsWithoutImplicit + (unpackMantissa b).toNat

def signOf (b : BitVec spec.numBits) : Sign := Sign.ofBitVec (unpackSign b)

/-- Where a number stands in the order of numbers. -/
def place (b : BitVec spec.numBits) : Int := (signOf spec b).apply (size spec b)

/-- The pattern of the infinities. What is not a number lies above. -/
def top : Nat := (2 ^ spec.exponentBits - 1) * 2 ^ spec.mantissaBitsWithoutImplicit

/-- The exponent of the last bit of the least numbers. -/
def least : Int := 1 - (spec.exponentBias + spec.mantissaBitsWithoutImplicit : Int)

/-- A mantissa and its exponent, counted from the least one. Mantissas have a bit more than
fractions, and it is set except at the least exponent. -/
structure Canonical (exponent mantissa : Nat) : Prop where
  lt : mantissa < 2 * 2 ^ spec.mantissaBitsWithoutImplicit
  full : 2 ^ spec.mantissaBitsWithoutImplicit ≤ mantissa ∨ exponent = 0

variable {spec}

namespace Canonical

variable {a m a' m' : Nat}

lemma lt_of_lt (h : Canonical spec a m) (h' : Canonical spec a' m') (ha : a < a') :
    a * 2 ^ spec.mantissaBitsWithoutImplicit + m <
      a' * 2 ^ spec.mantissaBitsWithoutImplicit + m' := by
  have hlt := h.lt
  have hfull : 2 ^ spec.mantissaBitsWithoutImplicit ≤ m' := h'.full.resolve_right (by omega)
  have hstep : (a + 1) * 2 ^ spec.mantissaBitsWithoutImplicit ≤
      a' * 2 ^ spec.mantissaBitsWithoutImplicit :=
    Nat.mul_le_mul_right _ ha
  rw [Nat.add_one_mul] at hstep
  omega

/-- Exponents are compared first, and mantissas if they are equal. Patterns are compared in the same
way. -/
lemma compare_eq (h : Canonical spec a m) (h' : Canonical spec a' m') (c : Int) :
    (compare (a + c) (a' + c)).then (compare m m') =
      compare ((a * 2 ^ spec.mantissaBitsWithoutImplicit + m : Nat) : Int)
        (a' * 2 ^ spec.mantissaBitsWithoutImplicit + m' : Nat) := by
  rcases lt_trichotomy a a' with ha | rfl | ha
  · have hlt := h.lt_of_lt h' ha
    rw [compare_lt_iff_lt.mpr (Int.ofNat_lt.mpr hlt), compare_lt_iff_lt.mpr (by omega)]
    rfl
  · rw [compare_eq_iff_eq.mpr (rfl : (a : Int) + c = a + c), ← cmp_eq_compare, ← cmp_eq_compare]
    have hmono : StrictMono fun n : Nat =>
        ((a * 2 ^ spec.mantissaBitsWithoutImplicit + n : Nat) : Int) :=
      fun _ _ hn => Int.ofNat_lt.mpr (Nat.add_lt_add_left hn _)
    exact (hmono.cmp_map_eq m m').symm
  · have hlt := h'.lt_of_lt h ha
    rw [compare_gt_iff_gt.mpr (Int.ofNat_lt.mpr hlt), compare_gt_iff_gt.mpr (by omega)]
    rfl

end Canonical

lemma toNat_leading_one {n : Nat} (m : BitVec n) : (1#1 ++ m).toNat = 2 ^ n + m.toNat := by
  have hor := Nat.two_pow_add_eq_or_of_lt m.isLt 1
  simpa [BitVec.toNat_append, Nat.shiftLeft_eq] using hor.symm

lemma two_pow_le_top (spec : Format) : 2 ^ spec.mantissaBitsWithoutImplicit ≤ top spec :=
  Nat.le_mul_of_pos_left _ (Nat.sub_pos_of_lt (Nat.one_lt_two_pow spec.he.ne'))

/-- The sign is the first bit, and all others are the pattern. -/
lemma size_eq (b : BitVec spec.numBits) :
    size spec b = b.toNat % 2 ^ (spec.mantissaBitsWithoutImplicit + spec.exponentBits) := by
  have hmantissa := spec.hm
  have hexponent := spec.he
  have hlow : spec.mantissaBitsWithoutImplicit - 1 - 0 + 1 = spec.mantissaBitsWithoutImplicit := by
    omega
  have hhigh : spec.mantissaBitsWithoutImplicit + spec.exponentBits - 1 -
      spec.mantissaBitsWithoutImplicit + 1 = spec.exponentBits := by omega
  simp only [size, unpackExponent, unpackMantissa, BitVec.toNat_cast, BitVec.extractLsb_toNat,
    Nat.shiftRight_eq_div_pow, hlow, hhigh, pow_zero, Nat.div_one]
  rw [pow_add, Nat.mod_mul, Nat.mul_comm, Nat.add_comm]

lemma signOf_eq (b : BitVec spec.numBits) : signOf spec b =
    if b.toNat / 2 ^ (spec.mantissaBitsWithoutImplicit + spec.exponentBits) = 0 then .positive
    else .negative := by
  have hlt : b.toNat / 2 ^ (spec.mantissaBitsWithoutImplicit + spec.exponentBits) < 2 := by
    have hbits : spec.numBits = spec.mantissaBitsWithoutImplicit + spec.exponentBits + 1 := by
      rw [Format.numBits]
      omega
    exact Nat.div_lt_of_lt_mul (b.isLt.trans_eq (by rw [hbits, pow_succ]))
  simp only [signOf, Sign.ofBitVec, unpackSign, BitVec.toNat_eq, BitVec.toNat_cast,
    BitVec.extractLsb_toNat, Nat.shiftRight_eq_div_pow, Nat.sub_self, Nat.zero_add, pow_one,
    Nat.mod_eq_of_lt hlt, BitVec.toNat_zero]

variable {b b' : BitVec spec.numBits}

/-- The exponent is all ones for infinities and what is not a number, and for nothing else. -/
lemma size_lt_top_iff :
    size spec b < top spec ↔ unpackExponent b ≠ -BitVec.ofNat spec.exponentBits 1 := by
  have hones : (-BitVec.ofNat spec.exponentBits 1).toNat = 2 ^ spec.exponentBits - 1 := by
    rw [BitVec.neg_one_eq_allOnes, BitVec.toNat_allOnes]
  have hexponent := (unpackExponent b).isLt
  have hmantissa := (unpackMantissa b).isLt
  rw [size, top, Ne, BitVec.toNat_eq, hones]
  constructor
  · intro hlt heq
    rw [heq] at hlt
    omega
  · intro hne
    have hstep : ((unpackExponent b).toNat + 1) * 2 ^ spec.mantissaBitsWithoutImplicit ≤
        (2 ^ spec.exponentBits - 1) * 2 ^ spec.mantissaBitsWithoutImplicit :=
          Nat.mul_le_mul_right _ (by omega)
    rw [Nat.add_one_mul] at hstep
    omega

/-- What a finite pattern stands for. -/
lemma unpack_of_lt_top (hb : size spec b < top spec) :
    (unpack spec b = .zero (signOf spec b) ∧ size spec b = 0) ∨
    ∃ (a m : Nat) (hm : 0 < m), unpack spec b = .finite (signOf spec b) m (a + least spec) hm ∧
      size spec b = a * 2 ^ spec.mantissaBitsWithoutImplicit + m ∧ Canonical spec a m := by
  have hmantissa := (unpackMantissa b).isLt
  simp only [unpack, signOf, size, if_neg (size_lt_top_iff.mp hb)]
  split_ifs with hleast hnil
  · refine .inl ⟨rfl, ?_⟩
    rw [hleast, hnil]
    simp
  · have hpos : 0 < (unpackMantissa b).toNat :=
      Nat.pos_of_ne_zero fun h => hnil (BitVec.eq_of_toNat_eq (by simpa using h))
    have hfield : (unpackExponent b).toNat = 0 := by simp [hleast]
    refine .inr ⟨0, (unpackMantissa b).toNat, hpos, ?_, by simp [hfield], by omega, .inr rfl⟩
    simp only [hfield, least]
    congr 1
    omega
  · have hfield : (unpackExponent b).toNat ≠ 0 :=
      fun h => hleast (BitVec.eq_of_toNat_eq (by simpa using h))
    obtain ⟨a, ha⟩ := Nat.exists_eq_add_one_of_ne_zero hfield
    have hone := toNat_leading_one (unpackMantissa b)
    refine .inr ⟨a, (1#1 ++ unpackMantissa b).toNat, by omega, ?_, ?_, by omega, .inl (by omega)⟩
    · simp only [ha, least]
      congr 1
      push_cast
      ring
    · rw [ha, hone, Nat.add_one_mul]
      omega

lemma isNaNBits_eq_false (hb : size spec b ≤ top spec) : isNaNBits b = false := by
  rw [isNaNBits, decide_eq_false_iff_not]
  rintro ⟨hones, hmantissa⟩
  refine hmantissa (BitVec.eq_of_toNat_eq ?_)
  rw [size, top, hones, BitVec.neg_one_eq_allOnes, BitVec.toNat_allOnes] at hb
  simpa using hb

lemma pack_unpack_of_le_top (hspec : 2 ≤ spec.exponentBits) (hb : size spec b ≤ top spec) :
    pack spec (unpack spec b) = b := by
  rw [pack_unpack b hspec, isNaNBits_eq_false hb]
  rfl

lemma unpack_of_eq_top (hb : size spec b = top spec) :
    unpack spec b = .infinity (signOf spec b) := by
  have hones : unpackExponent b = -BitVec.ofNat spec.exponentBits 1 := by
    by_contra hne
    exact (size_lt_top_iff.mpr hne).ne hb
  have hnil : unpackMantissa b = BitVec.ofNat spec.mantissaBitsWithoutImplicit 0 := by
    by_contra hne
    have hnan := isNaNBits_eq_false hb.le
    exact of_decide_eq_false hnan ⟨hones, hne⟩
  simp only [unpack, if_pos hones, if_pos hnil, signOf]

lemma size_lt_top_of_isFinite (h : (unpack spec b).isFinite = true) : size spec b < top spec := by
  rw [size_lt_top_iff]
  intro hones
  simp only [unpack, if_pos hones] at h
  split at h <;> cases h

lemma compare_neg (x y : Int) : compare (-x) (-y) = (compare x y).swap := by
  rw [← cmp_eq_compare, ← cmp_eq_compare, cmp_swap]
  exact StrictAnti.cmp_map_eq (f := fun z : Int => -z) (fun _ _ => neg_lt_neg) x y

/-- Numbers are compared like their places. -/
theorem compare_unpack (hb : size spec b ≤ top spec) (hb' : size spec b' ≤ top spec) :
    (unpack spec b).compare (unpack spec b') = some (compare (place spec b) (place spec b')) := by
  have htop : 0 < top spec := (Nat.two_pow_pos _).trans_le (two_pow_le_top spec)
  have hlt {x y : Int} (h : x < y) : some Ordering.lt = some (compare x y) :=
    congrArg some (compare_lt_iff_lt.mpr h).symm
  have hgt {x y : Int} (h : y < x) : some Ordering.gt = some (compare x y) :=
    congrArg some (compare_gt_iff_gt.mpr h).symm
  have heq {x y : Int} (h : x = y) : some Ordering.eq = some (compare x y) :=
    congrArg some (compare_eq_iff_eq.mpr h).symm
  have hcases {b : BitVec spec.numBits} (hb : size spec b ≤ top spec) :=
    (hb.eq_or_lt.imp_left fun h => And.intro (unpack_of_eq_top h) h).imp_right
      fun h => And.intro h (unpack_of_lt_top h)
  unfold place
  rcases hcases hb with ⟨hu, hs⟩ | ⟨hfin, ⟨hu, hs⟩ | ⟨a, m, hm, hu, hs, hc⟩⟩ <;>
    rcases hcases hb' with ⟨hu', hs'⟩ | ⟨hfin', ⟨hu', hs'⟩ | ⟨a', m', hm', hu', hs', hc'⟩⟩ <;>
    rw [hu, hu'] <;> cases signOf spec b <;> cases signOf spec b' <;>
    simp only [UnpackedFloat.compare, Sign.apply]
  -- exponents and mantissas count only for two finite numbers of one sign
  case inr.inr.inr.inr.negative.negative => rw [hs, hs', hc.compare_eq hc', compare_neg]
  case inr.inr.inr.inr.positive.positive => rw [hs, hs', hc.compare_eq hc']
  all_goals first | exact hlt (by omega) | exact hgt (by omega) | exact heq (by omega)

end Patterns

section Double

/-- The pattern of a number of double width without its sign. -/
def pattern (x : Float) : Nat := size .binary64 x.toBits.toBitVec

def sign (x : Float) : Sign := signOf .binary64 x.toBits.toBitVec

/-- The place of a number of double width. -/
def rank (x : Float) : Int := (sign x).apply (pattern x)

lemma pattern_eq (x : Float) : pattern x = x.toBits.toNat % 0x8000000000000000 := size_eq _

lemma sign_eq (x : Float) :
    sign x = if x.toBits.toNat / 0x8000000000000000 = 0 then .positive else .negative :=
  signOf_eq _

lemma pattern_lt_top {x : Float} (h : x.isFinite = true) : pattern x < 0x7ff0000000000000 :=
  size_lt_top_of_isFinite h

lemma toBits_ofBits {w : UInt64} (hw : w.toNat % 0x8000000000000000 ≤ 0x7ff0000000000000) :
    (Float.ofBits w).toBits = w :=
  UInt64.toBitVec_inj.mp (pack_unpack_of_le_top (by decide) ((size_eq _).trans_le hw))

/-- The number with a sign and a pattern. -/
lemma ofBits_spec {s n : Nat} (hs : s < 2) (hn : n ≤ 0x7ff0000000000000) :
    pattern (.ofBits (.ofNat (s * 0x8000000000000000 + n))) = n ∧
      sign (.ofBits (.ofNat (s * 0x8000000000000000 + n))) = if s = 0 then .positive
      else .negative := by
  have hword : (UInt64.ofNat (s * 0x8000000000000000 + n)).toNat = s * 0x8000000000000000 + n := by
    rw [UInt64.toNat_ofNat', Nat.mod_eq_of_lt (by omega)]
  have hquot : (s * 0x8000000000000000 + n) / 0x8000000000000000 = s := by omega
  rw [pattern_eq, sign_eq, toBits_ofBits (by omega), hword, hquot]
  exact ⟨by omega, rfl⟩

lemma lt_iff_rank {x y : Float} (hx : pattern x ≤ 0x7ff0000000000000)
    (hy : pattern y ≤ 0x7ff0000000000000) : x < y ↔ rank x < rank y := by
  have hcompare : x.toModel.unpack.compare y.toModel.unpack = some (compare (rank x) (rank y)) :=
    compare_unpack hx hy
  have hlt : x < y ↔ x.toModel.unpack.compare y.toModel.unpack = some .lt := by
    simp [LT.lt, Float.lt, Float.Model.lt, UnpackedFloat.lt]
  rw [hlt, hcompare, Option.some_inj, compare_lt_iff_lt]

lemma beq_eq_false_of_lt {x y : Float} (h : x < y) : (x == y) = false := by
  have hlt : x.toModel.unpack.compare y.toModel.unpack = some .lt := by
    simpa [LT.lt, Float.lt, Float.Model.lt, UnpackedFloat.lt] using h
  exact beq_eq_false_iff_ne (a := x.toModel.unpack.compare y.toModel.unpack).mpr
    (by rw [hlt]; decide)

end Double

section Single

/-- The pattern of a number of single width without its sign. -/
def pattern32 (x : Float32) : Nat := size .binary32 x.toBits.toBitVec

def sign32 (x : Float32) : Sign := signOf .binary32 x.toBits.toBitVec

/-- The place of a number of single width. -/
def rank32 (x : Float32) : Int := (sign32 x).apply (pattern32 x)

lemma pattern32_eq (x : Float32) : pattern32 x = x.toBits.toNat % 0x80000000 := size_eq _

lemma sign32_eq (x : Float32) :
    sign32 x = if x.toBits.toNat / 0x80000000 = 0 then .positive else .negative :=
  signOf_eq _

lemma toBits_ofBits32 {w : UInt32} (hw : w.toNat % 0x80000000 ≤ 0x7f800000) :
    (Float32.ofBits w).toBits = w :=
  UInt32.toBitVec_inj.mp (pack_unpack_of_le_top (by decide) ((size_eq _).trans_le hw))

/-- The number with a sign and a pattern. -/
lemma ofBits_spec32 {s n : Nat} (hs : s < 2) (hn : n ≤ 0x7f800000) :
    pattern32 (.ofBits (.ofNat (s * 0x80000000 + n))) = n ∧
      sign32 (.ofBits (.ofNat (s * 0x80000000 + n))) = if s = 0 then .positive else .negative := by
  have hword : (UInt32.ofNat (s * 0x80000000 + n)).toNat = s * 0x80000000 + n := by
    rw [UInt32.toNat_ofNat', Nat.mod_eq_of_lt (by omega)]
  have hquot : (s * 0x80000000 + n) / 0x80000000 = s := by omega
  rw [pattern32_eq, sign32_eq, toBits_ofBits32 (by omega), hword, hquot]
  exact ⟨by omega, rfl⟩

variable {x y : Float32} (hx : pattern32 x ≤ 0x7f800000) (hy : pattern32 y ≤ 0x7f800000)

include hx hy

lemma compare_single :
    x.toModel.unpack.compare y.toModel.unpack = some (compare (rank32 x) (rank32 y)) :=
  compare_unpack hx hy

lemma lt_iff_rank32 : x < y ↔ rank32 x < rank32 y := by
  have hlt : x < y ↔ x.toModel.unpack.compare y.toModel.unpack = some .lt := by
    simp [LT.lt, Float32.lt, Float32.Model.lt, UnpackedFloat.lt]
  rw [hlt, compare_single hx hy, Option.some_inj, compare_lt_iff_lt]

lemma le_iff_rank32 : x ≤ y ↔ rank32 x ≤ rank32 y := by
  have hle : x ≤ y ↔ (x.toModel.unpack.compare y.toModel.unpack).any Ordering.isLE = true :=
    decide_eq_true_iff
  rw [hle, compare_single hx hy, Option.any_some, Ordering.isLE_iff_ne_gt]
  exact (not_congr compare_gt_iff_gt).trans not_lt

lemma beq_iff_rank32 : x == y ↔ rank32 x = rank32 y := by
  have hbeq : x == y ↔ x.toModel.unpack.compare y.toModel.unpack = some .eq :=
    beq_iff_eq (a := x.toModel.unpack.compare y.toModel.unpack)
  rw [hbeq, compare_single hx hy, Option.some_inj, compare_eq_iff_eq]

end Single

end SceneExport.Rounding
