import Mathlib
import SceneExport.Matrix.Rotation
import SceneExport.Proofs.Rounding.Order

/-!
# Negated numbers

Both signs are rounded alike, so a product with a negated factor is the negated product. The sum of
two negated numbers is the negated sum, with one exception: a sum that cancels is the positive zero
whatever its terms are. Numbers are therefore compared up to the sign of zero. This is enough for
dot products, since one that is negative is not zero.
-/
namespace SceneExport.Rounding

open Float.Model (Format UnpackedFloat)
open Float.Model.UnpackedFloat

section Unpacked

variable {spec : Format} {u u' v v' : UnpackedFloat}

/-- One number is the negative of the other, up to the sign of zero. -/
inductive Opposed : UnpackedFloat → UnpackedFloat → Prop
  | notANumber : Opposed .notANumber .notANumber
  | infinity (s : Sign) : Opposed (.infinity s) (.infinity (-s))
  | zero (s s' : Sign) : Opposed (.zero s) (.zero s')
  | finite (s : Sign) {m : Nat} (e : Int) (hm : 0 < m) :
      Opposed (.finite s m e hm) (.finite (-s) m e hm)

lemma opposed_neg (u : UnpackedFloat) : Opposed u u.neg := by
  cases u <;> constructor

lemma roundWithAccuracy_neg (s : Sign) (m : Nat) (e : Int) (a : Accuracy) :
    roundWithAccuracy spec (-s) m e a = (roundWithAccuracy spec s m e a).neg := by
  simp only [roundWithAccuracy]
  split <;> rfl

lemma sign_neg_mul (s s' : Sign) : -s * s' = -(s * s') := by
  cases s <;> cases s' <;> rfl

/-- The product with a negated factor is the negated product. -/
lemma Opposed.mul (h : Opposed u u') (v : UnpackedFloat) :
    Opposed (UnpackedFloat.mul spec u v) (UnpackedFloat.mul spec u' v) := by
  cases h with
  | zero s s' =>
    cases v with
    | notANumber | infinity => exact .notANumber
    | zero | finite => exact .zero _ _
  | notANumber | infinity | finite =>
    cases v <;> simp only [UnpackedFloat.mul, sign_neg_mul, roundWithAccuracy_neg] <;>
      exact opposed_neg _

/-- A mantissa and its negative are rounded to numbers that differ in the sign. -/
lemma opposed_normalize (m e : Int) :
    Opposed (UnpackedFloat.normalize spec m e .positive)
      (UnpackedFloat.normalize spec (-m) e .positive) := by
  rcases lt_trichotomy m 0 with hm | rfl | hm
  · have hround : UnpackedFloat.normalize spec (-m) e .positive =
        (UnpackedFloat.normalize spec m e .positive).neg := by
      simp only [UnpackedFloat.normalize, compare_lt_iff_lt.mpr hm,
        compare_gt_iff_gt.mpr (neg_pos.mpr hm)]
      exact roundWithAccuracy_neg .negative _ _ _
    rw [hround]
    exact opposed_neg _
  · exact .zero .positive .positive
  · have hround : UnpackedFloat.normalize spec (-m) e .positive =
        (UnpackedFloat.normalize spec m e .positive).neg := by
      simp only [UnpackedFloat.normalize, compare_gt_iff_gt.mpr hm,
        compare_lt_iff_lt.mpr (neg_lt_zero.mpr hm), neg_neg]
      exact roundWithAccuracy_neg .positive _ _ _
    rw [hround]
    exact opposed_neg _

lemma sign_neg_apply (s : Sign) (n : Int) : (-s).apply n = -s.apply n := by
  cases s
  · exact (neg_neg n).symm
  · rfl

/-- The sum of negated numbers is the negated sum, up to the sign of zero. -/
lemma Opposed.add (hu : Opposed u u') (hv : Opposed v v') :
    Opposed (UnpackedFloat.add spec u v) (UnpackedFloat.add spec u' v') := by
  cases hu with
  | notANumber => exact .notANumber
  | infinity s =>
    cases hv with
    | notANumber => exact .notANumber
    | infinity s' =>
      cases s <;> cases s'
      · exact .infinity .negative
      · exact .notANumber
      · exact .notANumber
      · exact .infinity .positive
    | zero | finite => exact .infinity s
  | zero s =>
    cases hv with
    | notANumber => exact .notANumber
    | infinity s' => exact .infinity s'
    | zero =>
      simp only [UnpackedFloat.add]
      split_ifs <;> exact .zero _ _
    | finite s' e' hm' => exact .finite s' e' hm'
  | finite s e hm =>
    cases hv with
    | notANumber => exact .notANumber
    | infinity s' => exact .infinity s'
    | zero => exact .finite s e hm
    | finite s' e' hm' =>
      simp only [UnpackedFloat.add, sign_neg_apply, ← neg_add]
      exact opposed_normalize _ _

/-- A number below zero is opposed to none that is below zero. -/
lemma Opposed.not_lt (h : Opposed u u') (s : Sign) (hlt : u.compare (.zero s) = some .lt) :
    u'.compare (.zero s) ≠ some .lt := by
  cases h with
  | notANumber => cases hlt
  | infinity s' => cases s' <;> cases hlt; simp [UnpackedFloat.compare]
  | zero => cases hlt
  | finite s' e hm => cases s' <;> cases hlt; simp [UnpackedFloat.compare]

lemma unpack_packComponents_neg (s : Sign) (e : BitVec spec.exponentBits)
    (m : BitVec spec.mantissaBitsWithoutImplicit) :
    unpack spec (packComponents spec (-s) e m) = (unpack spec (packComponents spec s e m)).neg := by
  simp only [unpack, unpackExponent_packComponents, unpackMantissa_packComponents,
    unpackSign_packComponents, Sign.ofBitVec_toBitVec]
  split_ifs <;> rfl

/-- Packing keeps numbers opposed. -/
lemma Opposed.unpack_pack (h : Opposed u u') :
    Opposed (unpack spec (pack spec u)) (unpack spec (pack spec u')) := by
  have hcomponents :
      ∀ (s : Sign) (e : BitVec spec.exponentBits) (m : BitVec spec.mantissaBitsWithoutImplicit),
      Opposed (unpack spec (packComponents spec s e m))
        (unpack spec (packComponents spec (-s) e m)) := by
    intro s e m
    rw [unpack_packComponents_neg]
    exact opposed_neg _
  cases h with
  | notANumber =>
    rw [pack, unpack_packedNaN]
    exact .notANumber
  | infinity s => exact hcomponents s _ _
  | zero s s' =>
    rw [pack, pack, unpack_packedZero, unpack_packedZero]
    exact .zero s s'
  | finite s e hm =>
    simp only [pack]
    split_ifs <;> exact hcomponents s _ _

end Unpacked

section Double

variable {x x' y y' : Float}

/-- One number of double width is the negative of the other, up to the sign of zero. -/
def Opposite (x x' : Float) : Prop :=
  Opposed x.toModel.unpack x'.toModel.unpack

lemma opposite_neg (x : Float) : Opposite x (-x) := by
  have hpack : unpack .binary64 (pack .binary64 x.toModel.unpack) = x.toModel.unpack :=
    congrArg (unpack .binary64) (pack_unpack_of_valid x.toModel.valid)
  have hopposed : Opposed (unpack .binary64 (pack .binary64 x.toModel.unpack))
      (-x).toModel.unpack :=
    (opposed_neg x.toModel.unpack).unpack_pack
  rwa [hpack] at hopposed

lemma Opposite.mul (h : Opposite x x') (y : Float) : Opposite (x * y) (x' * y) :=
  (Opposed.mul h y.toModel.unpack).unpack_pack

lemma Opposite.add (hx : Opposite x x') (hy : Opposite y y') : Opposite (x + y) (x' + y') :=
  (Opposed.add hx hy).unpack_pack

lemma Opposite.not_lt (h : Opposite x x') (hlt : x < 0) : ¬ x' < 0 := by
  have hcompare : ∀ y : Float, y < 0 ↔ y.toModel.unpack.compare (.zero .positive) = some .lt := by
    intro y
    have hzero : (0 : Float).toModel.unpack = .zero .positive := rfl
    simp [LT.lt, Float.lt, Float.Model.lt, UnpackedFloat.lt, hzero]
  rw [hcompare] at hlt ⊢
  exact Opposed.not_lt h .positive hlt

/-- A dot product that is negative is no longer so when one factor is negated. -/
theorem not_neg_dot_lt {p q : Quat Float} (h : q.dot p < 0) : ¬ (-q).dot p < 0 := by
  have hterm : ∀ a b : Float, Opposite (a * b) (-a * b) := fun a b => (opposite_neg a).mul b
  have hdot : Opposite (q.dot p) ((-q).dot p) :=
    (((hterm q.w p.w).add (hterm q.x p.x)).add (hterm q.y p.y)).add (hterm q.z p.z)
  exact hdot.not_lt h

end Double

end SceneExport.Rounding
