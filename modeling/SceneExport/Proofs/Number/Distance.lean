import Mathlib
import SceneExport.Proofs.Curve.Thinning

/-!
# The distance of two floating-point numbers

The distance of two floating-point numbers is the absolute value of their rounded difference. It
does not depend on the order of the two: the exact differences are opposite numbers, rounding treats
both signs alike, and the absolute value reads exponent and mantissa of the result and nothing else.
-/
namespace SceneExport.Number

open Float.Model (Format UnpackedFloat)
open Float.Model.UnpackedFloat

/-- The absolute value of a packed number does not depend on its sign bit. -/
lemma abs_unpack_packComponents (spec : Format) (s s' : Sign) (e : BitVec spec.exponentBits)
    (m : BitVec spec.mantissaBitsWithoutImplicit) :
    (unpack spec (packComponents spec s e m)).abs =
      (unpack spec (packComponents spec s' e m)).abs := by
  simp only [unpack, unpackExponent_packComponents, unpackMantissa_packComponents]
  split_ifs <;> rfl

/-- Packing a number and unpacking it again treats both signs alike. -/
lemma abs_unpack_pack (spec : Format) (u : UnpackedFloat) :
    (unpack spec (pack spec u)).abs = (unpack spec (pack spec u.abs)).abs := by
  cases u with
  | notANumber => rfl
  | infinity s => exact abs_unpack_packComponents spec s _ _ _
  | zero s => exact abs_unpack_packComponents spec s _ _ _
  | finite s m e hm =>
    change _ = (unpack spec (pack spec (.finite .positive m e hm))).abs
    simp only [UnpackedFloat.pack]
    split_ifs
    · exact abs_unpack_packComponents spec s _ _ _
    · exact abs_unpack_packComponents spec s _ _ _
    · exact abs_unpack_packComponents spec s _ _ _

lemma abs_round (spec : Format) (s s' : Sign) (m : Nat) (e : Int) :
    (round spec s m e).abs = (round spec s' m e).abs := by
  simp only [UnpackedFloat.round, roundWithAccuracy]
  split_ifs <;> rfl

lemma abs_normalize_neg (spec : Format) (n e : Int) (s : Sign) :
    (normalize spec (-n) e s).abs = (normalize spec n e s).abs := by
  rcases lt_trichotomy n 0 with h | rfl | h
  · have hneg : compare (-n) 0 = .gt := compare_gt_iff_gt.mpr (by omega)
    have hpos : compare n 0 = .lt := compare_lt_iff_lt.mpr h
    simp only [UnpackedFloat.normalize, hneg, hpos]
    exact abs_round spec _ _ _ _
  · rfl
  · have hneg : compare (-n) 0 = .lt := compare_lt_iff_lt.mpr (by omega)
    have hpos : compare n 0 = .gt := compare_gt_iff_gt.mpr h
    simp only [UnpackedFloat.normalize, hneg, hpos, neg_neg]
    exact abs_round spec _ _ _ _

lemma abs_sub_comm (spec : Format) (a b : UnpackedFloat) :
    (UnpackedFloat.sub spec a b).abs = (UnpackedFloat.sub spec b a).abs := by
  cases a with
  | notANumber => cases b <;> rfl
  | infinity s =>
    cases b with
    | infinity s' => cases s <;> cases s' <;> rfl
    | _ => rfl
  | zero s =>
    cases b with
    | zero s' => cases s <;> cases s' <;> rfl
    | _ => rfl
  | finite s m e hm =>
    cases b with
    | finite s' m' e' hm' =>
      simp only [UnpackedFloat.sub]
      rw [min_comm e' e, ← abs_normalize_neg, neg_sub]
    | _ => rfl

lemma abs_model_sub_comm (a b : Float.Model) : (a.sub b).abs = (b.sub a).abs := by
  have hread : ∀ u, (Float.Model.pack u).unpack.abs =
      (unpack Format.binary64 (pack Format.binary64 u.abs)).abs :=
    abs_unpack_pack Format.binary64
  unfold Float.Model.sub Float.Model.abs
  rw [hread, hread, abs_sub_comm]

/-- Floating-point numbers have a distance, infinities and what is not a number included. -/
theorem distanceComm_float : Scalar.DistanceComm Float := by
  intro a b
  exact congrArg Float.ofModel (abs_model_sub_comm a.toModel b.toModel)

end SceneExport.Number
