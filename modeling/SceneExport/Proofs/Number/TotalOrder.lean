import Mathlib
import SceneExport.Scalar

/-!
# The total order of bit patterns

Patterns of double width are ordered by their sign and size: all with the sign bit stand before all
without it, and of two with the same sign the one of greater size stands further outside. Zeros of
either sign are told apart, and what is not a number stands outside the infinities, on either side
and ordered by its payload. The order of the representations of floating-point numbers is this
order. Floating-point numbers have one pattern only that is not a number; numbers that are their own
patterns have all of them.
-/
namespace SceneExport.Number

/-- Compares patterns in the total order. -/
def totalOrder (a b : UInt64) : Ordering :=
  if a.toNat < 2 ^ 63 then
    if b.toNat < 2 ^ 63 then compare a.toNat b.toNat else .gt
  else
    if b.toNat < 2 ^ 63 then .lt else compare b.toNat a.toNat

/-- Where a pattern stands in the total order. -/
def totalPlace (w : UInt64) : Int :=
  if w.toNat < 2 ^ 63 then w.toNat else 2 ^ 63 - 1 - w.toNat

lemma totalOrder_eq (a b : UInt64) : totalOrder a b = compare (totalPlace a) (totalPlace b) := by
  have hlt {x y : Int} (h : x < y) : Ordering.lt = compare x y := (compare_lt_iff_lt.mpr h).symm
  have hgt {x y : Int} (h : y < x) : Ordering.gt = compare x y := (compare_gt_iff_gt.mpr h).symm
  unfold totalOrder totalPlace
  split_ifs with ha hb hb
  · have hmono : StrictMono fun n : Nat => (n : Int) := fun _ _ h => Int.ofNat_lt.mpr h
    rw [← cmp_eq_compare, ← cmp_eq_compare]
    exact (hmono.cmp_map_eq a.toNat b.toNat).symm
  · exact hgt (by omega)
  · exact hlt (by omega)
  · have hanti : StrictAnti fun n : Nat => (2 ^ 63 - 1 - n : Int) := fun m n hmn => by
      simp only
      omega
    rw [← cmp_eq_compare, ← cmp_eq_compare]
    exact (hanti.cmp_map_eq a.toNat b.toNat).symm

lemma totalPlace_injective : Function.Injective totalPlace := by
  intro a b h
  unfold totalPlace at h
  apply UInt64.toNat_inj.mp
  split_ifs at h <;> omega

/-- The numbers stand for patterns, each for its own, and are ordered like these. -/
structure Doubles {α : Type} [Scalar α] (bits : α → UInt64) : Prop where
  injective : Function.Injective bits
  order_eq : ∀ x y : α, Scalar.order x y = totalOrder (bits x) (bits y)

namespace Doubles

variable {α : Type} [Scalar α] {bits : α → UInt64} {x y : α}

/-- Where a number stands in the total order. -/
def place (_ : Doubles bits) (x : α) : Int :=
  totalPlace (bits x)

lemma place_injective (h : Doubles bits) : Function.Injective h.place :=
  totalPlace_injective.comp h.injective

lemma order_lt_iff (h : Doubles bits) : Scalar.order x y = .lt ↔ h.place x < h.place y := by
  rw [h.order_eq, totalOrder_eq, compare_lt_iff_lt]
  rfl

lemma order_gt_iff (h : Doubles bits) : Scalar.order x y = .gt ↔ h.place y < h.place x := by
  rw [h.order_eq, totalOrder_eq, compare_gt_iff_gt]
  rfl

lemma order_eq_iff (h : Doubles bits) : Scalar.order x y = .eq ↔ x = y := by
  rw [h.order_eq, totalOrder_eq, compare_eq_iff_eq]
  exact h.place_injective.eq_iff

end Doubles

lemma floatRank_eq (x : Float) : floatRank x = totalPlace x.toBits := by
  unfold floatRank totalPlace
  dsimp only
  split_ifs <;> omega

lemma doubles_toBits : Doubles Float.toBits := by
  refine ⟨Function.LeftInverse.injective Float.ofBits_toBits, fun x y => ?_⟩
  have horder : Scalar.order x y = compare (floatRank x) (floatRank y) := rfl
  rw [horder, totalOrder_eq, floatRank_eq, floatRank_eq]

/-- A pattern as a number of its own. Its arithmetic is that of the floating-point number that it
stands for. -/
structure Pattern where
  bits : UInt64
  deriving DecidableEq

namespace Pattern

def toFloat (x : Pattern) : Float := .ofBits x.bits

def ofFloat (x : Float) : Pattern := ⟨x.toBits⟩

instance : Scalar Pattern where
  add x y := ofFloat (x.toFloat + y.toFloat)
  sub x y := ofFloat (x.toFloat - y.toFloat)
  mul x y := ofFloat (x.toFloat * y.toFloat)
  div x y := ofFloat (x.toFloat / y.toFloat)
  neg x := ofFloat (-x.toFloat)
  lt x y := x.toFloat < y.toFloat
  le x y := x.toFloat ≤ y.toFloat
  beq x y := x.toFloat == y.toFloat
  ofInt n := ofFloat (.ofInt n)
  abs x := ofFloat x.toFloat.abs
  isFinite x := x.toFloat.isFinite
  order x y := totalOrder x.bits y.bits
  decLt x y := Float.decLt x.toFloat y.toFloat
  decLe x y := Float.decLe x.toFloat y.toFloat

end Pattern

lemma doubles_bits : Doubles Pattern.bits :=
  ⟨fun _ _ h => congrArg Pattern.mk h, fun _ _ => rfl⟩

end SceneExport.Number
