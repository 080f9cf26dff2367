/-!
# Numbers of curves and matrices

Curves, matrices and the bake are written over any type of numbers with the arithmetic they use. The
program runs on floating-point numbers. Exact rational numbers satisfy the same interface, so what a
formula means can be told apart from how it is rounded.
-/
namespace SceneExport

/-- Arithmetic, the comparisons of the number type, and a total order on its representations. No
laws are asked for: floating-point numbers satisfy few. -/
class Scalar (α : Type) extends Add α, Sub α, Mul α, Div α, Neg α, LT α, LE α, BEq α where
  ofInt : Int → α
  abs : α → α
  isFinite : α → Bool
  /-- Orders all representations, also those that compare as equal or not at all. -/
  order : α → α → Ordering
  decLt : DecidableLT α
  decLe : DecidableLE α

instance (priority := low) instDecidableLTScalar {α : Type} [Scalar α] :
    DecidableLT α := Scalar.decLt

instance (priority := low) instDecidableLEScalar {α : Type} [Scalar α] :
    DecidableLE α := Scalar.decLe

instance (priority := low) instOfNatScalar {α : Type} [Scalar α] (n : Nat) : OfNat α n :=
  ⟨Scalar.ofInt n⟩

/-- Numbers with the functions that lengths and rotations need. -/
class Metric (α : Type) extends Scalar α where
  sqrt : α → α
  sin : α → α
  cos : α → α
  /-- The distance from one to the next number above it. -/
  epsilon : α

/-- The place of a floating-point number in the total order of all bit patterns: from the negative
numbers of greatest size over the two zeros to the positive ones. -/
def floatRank (x : Float) : Int :=
  let bits : Int := x.toBits.toNat
  if bits < 0x8000000000000000 then bits else 0x7fffffffffffffff - bits

instance : Scalar Float where
  ofInt := Float.ofInt
  abs := Float.abs
  isFinite := Float.isFinite
  order x y := compare (floatRank x) (floatRank y)
  decLt := fun a b => Float.decLt a b
  decLe := fun a b => Float.decLe a b

instance : Metric Float where
  sqrt := Float.sqrt
  sin := Float.sin
  cos := Float.cos
  epsilon := Float.ofBits 0x3cb0000000000000

instance : Scalar Rat where
  ofInt := fun n => n
  abs := Rat.abs
  isFinite := fun _ => true
  order x y := if x < y then .lt else if x = y then .eq else .gt
  decLt := inferInstance
  decLe := inferInstance

namespace Scalar

variable {α : Type} [Scalar α]

def half : α := 1 / 2

/-- `x` moved into the interval from `lo` to `hi`. -/
def clamp (x lo hi : α) : α :=
  let x := if x < lo then lo else x
  if hi < x then hi else x

end Scalar

end SceneExport
