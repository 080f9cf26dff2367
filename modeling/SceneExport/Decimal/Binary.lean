/-!
# Floating-point numbers as binary fractions

A finite floating-point number other than zero is a positive whole `mantissa` times a power of two,
with a sign. The decimal texts of a number are chosen from this form in exact arithmetic, for both
widths alike.
-/
namespace SceneExport.Decimal

/-- The positive number `mantissa * 2 ^ exponent`. Its neighbours among the numbers of the same
width are one unit of the mantissa away, except that the gap below is half as wide at a power of
two. -/
structure Binary where
  mantissa : Nat
  exponent : Int
  narrowBelow : Bool
  deriving DecidableEq, Repr

inductive Magnitude where
  | undefined
  | unbounded
  | zero
  | positive (value : Binary)
  deriving DecidableEq, Repr

/-- A floating-point number taken apart. -/
structure Parts where
  negative : Bool
  magnitude : Magnitude
  deriving DecidableEq, Repr

/-- Takes a number apart, given its sign, its exponent field and its fraction field. `width` counts
the bits of the fraction, `top` is the exponent field of the non-finite numbers, and `bias` is the
distance from the exponent field to the exponent of the last bit. -/
def Parts.ofFields (width top bias : Nat) (negative : Bool) (field fraction : Nat) : Parts where
  negative := negative
  magnitude :=
    if field = top then (if fraction = 0 then .unbounded else .undefined)
    else if field = 0 then
      (if fraction = 0 then .zero else .positive ⟨fraction, 1 - (bias : Int), false⟩)
    else .positive ⟨fraction + Nat.pow 2 width, (field : Int) - bias, fraction = 0 && 1 < field⟩

def Parts.ofFloat (x : Float) : Parts :=
  let bits := x.toBits.toNat
  .ofFields 52 2047 1075 (0x8000000000000000 ≤ bits) (bits / 0x10000000000000 % 0x800)
    (bits % 0x10000000000000)

def Parts.ofFloat32 (x : Float32) : Parts :=
  let bits := x.toBits.toNat
  .ofFields 23 255 150 (0x80000000 ≤ bits) (bits / 0x800000 % 0x100) (bits % 0x800000)

end SceneExport.Decimal
