/-!
# Rounding

The bit pattern of a floating-point number is its sign, its exponent and its fraction, one behind
the other. Without the sign it grows with the size of the number, and a carry out of the fraction
goes into the exponent. So a number is rounded by rounding its pattern. Infinities and what is not a
number stay what they are.
-/
namespace SceneExport.Rounding

/-- The whole number nearest to `n / d`, of two the even one. -/
def divEven (n d : Nat) : Nat :=
  if 2 * (n % d) < d ∨ 2 * (n % d) = d ∧ n / d % 2 = 0 then n / d else n / d + 1

/-- The pattern of the nearest whole number, halves away from zero. Exponent 1023 is that of one,
and 1075 that of the numbers whose last bit is a one. -/
def wholePattern (pattern : Nat) : Nat :=
  let exponent := pattern / 0x10000000000000
  if exponent < 1022 then 0
  else if exponent = 1022 then 0x3ff0000000000000
  else if exponent < 1075 then
    let unit := Nat.pow 2 (1075 - exponent)
    (pattern + unit / 2) / unit * unit
  else pattern

/-- The pattern of the nearest number of single width, halves to even. Numbers of single width have
29 bits less behind the point and exponents 896 lower, and those below exponent 897 are multiples of
the least one. -/
def narrowPattern (pattern : Nat) : Nat :=
  let exponent := pattern / 0x10000000000000
  if 0x7ff0000000000000 < pattern then 0x7fc00000
  else if exponent < 897 then
    divEven (pattern % 0x10000000000000 + 0x10000000000000) (Nat.pow 2 (926 - exponent))
  else min 0x7f800000 (divEven (pattern - 0x3800000000000000) 0x20000000)

/-- The nearest whole number, halves away from zero. -/
def whole (x : Float) : Float :=
  let bits := x.toBits.toNat
  .ofBits (.ofNat
    (bits / 0x8000000000000000 * 0x8000000000000000 + wholePattern (bits % 0x8000000000000000)))

/-- The nearest whole number, halves away from zero, as an integer from `-largest - 1` to `largest`.
Numbers beyond these bounds go to the bound. -/
def integer (largest : Nat) (x : Float) : Int :=
  let size := (whole x.abs).toUInt64.toNat
  if x < 0 then -(min size (largest + 1) : Nat) else (min size largest : Nat)

/-- The nearest number of single width, halves to even. -/
def narrow (x : Float) : Float32 :=
  let bits := x.toBits.toNat
  .ofBits (.ofNat
    (bits / 0x8000000000000000 * 0x80000000 + narrowPattern (bits % 0x8000000000000000)))

end SceneExport.Rounding
