/-!
# Reading decimal literals

A literal is read from its leading digits, as many as fit into 64 bits, and a power of ten. The
digits become the nearest number of double width, which is then multiplied or divided once by the
nearest number to the power of ten. For literals of up to fifteen digits and small powers both steps
but the last are exact, so the result is the nearest number to the literal.
-/
namespace SceneExport.Decimal

/-- `10 ^ n` as a number of double width, for `n` up to 308. -/
def powerOfTen (n : Nat) : Float :=
  Float.ofScientific 1 false n

/-- The number `f * 10 ^ e`, or nothing when it is too large to be finite. Far below the range of
the powers of ten the division is repeated, `steps` times at most, until nothing is left. -/
def scaled? (steps : Nat) (f : Float) (e : Int) : Option Float :=
  if e.natAbs ≤ 308 then
    if 0 ≤ e then
      let x := f * powerOfTen e.natAbs
      if x.isInf then none else some x
    else some (f / powerOfTen e.natAbs)
  else if f == 0 then some f
  else if 0 ≤ e then none
  else
    match steps with
    | 0 => some 0
    | k + 1 => scaled? k (f / powerOfTen 308) (e + 308)

/-- The digits of a literal: their value as far as it fits into 64 bits, and how many digits of the
whole part were left out. -/
structure Significand where
  value : Nat
  dropped : Nat
  deriving DecidableEq, Repr

/-- Takes in one more digit of the whole part. Once a digit does not fit, none does. -/
def Significand.pushWhole (s : Significand) (digit : Nat) : Significand :=
  if s.dropped = 0 && s.value * 10 + digit < 0x10000000000000000 then ⟨s.value * 10 + digit, 0⟩
  else ⟨s.value, s.dropped + 1⟩

/-- The significand of the whole part of a literal. -/
def Significand.ofDigits (digits : List Char) : Significand :=
  digits.foldl (fun s c => s.pushWhole (c.toNat - 48)) ⟨0, 0⟩

/-- The value and the power of ten after the digits behind the point; from the first digit on that
does not fit, digits are ignored. -/
def fractionValue : Nat → Int → List Char → Nat × Int
  | value, e, [] => (value, e)
  | value, e, c :: rest =>
    let next := value * 10 + (c.toNat - 48)
    if next < 0x10000000000000000 then fractionValue next (e - 1) rest else (value, e)

/-- The power of ten a written exponent adds, kept within what 32 bits can hold. -/
def addExponent (e : Int) (negative : Bool) (digits : List Char) : Int :=
  let written : Int := digits.foldl (fun (n : Int) c => min (n * 10 + (c.toNat - 48)) 0x80000000) 0
  if negative then e - written else e + written

/-- A literal with a fraction or an exponent, as a number of double width; nothing when it is too
large to be finite. -/
def float? (negative : Bool) (whole fraction : List Char) (exponent : Option (Bool × List Char)) :
    Option Float :=
  let s := Significand.ofDigits whole
  let (value, e) := fractionValue s.value s.dropped fraction
  let e :=
    match exponent with
    | none => e
    | some (down, digits) => addExponent e down digits
  (scaled? 8 (Float.ofNat value) e).map fun x => if negative then -x else x

end SceneExport.Decimal
