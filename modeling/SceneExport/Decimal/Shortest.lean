import SceneExport.Decimal.Binary

/-!
# The fewest digits that read back

Every real number closer to a floating-point number than half the gap to a neighbour rounds to it,
and so do the two ends of that interval when the mantissa is even. The decimal chosen for a number
has the fewest digits among those in the interval, and is the nearest one of that length. A number
halfway between two of them goes the way a `Tie` says.

The search walks the grids of 1, 2, 3, ... digits. If any point of a grid lies in the interval, then
so does one of the two grid points next to the number, so only these two are looked at.
-/
namespace SceneExport

/-- The number `coefficient * 10 ^ exponent`. -/
structure Decimal where
  coefficient : Nat
  exponent : Int
  deriving DecidableEq, Repr

namespace Decimal

/-- A number and the interval around it, as numerators over one denominator. -/
structure Interval where
  low : Nat
  value : Nat
  high : Nat
  denominator : Nat
  /-- The two ends belong to the interval. -/
  closed : Bool

/-- The interval of the reals that round to `b`. -/
def Interval.around (b : Binary) : Interval :=
  let scale := Nat.pow 2 (b.exponent - 2).toNat
  { low := (4 * b.mantissa - if b.narrowBelow then 1 else 2) * scale
    value := 4 * b.mantissa * scale
    high := (4 * b.mantissa + 2) * scale
    denominator := Nat.pow 2 (2 - b.exponent).toNat
    closed := b.mantissa % 2 = 0 }

/-- Whether `10 ^ k` is at most the value. -/
def Interval.reaches (i : Interval) (k : Int) : Bool :=
  Nat.pow 10 k.toNat * i.denominator ≤ i.value * Nat.pow 10 (-k).toNat

/-- The greatest `k` with `10 ^ k` at most the value, from an estimate that is off by one at
most. -/
def Interval.leadingExponent (i : Interval) : Int :=
  let bits : Int := (i.value.log2 : Int) - i.denominator.log2
  let estimate := (bits * 30103).fdiv 100000
  if i.reaches (estimate + 1) then estimate + 1
  else if i.reaches estimate then estimate
  else estimate - 1

/-- Whether `n * 10 ^ k` lies in the interval. -/
def Interval.contains (i : Interval) (n : Nat) (k : Int) : Bool :=
  let point := n * Nat.pow 10 k.toNat * i.denominator
  let unit := Nat.pow 10 (-k).toNat
  if i.closed then i.low * unit ≤ point && point ≤ i.high * unit
  else i.low * unit < point && point < i.high * unit

/-- Where a number halfway between two points of a grid goes. -/
inductive Tie where
  /-- To the point whose last digit is even. -/
  | even
  /-- To the point further from zero. -/
  | away
  deriving DecidableEq, Repr

/-- The choice between the neighbours `below` and `below + 1`. -/
def Tie.choose (tie : Tie) (below : Nat) : Nat :=
  match tie with
  | .even => if below % 2 = 0 then below else below + 1
  | .away => below + 1

/-- The point of the grid `10 ^ k` that is chosen, if one lies in the interval. -/
def Interval.gridPoint? (i : Interval) (tie : Tie) (k : Int) : Option Nat :=
  let unit := Nat.pow 10 (-k).toNat
  let step := Nat.pow 10 k.toNat * i.denominator
  let below := i.value * unit / step
  match i.contains below k, i.contains (below + 1) k with
  | true, false => some below
  | false, true => some (below + 1)
  | false, false => none
  | true, true =>
    let twice := 2 * i.value * unit
    let middle := (2 * below + 1) * step
    if twice < middle then some below
    else if middle < twice then some (below + 1)
    else some (tie.choose below)

/-- Tries the grids of ever smaller steps, `tries` of them, starting with `10 ^ k`. -/
def Interval.search (i : Interval) (tie : Tie) : Nat → Int → Decimal
  | 0, k => ⟨i.value * Nat.pow 10 (-k).toNat / (Nat.pow 10 k.toNat * i.denominator), k⟩
  | tries + 1, k =>
    match i.gridPoint? tie k with
    | some n => ⟨n, k⟩
    | none => i.search tie tries (k - 1)

/-- Moves zeros at the end of the coefficient into the exponent, at most `limit` of them. -/
def trim : Nat → Decimal → Decimal
  | 0, d => d
  | limit + 1, d =>
    if d.coefficient % 10 = 0 && d.coefficient ≠ 0 then
      trim limit ⟨d.coefficient / 10, d.exponent + 1⟩
    else d

/-- The shortest decimal that rounds to `b`; seventeen digits always suffice. -/
def shortest (tie : Tie) (b : Binary) : Decimal :=
  let i := Interval.around b
  trim 20 (i.search tie 17 i.leadingExponent)

end Decimal

end SceneExport
