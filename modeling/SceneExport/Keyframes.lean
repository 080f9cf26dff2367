import SceneExport.Curve.Basic
import SceneExport.Rounding

/-!
# Keyframe streams

A curve is exported as one stream of numbers. Each key gives a record: the code of its
interpolation, its frame as a whole number and its value, then its left handle if the key before it
is a Bezier key, then its right handle if it is one itself. The handles that are left out would not
be used. Of several keys at one frame only the first is recorded.
-/
namespace SceneExport.Keyframes

open Rounding (whole narrow)

/-- The record of a key behind one with the given interpolation. -/
def record (previous : Option Interpolation) (k : Key Float) : List Float32 :=
  [Float32.ofNat k.interpolation.code, narrow (whole k.frame), narrow k.value] ++
    (if previous = some .bezier then [narrow k.left.frame, narrow k.left.value] else []) ++
    (if k.interpolation = .bezier then [narrow k.right.frame, narrow k.right.value] else [])

/-- How far a frame may be from a whole number before it counts as lying between frames. -/
def fractionTolerance : Float := 0.003

def isFractional (k : Key Float) : Bool :=
  fractionTolerance < (whole k.frame - k.frame).abs

structure Stream where
  numbers : List Float32
  /-- Where the record of the last key starts; 0 if that key has no record. -/
  lastRecord : Nat
  /-- Some frame lay between frames. -/
  fractional : Bool

/-- The stream of the keys behind those at the frames `seen`, which start at `offset`. -/
def encodeFrom (seen : List Float) (previous : Option Interpolation) (offset : Nat) :
    List (Key Float) → Stream
  | [] => ⟨[], 0, false⟩
  | k :: rest =>
    if seen.any (· == k.frame) then encodeFrom seen previous offset rest
    else
      let numbers := record previous k
      let later :=
        encodeFrom (k.frame :: seen) (some k.interpolation) (offset + numbers.length) rest
      ⟨numbers ++ later.numbers, if rest.isEmpty then offset else later.lastRecord,
        isFractional k || later.fractional⟩

/-- The stream of a curve. -/
def encode (c : Curve Float) : Stream :=
  encodeFrom [] none 0 c.keys

end SceneExport.Keyframes
