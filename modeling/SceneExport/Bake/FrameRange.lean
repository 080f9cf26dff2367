import SceneExport.Bake.Error
import SceneExport.Rounding

/-!
# Ranges of frames
-/
namespace SceneExport.Bake

/-- All frames from `start` to `stop`, both included. -/
structure FrameRange where
  start : Int
  stop : Int
  start_le : start ≤ stop
  deriving Repr

namespace FrameRange

def ofBounds (start stop : Int) : Except Error FrameRange :=
  if h : start ≤ stop then .ok ⟨start, stop, h⟩
  else .error (.invalidFrameRange (Float.ofInt start) (Float.ofInt stop))

/-- The nearest frame, a half going away from zero, within the numbers of 32 bits. -/
def nearestFrame (x : Float) : Int :=
  Rounding.integer 0x7fffffff x

/-- The range of an action, whose bounds may lie between frames. -/
def ofActionRange (range : Float × Float) : Except Error FrameRange :=
  if range.1.isFinite && range.2.isFinite then
    ofBounds (nearestFrame range.1) (nearestFrame range.2)
  else .error (.invalidFrameRange range.1 range.2)

/-- The number of frames; never zero. -/
def size (r : FrameRange) : Nat :=
  (r.stop - r.start + 1).toNat

/-- The first `count` frames, or all if there are fewer. -/
def firstFrames (r : FrameRange) (count : Nat) : List Int :=
  (List.range (min count r.size)).map fun (i : Nat) => r.start + i

end FrameRange

end SceneExport.Bake
