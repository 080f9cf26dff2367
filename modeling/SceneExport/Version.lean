import SceneExport.Text.Basic

/-!
# Versions of the scene format
-/
namespace SceneExport

structure Version where
  major : Int
  minor : Int
  deriving DecidableEq, Repr

namespace Version

/-- A part of a version is a whole number of 32 bits. -/
def part? (cs : List Char) : Option Int :=
  Text.integer? (-0x80000000) 0x7fffffff cs

/-- Reads `major.minor`; the first point divides the two numbers. -/
def ofText? (s : String) : Option Version := do
  let (major, minor) ← Text.cutAt? ['.'] s.toList
  return ⟨← part? major, ← part? minor⟩

/-- Whether a version comes after `0.0`. -/
def isPositive (v : Version) : Bool :=
  0 < v.major || (v.major = 0 && 0 < v.minor)

end Version

end SceneExport
