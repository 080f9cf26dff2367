import SceneExport.Matrix.Rotation

/-!
# Location, rotation and scale

The pose of a bone as a matrix, and as the three transforms that make it up.
-/
namespace SceneExport

/-- A scale, then a rotation, then a shift to a location. -/
structure Transform (α : Type) where
  location : Vec3 α
  rotation : Quat α
  scale : Vec3 α
  deriving DecidableEq, Repr

namespace Transform

variable {α : Type}

section Algebra

variable [Scalar α]

def identity : Transform α := ⟨⟨0, 0, 0⟩, .identity, ⟨1, 1, 1⟩⟩

def shiftMatrix (t : Vec3 α) : Mat4 α :=
  .ofFn fun row column =>
    match row, column with
    | 0, 3 => t.x
    | 1, 3 => t.y
    | 2, 3 => t.z
    | _, _ => if row = column then 1 else 0

def scaleMatrix (s : Vec3 α) : Mat4 α :=
  .ofFn fun row column =>
    match row, column with
    | 0, 0 => s.x
    | 1, 1 => s.y
    | 2, 2 => s.z
    | 3, 3 => 1
    | _, _ => 0

/-- The matrix of four rows with a matrix of three rows in its corner. -/
def homogeneous (m : Mat 3 α) : Mat4 α :=
  .ofFn fun row column =>
    if h : row.val < 3 ∧ column.val < 3 then m.entry ⟨row.val, h.1⟩ ⟨column.val, h.2⟩
    else if row = column then 1 else 0

end Algebra

variable [Metric α]

/-- The matrix that scales, turns and moves. The quaternion need not be of length one. -/
def compose (t : Transform α) : Mat4 α :=
  shiftMatrix t.location * homogeneous t.rotation.unit.toMatrix * scaleMatrix t.scale

/-- A column of length one in the direction of `v`, or along the axis if `v` has no length. -/
def direction (v axis : Vec3 α) : Vec3 α :=
  let length := v.norm
  if Metric.epsilon < length then v.map fun a => a / length else axis

/-- The transforms that make up a matrix: its last column, the rotation at which the search for the
one nearest to its other columns ends, and their lengths. A basis that mirrors is turned into a
proper rotation by negating it. -/
def decompose (m : Mat4 α) : Transform α :=
  let part (column : Vector α 4) : Vec3 α := ⟨column[0], column[1], column[2]⟩
  let x := part m.columns[0]
  let y := part m.columns[1]
  let z := part m.columns[2]
  let basis := Mat.ofColumns (direction x ⟨1, 0, 0⟩) (direction y ⟨0, 1, 0⟩) (direction z ⟨0, 0, 1⟩)
  let proper := if basis.det3 < 0 then basis.negate else basis
  ⟨part m.columns[3], .ofRotation proper.nearestRotation, ⟨x.norm, y.norm, z.norm⟩⟩

end Transform

end SceneExport
