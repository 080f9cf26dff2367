import SceneExport.Matrix.Basic

/-!
# Rotations

Rotations as unit quaternions and as matrices of three rows, and the rotation nearest to a matrix.
The nearest rotation is found by turning a first guess step by step. A step turns about the sum of
the crosswise products of the columns, and stops where that sum vanishes. Such a point can be a
saddle instead of the nearest rotation, so the guess is then disturbed a little to see whether that
leads closer.

The steps are short where the columns are almost parallel, since turning about their common
direction changes the distance very little. A search that takes long therefore leaps now and then:
it turns by the best angle about its axis, which the distance gives at once as a wave in that angle.
-/
namespace SceneExport

structure Vec3 (α : Type) where
  x : α
  y : α
  z : α
  deriving DecidableEq, Repr

/-- A quaternion with real part `w`. -/
structure Quat (α : Type) where
  w : α
  x : α
  y : α
  z : α
  deriving DecidableEq, Repr

namespace Vec3

variable {α : Type}

def ofVector (v : Vector α 3) : Vec3 α := ⟨v[0], v[1], v[2]⟩

def toList (v : Vec3 α) : List α := [v.x, v.y, v.z]

def map (f : α → α) (v : Vec3 α) : Vec3 α := ⟨f v.x, f v.y, f v.z⟩

variable [Scalar α]

instance : Add (Vec3 α) := ⟨fun a b => ⟨a.x + b.x, a.y + b.y, a.z + b.z⟩⟩

def dot (a b : Vec3 α) : α := a.x * b.x + a.y * b.y + a.z * b.z

def cross (a b : Vec3 α) : Vec3 α :=
  ⟨a.y * b.z - a.z * b.y, a.z * b.x - a.x * b.z, a.x * b.y - a.y * b.x⟩

end Vec3

def Vec3.norm {α : Type} [Metric α] (v : Vec3 α) : α := Metric.sqrt (v.dot v)

namespace Quat

variable {α : Type}

/-- The components, real part first. -/
def toList (q : Quat α) : List α := [q.w, q.x, q.y, q.z]

variable [Scalar α]

def identity : Quat α := ⟨1, 0, 0, 0⟩

def dot (p q : Quat α) : α := p.w * q.w + p.x * q.x + p.y * q.y + p.z * q.z

instance : Neg (Quat α) := ⟨fun q => ⟨-q.w, -q.x, -q.y, -q.z⟩⟩

/-- The rotation matrix of a unit quaternion. -/
def toMatrix (q : Quat α) : Mat 3 α :=
  let ⟨w, x, y, z⟩ := q
  .ofFn fun row column =>
    match row, column with
    | 0, 0 => w * w + x * x - y * y - z * z
    | 0, 1 => x * y * 2 - w * z * 2
    | 0, 2 => w * y * 2 + x * z * 2
    | 1, 0 => w * z * 2 + x * y * 2
    | 1, 1 => w * w - x * x + y * y - z * z
    | 1, 2 => y * z * 2 - w * x * 2
    | 2, 0 => x * z * 2 - w * y * 2
    | 2, 1 => w * x * 2 + y * z * 2
    | 2, 2 => w * w - x * x - y * y + z * z

end Quat

namespace Mat

variable {α : Type}

/-- Where the matrix takes the first axis. -/
def xAxis (m : Mat 3 α) : Vec3 α := .ofVector m.columns[0]

/-- Where the matrix takes the second axis. -/
def yAxis (m : Mat 3 α) : Vec3 α := .ofVector m.columns[1]

/-- Where the matrix takes the third axis. -/
def zAxis (m : Mat 3 α) : Vec3 α := .ofVector m.columns[2]

def ofColumns (a b c : Vec3 α) : Mat 3 α :=
  ⟨#v[#v[a.x, a.y, a.z], #v[b.x, b.y, b.z], #v[c.x, c.y, c.z]]⟩

section Algebra

variable [Scalar α]

/-- The determinant, developed along the first row. -/
def det3 (m : Mat 3 α) : α :=
  let a := m.xAxis
  let b := m.yAxis
  let c := m.zAxis
  a.x * (b.y * c.z - b.z * c.y) - b.x * (a.y * c.z - a.z * c.y) + c.x * (a.y * b.z - a.z * b.y)

/-- The square of the distance between two matrices. -/
def distance2 (m r : Mat 3 α) : α :=
  sum fun i => sum fun j => (m.entry j i - r.entry j i) * (m.entry j i - r.entry j i)

/-- The sum of the crosswise products of the columns: the axis about which to turn the first matrix
towards the second. -/
def torque (r m : Mat 3 α) : Vec3 α :=
  r.xAxis.cross m.xAxis + r.yAxis.cross m.yAxis + r.zAxis.cross m.zAxis

/-- The sum of the products of the columns. Rotations are the nearer to a matrix the larger it
is. -/
def agreement (r m : Mat 3 α) : α :=
  r.xAxis.dot m.xAxis + r.yAxis.dot m.yAxis + r.zAxis.dot m.zAxis

/-- Negates every entry. -/
def negate (m : Mat 3 α) : Mat 3 α :=
  ofFn fun row column => -m.entry row column

end Algebra

variable [Metric α]

/-- The rotation about a unit axis by the angle with sine `s` and cosine `c`. -/
def turnBy (axis : Vec3 α) (s c : α) : Mat 3 α :=
  let ⟨x, y, z⟩ := axis
  let d := 1 - c
  ofFn fun row column =>
    match row, column with
    | 0, 0 => x * x + (1 - x * x) * c
    | 0, 1 => x * y * d - z * s
    | 0, 2 => x * z * d + y * s
    | 1, 0 => x * y * d + z * s
    | 1, 1 => y * y + (1 - y * y) * c
    | 1, 2 => y * z * d - x * s
    | 2, 0 => x * z * d - y * s
    | 2, 1 => y * z * d + x * s
    | 2, 2 => z * z + (1 - z * z) * c

/-- The rotation about a unit axis. -/
def turn (axis : Vec3 α) (angle : α) : Mat 3 α :=
  turnBy axis (Metric.sin angle) (Metric.cos angle)

/-- The turn that brings `r` closer to `m`, as an axis of the length of the angle. -/
def correction (m r : Mat 3 α) : Vec3 α :=
  (r.torque m).map fun a => a / (Scalar.abs (r.agreement m) + Metric.epsilon)

/-- The turn about a unit axis that brings `r` closest to `m`. The agreement of the two is a
constant, a multiple of the cosine of the angle and a multiple of its sine, so it is largest where
sine and cosine stand in the ratio of the multiples. Where both are so small that rounding may have
made them, there is no best angle, and the turn is by the given one. -/
def leap (m r : Mat 3 α) (axis : Vec3 α) (angle : α) : Mat 3 α :=
  let fixed (a b : Vec3 α) := axis.dot a * axis.dot b
  let s := axis.dot (r.torque m)
  let c := r.agreement m -
    (fixed r.xAxis m.xAxis + fixed r.yAxis m.yAxis + fixed r.zAxis m.zAxis)
  let size := Metric.sqrt (s * s + c * c)
  if Metric.sqrt Metric.epsilon < size then turnBy axis (s / size) (c / size) else turn axis angle

/-- Turns `r` little by little about an axis until its distance from `m` is another. -/
def disturb (m : Mat 3 α) (axis : Vec3 α) (distance : α) : Nat → Mat 3 α → Mat 3 α × α
  | 0, r => (r, distance2 m r)
  | steps + 1, r =>
    let r := r * turn axis (Metric.sqrt Metric.epsilon)
    let d := distance2 m r
    if Scalar.abs (distance - d) ≤ Metric.epsilon then disturb m axis distance steps r else (r, d)

/-- The last steps of a search, where every third one is a leap. -/
def leapingSteps : Nat := 10000

/-- Searches for the rotation nearest to `m` from `r` on. Where the search does not settle within
`steps` steps, the rotation reached by the last of them is returned, however far from `m` it is. -/
def approach (m : Mat 3 α) : Nat → (axis : Vec3 α) → Mat 3 α → Mat 3 α
  | 0, _, r => r
  | steps + 1, axis, r =>
    let v := correction m r
    if Metric.epsilon * Metric.epsilon < v.dot v then
      let angle := v.norm
      let unit := v.map fun a => a / angle
      let step :=
        if steps < leapingSteps ∧ steps % 3 = 0 then leap m r unit angle else turn unit angle
      approach m steps axis (step * r)
    else
      let distance := distance2 m r
      let (r', d) := disturb m axis distance 4000000 r
      if distance < d then r else approach m steps ⟨axis.y, axis.z, axis.x⟩ r'

/-- The rotation at which the search for the one nearest to a matrix ends. Where the search settles,
no small turn brings it closer to the matrix. Where it does not settle within its 30000 steps, it is
the rotation that the last step reached, about whose distance from the matrix nothing is said. -/
def nearestRotation (m : Mat 3 α) : Mat 3 α :=
  approach m (20000 + leapingSteps) ⟨1, 0, 0⟩ identity

end Mat

namespace Quat

variable {α : Type} [Metric α]

def norm (q : Quat α) : α :=
  Metric.sqrt (q.dot q)

/-- The quaternion of length one in the same direction; that of no rotation if there is none. -/
def unit (q : Quat α) : Quat α :=
  let n := q.norm
  if n ≤ Metric.epsilon then identity else ⟨q.w / n, q.x / n, q.y / n, q.z / n⟩

/-- The quaternion of a rotation matrix, computed from the largest of its components if the real
part is small. -/
def ofRotation (m : Mat 3 α) : Quat α :=
  let a := m.xAxis
  let b := m.yAxis
  let c := m.zAxis
  let trace := a.x + b.y + c.z
  if 0 < trace then
    let d := Metric.sqrt (trace + 1) * 2
    ⟨d / 4, (b.z - c.y) / d, (c.x - a.z) / d, (a.y - b.x) / d⟩
  else if b.y < a.x ∧ c.z < a.x then
    let d := Metric.sqrt (1 + a.x - b.y - c.z) * 2
    ⟨(b.z - c.y) / d, d / 4, (b.x + a.y) / d, (c.x + a.z) / d⟩
  else if c.z < b.y then
    let d := Metric.sqrt (1 + b.y - a.x - c.z) * 2
    ⟨(c.x - a.z) / d, (b.x + a.y) / d, d / 4, (c.y + b.z) / d⟩
  else
    let d := Metric.sqrt (1 + c.z - a.x - b.y) * 2
    ⟨(a.y - b.x) / d, (c.x + a.z) / d, (c.y + b.z) / d, d / 4⟩

end Quat

end SceneExport
