import SceneExport.Matrix.Basic

/-!
# Inverses

The inverse of a matrix of four rows is its adjugate over its determinant. A matrix whose
determinant is exactly zero has none; it is then tried again with a small bias on the diagonal, so
that a bone scaled to nothing still gets an approximate inverse.
-/
namespace SceneExport.Mat

variable {α : Type} [Scalar α]

/-- Position `k` of those that remain when `i` is left out. -/
def skip (i : Fin 4) (k : Fin 3) : Fin 4 :=
  if k.val < i.val then k.castSucc else k.succ

/-- The determinant of what remains without one row and one column, as six signed products. -/
def minor (m : Mat4 α) (row column : Fin 4) : α :=
  let e (r c : Fin 3) := m.entry (skip row r) (skip column c)
  e 0 0 * e 1 1 * e 2 2 - e 0 0 * e 2 1 * e 1 2 - e 0 1 * e 1 0 * e 2 2 + e 0 1 * e 2 0 * e 1 2 +
    e 0 2 * e 1 0 * e 2 1 - e 0 2 * e 2 0 * e 1 1

/-- The minor with the sign of its place. -/
def cofactor (m : Mat4 α) (row column : Fin 4) : α :=
  if (row.val + column.val) % 2 = 0 then m.minor row column else -m.minor row column

/-- The determinant, developed along the first column. -/
def det (m : Mat4 α) : α :=
  m.entry 0 0 * m.cofactor 0 0 + m.entry 1 0 * m.cofactor 1 0 + m.entry 2 0 * m.cofactor 2 0 +
    m.entry 3 0 * m.cofactor 3 0

/-- The inverse; none when the determinant is zero. -/
def inverse? (m : Mat4 α) : Option (Mat4 α) :=
  let d := m.det
  if d == 0 then none
  else
    let scale := 1 / d
    some (ofFn fun row column => m.cofactor column row * scale)

/-- The matrix with `bias` added to the first three entries of its diagonal. -/
def biased (m : Mat4 α) (bias : α) : Mat4 α :=
  ofFn fun row column =>
    if row = column ∧ row.val < 3 then m.entry row column + bias else m.entry row column

/-- The inverse, or else that of the biased matrix; none when neither is finite. -/
def safeInverse? (m : Mat4 α) (bias : α) : Option (Mat4 α) :=
  (m.inverse?.filter isFinite).or ((m.biased bias).inverse?.filter isFinite)

end SceneExport.Mat
