import SceneExport.Scalar

/-!
# Square matrices

A matrix is kept column by column, which is also the order of its entries in files. Products add up
from left to right.
-/
namespace SceneExport

structure Mat (n : Nat) (α : Type) where
  columns : Vector (Vector α n) n
  deriving DecidableEq, Repr

abbrev Mat4 (α : Type) := Mat 4 α

namespace Mat

variable {n : Nat} {α : Type}

def entry (m : Mat n α) (row column : Fin n) : α :=
  m.columns[column][row]

def ofFn (f : (row column : Fin n) → α) : Mat n α :=
  ⟨Vector.ofFn fun column => Vector.ofFn fun row => f row column⟩

@[simp]
theorem entry_ofFn (f : Fin n → Fin n → α) (row column : Fin n) :
    (ofFn f).entry row column = f row column := by
  simp [ofFn, entry]

/-- The entries, column after column. -/
def toList (m : Mat n α) : List α :=
  m.columns.toList.flatMap Vector.toList

/-- The matrix of four rows with these entries, column after column. -/
def ofEntries (v : Vector α 16) : Mat4 α :=
  ofFn fun row column => v[4 * column.val + row.val]

def toEntries (m : Mat4 α) : Vector α 16 :=
  Vector.ofFn fun k => m.entry ⟨k.val % 4, by omega⟩ ⟨k.val / 4, by omega⟩

variable [Scalar α]

def identity : Mat n α :=
  ofFn fun row column => if row = column then 1 else 0

/-- The sum of `f` over all positions. -/
def sum (f : Fin n → α) : α :=
  Fin.foldl n (fun total k => total + f k) 0

instance : Mul (Mat n α) where
  mul a b := ofFn fun row column => sum fun k => a.entry row k * b.entry k column

def isFinite (m : Mat n α) : Bool :=
  m.toList.all Scalar.isFinite

end Mat

end SceneExport
