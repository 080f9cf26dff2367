import SceneExport.Scalar
import SceneExport.Search

/-!
# Animation curves

A curve animates one component of a property. It is a list of keys; between two keys it follows the
interpolation of the first. Keys are kept in the order of their frames when they are put in one by
one, but a curve that was read from a file may have them in any order.
-/
namespace SceneExport

/-- How a curve runs from one key to the next. -/
inductive Interpolation where
  | bezier
  | linear
  | constant
  deriving DecidableEq, Repr, Inhabited

/-- The number of an interpolation in the exported keyframes. -/
def Interpolation.code : Interpolation → Nat
  | .bezier => 0
  | .linear => 1
  | .constant => 2

/-- A point that shapes a curve next to a key. -/
structure Handle (α : Type) where
  frame : α
  value : α
  deriving DecidableEq, Repr

structure Key (α : Type) where
  frame : α
  value : α
  left : Handle α
  right : Handle α
  interpolation : Interpolation
  deriving DecidableEq, Repr

/-- A key whose handles lie on it. -/
def Key.plain {α : Type} (frame value : α) : Key α :=
  ⟨frame, value, ⟨frame, value⟩, ⟨frame, value⟩, .bezier⟩

/-- The key moved to another height, handles included. -/
def Key.lift {α : Type} (k : Key α) (value : α) : Key α :=
  { k with
    value
    left := { k.left with value }
    right := { k.right with value } }

/-- The key with a straight line behind it. -/
def Key.straight {α : Type} (k : Key α) : Key α :=
  { k with interpolation := .linear }

/-- The animated properties of an object or a bone. -/
inductive Target where
  | location
  | quaternion
  | euler
  | scale
  deriving DecidableEq, Repr

namespace Target

def property : Target → String
  | .location => "location"
  | .quaternion => "rotation_quaternion"
  | .euler => "rotation_euler"
  | .scale => "scale"

/-- The value of a component in the transform that changes nothing. Component 0 of a quaternion is
its real part. -/
def identity {α : Type} [Scalar α] (target : Target) (index : Nat) : α :=
  match target with
  | .location | .euler => 0
  | .quaternion => if index = 0 then 1 else 0
  | .scale => 1

def components : Target → Nat
  | .quaternion => 4
  | _ => 3

end Target

structure Curve (α : Type) where
  target : Target
  index : Nat
  keys : List (Key α)
  deriving DecidableEq, Repr

namespace Curve

/-- The path that names the animated property, of a bone if one is given. -/
def dataPath {α : Type} (c : Curve α) (bone : Option String) : String :=
  match bone with
  | some bone => "pose.bones[\"" ++ bone ++ "\"]." ++ c.target.property
  | none => c.target.property

variable {α : Type} [Scalar α]

/-- Compares the key at a position with a frame. -/
def probe (keys : List (Key α)) (frame : α) (i : Nat) : Ordering :=
  match keys[i]? with
  | some k => Scalar.order k.frame frame
  | none => .gt

/-- Puts a value at a frame: a key that is there is moved to the value, else a new one takes its
place in the order of frames. -/
def insertKey (keys : List (Key α)) (frame value : α) : List (Key α) :=
  match Search.run (probe keys frame) keys.length with
  | .found i => keys.modify i fun k => k.lift value
  | .missing i => keys.insertIdx i (.plain frame value)

def insert (c : Curve α) (frame value : α) : Curve α :=
  { c with keys := insertKey c.keys frame value }

/-- The slope at a key between its neighbours: flat at the ends and where the key is at least as
high, or at least as low, as both of them. -/
def slope (before : Option (Key α)) (k : Key α) (after : Option (Key α)) : α :=
  match before, after with
  | some p, some q =>
    if (p.value ≤ k.value ∧ q.value ≤ k.value) ∨ (k.value ≤ p.value ∧ k.value ≤ q.value) ∨
        q.frame == p.frame then 0
    else (q.value - p.value) / (q.frame - p.frame)
  | _, _ => 0

/-- The key with handles a third of the way to its neighbours, on the line of its slope. At an end
of the curve both handles are as long as the one towards the neighbour. -/
def smoothKey (before : Option (Key α)) (k : Key α) (after : Option (Key α)) : Key α :=
  let s := slope before k after
  let toBefore := before.map fun p => k.frame - p.frame
  let toAfter := after.map fun q => q.frame - k.frame
  let left := (toBefore.or toAfter).getD 1 / 3
  let right := (toAfter.or toBefore).getD 1 / 3
  { k with
    left := ⟨k.frame - left, k.value - s * left⟩
    right := ⟨k.frame + right, k.value + s * right⟩ }

def smoothFrom (before : Option (Key α)) : List (Key α) → List (Key α)
  | [] => []
  | k :: rest => smoothKey before k rest.head? :: smoothFrom (some k) rest

/-- All handles computed anew from the keys. -/
def smooth (c : Curve α) : Curve α :=
  { c with keys := smoothFrom none c.keys }

end Curve

end SceneExport
