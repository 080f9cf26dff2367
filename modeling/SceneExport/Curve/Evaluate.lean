import SceneExport.Curve.Basic

/-!
# Values of curves

Before its first key and after its last one a curve stays at their values. Between two keys it is
constant, a straight line, or a Bezier segment. A segment is a cubic in two coordinates; its
parameter at a frame is found by bisection. The frames of the handles are moved between the two keys
first, so the frame never decreases along the segment.
-/
namespace SceneExport.Curve

variable {α : Type} [Scalar α]

/-- The cubic with control values `p0` to `p3`. -/
def cubic (p0 p1 p2 p3 t : α) : α :=
  let u := 1 - t
  u * u * u * p0 + 3 * u * u * t * p1 + 3 * u * t * t * p2 + t * t * t * p3

/-- How close to a frame the bisection comes before it stops. -/
def tolerance : α := 1 / 1000000000

/-- Halves the interval from `lo` to `hi` until `x` at its middle is next to `frame`, `steps` times
at most. Hands back the last middle. -/
def bisect (x : α → α) (frame : α) : (steps : Nat) → (lo hi last : α) → α
  | 0, _, _, last => last
  | steps + 1, lo, hi, _ =>
    let t := Scalar.half * (lo + hi)
    let reached := x t
    if Scalar.abs (reached - frame) < tolerance then t
    else if reached < frame then bisect x frame steps t hi t
    else bisect x frame steps lo t t

/-- The value of the Bezier segment from `a` to `b`. -/
def segment (a b : Key α) (frame : α) : α :=
  let x1 := Scalar.clamp a.right.frame a.frame b.frame
  let x2 := Scalar.clamp b.left.frame a.frame b.frame
  let t := bisect (cubic a.frame x1 x2 b.frame) frame 48 0 1 Scalar.half
  cubic a.value a.right.value b.left.value b.value t

/-- The value between two keys. -/
def between (a b : Key α) (frame : α) : α :=
  let span := b.frame - a.frame
  if span ≤ 0 then b.value
  else
    match a.interpolation with
    | .constant => a.value
    | .linear => a.value + (b.value - a.value) * ((frame - a.frame) / span)
    | .bezier => segment a b frame

/-- The number of keys up to a frame, as binary search finds it. -/
def keysUpTo (keys : List (Key α)) (frame : α) : Nat :=
  Search.partition (fun i => (keys[i]?.map fun k => decide (k.frame ≤ frame)).getD false)
    keys.length

/-- The value between the key before position `i` and the one at it. -/
def valueAt? (keys : List (Key α)) (frame : α) : Nat → Option α
  | 0 => none
  | i + 1 => do
    let a ← keys[i]?
    let b ← keys[i + 1]?
    return between a b frame

/-- The value of a curve at a frame; none without keys. -/
def evaluate (c : Curve α) (frame : α) : Option α := do
  let first ← c.keys.head?
  let last ← c.keys.getLast?
  if frame ≤ first.frame then return first.value
  else if last.frame ≤ frame then return last.value
  else valueAt? c.keys frame (keysUpTo c.keys frame)

end SceneExport.Curve
