import SceneExport.Curve.Evaluate

/-!
# Fewer keys for the same curve

A sampled curve has a key at every frame. Cleaning drops keys that repeat their neighbours within a
threshold. Parts of a curve that run straight are marked as linear, and Bezier handles next to them
are laid onto the line. Values of keys are never changed.
-/
namespace SceneExport.Curve

variable {α : Type} [Scalar α]

def near (threshold a b : α) : Bool :=
  Scalar.abs (a - b) ≤ threshold

/-- The keys that stay behind one that stayed at height `kept`. A key goes when it is near the key
that stayed before it and near the next key, if there is one. -/
def thinFrom (threshold kept : α) : List (Key α) → List (Key α)
  | [] => []
  | k :: rest =>
    let redundant := near threshold k.value kept &&
      (match rest with
        | [] => true
        | next :: _ => near threshold k.value next.value)
    if redundant then thinFrom threshold kept rest
    else k :: thinFrom threshold k.value rest

/-- The keys that cleaning keeps; the first always stays. -/
def thin (threshold : α) : List (Key α) → List (Key α)
  | [] => []
  | first :: rest => first :: thinFrom threshold first.value rest

/-- Drops repeated keys; handles are computed anew if any went. Also counts the keys dropped. -/
def clean (threshold : α) (c : Curve α) : Curve α × Nat :=
  let kept := thin threshold c.keys
  let removed := c.keys.length - kept.length
  let c' : Curve α := { c with keys := kept }
  (if 0 < removed then c'.smooth else c', removed)

/-- A channel with a single key next to the value that changes nothing. -/
def isDead (epsilon : α) (c : Curve α) : Bool :=
  match c.keys with
  | [only] =>
    c.target ≠ .euler && decide (Scalar.abs (only.value - c.target.identity c.index) < epsilon)
  | _ => false

/-- The line through two keys, as its slope and its height at frame 0. -/
def lineThrough (a b : Key α) : α × α :=
  let k := (b.value - a.value) / (b.frame - a.frame)
  (k, a.value - k * a.frame)

/-- Whether the curve runs straight through `b`: the next key is one frame on, or lies on the line
from the key before. -/
def isStraight (tolerance : α) (a b c : Key α) : Bool :=
  let (k, h) := lineThrough a b
  c.frame - b.frame == 1 || Scalar.abs (k * c.frame + h - c.value) < tolerance

/-- Marks three neighbouring keys. `first` and `last` say that the outer keys are the ends of the
curve, which take part in what happens to the middle key. -/
def straighten (tolerance : α) (first last : Bool) (a b c : Key α) : Key α × Key α × Key α :=
  let straight := isStraight tolerance a b c
  let (k, h) := lineThrough a b
  let a' := if straight && first then Key.straight a else a
  let b' := if straight then Key.straight b else b
  let c' := if straight && last then Key.straight c else c
  match a'.interpolation, b'.interpolation with
  | .bezier, .linear =>
    ({ a' with right := { a'.right with value := k * a'.right.frame + h } },
      { b' with left := { b'.left with value := k * b'.left.frame + h } }, c')
  | .linear, .bezier => (a', { b' with right := { b'.right with value := c'.value } }, c')
  | _, _ => (a', b', c')

/-- Marks the keys from `a` on, going along the curve. -/
def straightenFrom (tolerance : α) (first : Bool) (a : Key α) : List (Key α) → List (Key α)
  | b :: c :: rest =>
    let (a, b, c) := straighten tolerance first rest.isEmpty a b c
    a :: straightenFrom tolerance false b (c :: rest)
  | rest => a :: rest
termination_by rest => rest.length

/-- Marks straight parts as linear. -/
def markStraight (tolerance : α) (c : Curve α) : Curve α :=
  { c with
    keys :=
      match c.keys with
      | [] => []
      | a :: rest => straightenFrom tolerance true a rest }

end SceneExport.Curve
