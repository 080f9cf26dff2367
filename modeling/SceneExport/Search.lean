/-!
# Binary search

The search halves a block of positions until one is left, whatever the probe answers on the way, and
only then asks whether it found the position. On positions that are not in order it still answers
with one of them.
-/
namespace SceneExport.Search

inductive Result where
  | found (i : Nat)
  /-- Not there; `i` is where it would be put in. -/
  | missing (i : Nat)
  deriving DecidableEq, Repr

/-- Narrows the block of `size` positions from `base` on down to one position. The upper half is
kept unless the probe finds its first position too great. -/
def narrow (probe : Nat → Ordering) (size base : Nat) : Nat :=
  if _h : 1 < size then
    let half := size / 2
    narrow probe (size - half) (if probe (base + half) = .gt then base else base + half)
  else base
termination_by size

/-- Searches `n` positions; the probe compares a position with what is looked for. -/
def run (probe : Nat → Ordering) (n : Nat) : Result :=
  if n = 0 then .missing 0
  else
    let i := narrow probe n 0
    match probe i with
    | .eq => .found i
    | .lt => .missing (i + 1)
    | .gt => .missing i

/-- The number of positions at the start for which `p` holds, if those are all that satisfy it. -/
def partition (p : Nat → Bool) (n : Nat) : Nat :=
  match run (fun i => if p i then .lt else .gt) n with
  | .found i | .missing i => i

end SceneExport.Search
