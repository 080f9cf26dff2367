import SceneExport.Action.Basic
import SceneExport.Bake.Config

/-!
# Optimizing a baked action

Keys are cleaned if the configuration asks for it, then channels that change nothing are dropped,
and at last straight parts are marked.
-/
namespace SceneExport.Action

variable {α : Type} [Scalar α]

/-- Cleans every curve and counts the keys that went. -/
def cleanKeys (threshold : α) (a : Action α) : Action α × Nat :=
  (a.mapCurves fun c => (c.clean threshold).1,
    (a.groups.flatMap Group.channels).foldl (fun total c => total + (c.clean threshold).2) 0)

/-- Drops dead channels from every group and counts them. -/
def removeDead (epsilon : α) (a : Action α) : Action α × Nat :=
  let a' : Action α :=
    { a with
      groups := a.groups.map fun g =>
        { g with channels := g.channels.filter fun c => !c.isDead epsilon } }
  (a', a.curveCount - a'.curveCount)

structure Savings where
  keys : Nat
  channels : Nat
  deriving DecidableEq, Repr

/-- The whole pass, with what it saved. -/
def optimize (cfg : Bake.Config α) (a : Action α) : Action α × Savings :=
  let (cleaned, keys) := if cfg.cleanKeys then a.cleanKeys cfg.cleanThreshold else (a, 0)
  let (living, channels) := cleaned.removeDead cfg.identityEpsilon
  (living.mapCurves fun c => c.markStraight cfg.linearTolerance, ⟨keys, channels⟩)

end SceneExport.Action
