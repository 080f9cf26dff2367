import SceneExport.Curve.Optimize
import SceneExport.Text.Basic

/-!
# Actions and the library that holds them

An action is a named piece of animation: groups of curves, one group for each bone it moves and one
without a name for the object itself. The library of a project finds actions by name. Storing an
action under a name that is taken refills the action of that name where it stands.
-/
namespace SceneExport

/-- Changes the first element that satisfies `p`; nothing if there is none or it cannot be
changed. -/
def changeFirst? {β : Type} (p : β → Bool) (f : β → Option β) : List β → Option (List β)
  | [] => none
  | b :: bs => if p b then (f b).map (· :: bs) else (changeFirst? p f bs).map (b :: ·)

/-- The curves of one bone, or of the object itself when the name is empty. -/
structure Group (α : Type) where
  name : String
  channels : List (Curve α)
  deriving DecidableEq, Repr

namespace Group

variable {α : Type}

/-- The bone whose properties the curves animate. -/
def bone (g : Group α) : Option String :=
  if g.name.isEmpty then none else some g.name

/-- The properties of a transform and their components, in the order they are baked in. -/
def transformChannels : List (Target × Nat) :=
  [Target.location, Target.quaternion, Target.scale].flatMap fun target =>
    (List.range target.components).map fun index => (target, index)

/-- The ten empty channels of a transform. -/
def transform (name : String) : Group α :=
  ⟨name, transformChannels.map fun (target, index) => ⟨target, index, []⟩⟩

def isChannel (target : Target) (index : Nat) (c : Curve α) : Bool :=
  c.target = target && c.index = index

/-- The first curve of a component. -/
def channel? (g : Group α) (target : Target) (index : Nat) : Option (Curve α) :=
  g.channels.find? (isChannel target index)

end Group

/-- The kind of data an action animates. -/
inductive IdRoot where
  | object
  | material
  | world
  | scene
  | lamp
  deriving DecidableEq, Repr, Inhabited

structure Action (α : Type) where
  name : String
  idRoot : IdRoot
  /-- First and last frame; an action that was made by hand may start and end between frames. -/
  range : α × α
  groups : List (Group α)
  deriving DecidableEq, Repr

namespace Action

variable {α : Type}

/-- The first group of that name. -/
def group? (a : Action α) (name : String) : Option (Group α) :=
  a.groups.find? fun g => g.name = name

/-- All curves, each with its group. -/
def curves (a : Action α) : List (Group α × Curve α) :=
  a.groups.flatMap fun g => g.channels.map fun c => (g, c)

def curveCount (a : Action α) : Nat :=
  (a.groups.flatMap Group.channels).length

/-- The value of one component at a frame; none if the action has no such curve. -/
def evaluate [Scalar α] (a : Action α) (group : String) (target : Target) (index : Nat)
    (frame : α) :
    Option α := do
  let g ← a.group? group
  let c ← g.channel? target index
  c.evaluate frame

/-- Puts a value at a frame of one component; nothing if the action has no such curve. -/
def setKey? [Scalar α] (a : Action α) (group : String) (target : Target) (index : Nat)
    (frame value : α) : Option (Action α) := do
  let groups ← changeFirst? (fun g => g.name = group) (fun g => do
    let channels ← changeFirst? (Group.isChannel target index)
      (fun c => some (c.insert frame value)) g.channels
    return { g with channels }) a.groups
  return { a with groups }

/-- Every curve replaced. -/
def mapCurves (f : Curve α → Curve α) (a : Action α) : Action α :=
  { a with groups := a.groups.map fun g => { g with channels := g.channels.map f } }

end Action

structure Library (α : Type) where
  actions : List (Action α)
  deriving DecidableEq, Repr

namespace Library

variable {α : Type}

/-- The first action of that name. -/
def get? (l : Library α) (name : String) : Option (Action α) :=
  l.actions.find? fun a => a.name = name

/-- Stores an action: the first action of its name is refilled in place, else it comes last. -/
def store (l : Library α) (action : Action α) : Library α :=
  match changeFirst? (fun a => a.name = action.name) (fun _ => some action) l.actions with
  | some actions => ⟨actions⟩
  | none => ⟨l.actions ++ [action]⟩

end Library

end SceneExport
