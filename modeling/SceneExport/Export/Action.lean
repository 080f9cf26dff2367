import SceneExport.Action.Basic
import SceneExport.Keyframes
import SceneExport.Manifest.Basic

/-!
# Exported actions

The curves of an action are gathered by the path of the property they animate, in the order the
paths first appear. Where quaternions are animated, Euler angles are left out. Scales are uniform,
so the first curve stands for all components.
-/
namespace SceneExport.Export

open Manifest (CurveEntry ActionEntry)

/-- Adds a value to those under a key. -/
def gatherOne {β : Type} (key : String) (b : β) :
    List (String × List β) → List (String × List β)
  | [] => [(key, [b])]
  | (k, bs) :: rest => if k = key then (k, bs ++ [b]) :: rest else (k, bs) :: gatherOne key b rest

/-- Gathers values by key; keys stand in the order they first appear. -/
def gather {β : Type} (pairs : List (String × β)) : List (String × List β) :=
  pairs.foldl (fun done (key, b) => gatherOne key b done) []

/-- The curves that are exported, by path. -/
def curvesByPath (a : Action Float) : List (String × List (Curve Float)) :=
  let all := gather (a.curves.map fun (g, c) => (c.dataPath g.bone, c))
  if all.any fun (path, _) => Text.contains path "rotation_quaternion" then
    all.filter fun (path, _) => !Text.contains path "rotation_euler"
  else all

/-- The channels that a player sets aside for a property of a transform. -/
def transformChannels : UInt32 := 8

/-- The state of the export of an action. -/
structure Encoding where
  sections : Sections
  fractional : Bool

/-- Writes one curve into the float section. -/
def encodeCurve (e : Encoding) (c : Curve Float) : CurveEntry × Encoding :=
  let stream := Keyframes.encode c
  let (data, sections) := e.sections.pushFloats stream.numbers
  (⟨data, stream.lastRecord, transformChannels⟩, ⟨sections, e.fractional || stream.fractional⟩)

/-- Writes the curves of one path; a later curve takes the place of one of the same component. -/
def encodeComponents (e : Encoding) (done : List (Nat × CurveEntry)) :
    List (Nat × Curve Float) → List (Nat × CurveEntry) × Encoding
  | [] => (done, e)
  | (index, c) :: rest =>
    let (entry, e) := encodeCurve e c
    encodeComponents e (Entries.put index entry done) rest

/-- The components of a path. -/
def components (path : String) (curves : List (Curve Float)) : List (Nat × Curve Float) :=
  if Text.contains path "scale" then (curves.take 1).map (0, ·)
  else curves.map fun c => (c.index, c)

def encodePaths (e : Encoding) :
    List (String × List (Curve Float)) → List (String × List (Nat × CurveEntry)) × Encoding
  | [] => ([], e)
  | (path, curves) :: rest =>
    let (slot, e) := encodeComponents e [] (components path curves)
    let (slots, e) := encodePaths e rest
    ((path, slot) :: slots, e)

/-- The nearest whole number, within 64 bits. -/
def wholeFrame (x : Float) : Int := Rounding.integer 0x7fffffffffffffff x

/-- Writes an action into the sections and describes it for the manifest. -/
def encodeAction (a : Action Float) (uuid : String) (sections : Sections) (messages : Messages) :
    ActionEntry × Sections × Messages :=
  let messages :=
    if a.curveCount = 0 then messages.warn ("The action \"" ++ a.name ++ "\" has no fcurves.")
    else messages
  let (curves, e) := encodePaths ⟨sections, false⟩ (curvesByPath a)
  let messages :=
    if e.fractional then
      messages.err ("The \"" ++ a.name ++ "\" action has decimal frames. Converted to integer.")
    else messages
  (⟨a.name, uuid, (wholeFrame a.range.1, wholeFrame a.range.2), curves⟩, e.sections, messages)

end SceneExport.Export
