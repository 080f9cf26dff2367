import SceneExport.Bake.FrameRange
import SceneExport.Pose.Evaluator

/-!
# Vertex animation

The positions and normals of all vertices of a mesh, recorded frame by frame. A bake either records
every frame of its range or leaves the animation as it was, and it always asks the mesh to go back
to the frame it came from.
-/
namespace SceneExport.Bake

/-- Position and normal of a vertex. -/
abbrev Vertex := Vector Float32 6

structure VertexFrame where
  frame : Int
  vertices : List Vertex

structure VertexAnimation where
  name : String
  start : Int
  stop : Int
  /-- Playback blends neighbouring frames. -/
  averaging : Bool
  averagingInterval : Int
  allowNla : Bool
  frames : List VertexFrame

namespace VertexAnimation

def new (name : String) (start stop : Int) : VertexAnimation :=
  { name, start, stop, averaging := false, averagingInterval := 5, allowNla := false, frames := [] }

def isBaked (a : VertexAnimation) : Bool := !a.frames.isEmpty

/-- The number of vertices of the first frame. -/
def vertexCount? (a : VertexAnimation) : Option Nat :=
  a.frames.head?.map fun f => f.vertices.length

end VertexAnimation

/-- A mesh with all its deformations, as a machine that can be set to a frame. -/
structure MeshEvaluator (σ : Type) where
  object : σ → String
  frame : σ → Int
  setFrame : Int → Step σ Unit
  vertices : Step σ (List Vertex)

variable {σ : Type}

/-- Fails when the number of vertices is not the expected one. -/
def checkTopology (object : String) (frame : Int) (expected : Option Nat) (found : Nat) :
    Except Error Unit :=
  match expected.filter (· ≠ found) with
  | some count => .error (.topologyChanged object frame count found)
  | none => .ok ()

/-- Records `count` frames from `frame` on. -/
def recordFrames (mesh : MeshEvaluator σ) :
    (expected : Option Nat) → (count : Nat) → (frame : Int) → Step σ (List VertexFrame)
  | _, 0, _ => pure []
  | expected, count + 1, frame => do
    mesh.setFrame frame
    let vertices ← mesh.vertices
    match checkTopology (mesh.object (← get)) frame expected vertices.length with
    | .error e => throw e
    | .ok () =>
      let later ← recordFrames mesh (some vertices.length) count (frame + 1)
      return ⟨frame, vertices⟩ :: later

/-- What is done to the mesh alone while an animation is baked. -/
def onMesh {β : Type} (m : StateM σ β) : StateM (σ × VertexAnimation) β := do
  let (s, a) ← get
  let (b, s') := m.run s
  set (s', a)
  return b

/-- Refills the animation if recording its frames and going back both went well. -/
def refill (recorded : Except Error (List VertexFrame)) (restored : Except Error Unit) :
    Step (σ × VertexAnimation) Unit :=
  match recorded, restored with
  | .error e, _ | .ok _, .error e => throw e
  | .ok frames, .ok () => modify fun (s, a) => (s, { a with frames })

/-- Bakes the range of the animation beside the mesh. -/
def bakeVertices (mesh : MeshEvaluator σ) : Step (σ × VertexAnimation) Unit := do
  let (s, a) ← get
  match FrameRange.ofBounds a.start a.stop with
  | .error e => throw e
  | .ok range =>
    let saved := mesh.frame s
    let recorded ← liftM (onMesh (attempt (recordFrames mesh none range.size range.start)))
    let restored ← liftM (onMesh (attempt (mesh.setFrame saved)))
    refill recorded restored

/-- A mesh recorded frame by frame; frames without a recording show the usual vertices. -/
structure MeshRecording where
  object : String
  frames : List (Int × List Vertex)
  usual : Option (List Vertex)
  refused : List (Int × Error)
  /-- What is reported at a frame without vertices. -/
  missing : Int → Error

/-- The recording as a machine whose state is the frame. -/
def MeshRecording.evaluator (r : MeshRecording) : MeshEvaluator Int where
  object _ := r.object
  frame := id
  setFrame frame :=
    match r.refused.lookup frame with
    | some e => throw e
    | none => set frame
  vertices := do
    let frame ← get
    match (r.frames.lookup frame).or r.usual with
    | some vertices => return vertices
    | none => throw (r.missing frame)

end SceneExport.Bake
