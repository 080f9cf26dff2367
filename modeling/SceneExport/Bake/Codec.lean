import SceneExport.Bake.Config
import SceneExport.Bake.Vertex
import SceneExport.Json.Codec

/-!
# Options, failures and vertex animations of bakes as JSON
-/
namespace SceneExport.Bake

open Json (Codec Shape)

def Config.codec : Codec (Config Float) :=
  let usual := Config.usual
  (Shape.field (.defaulted "baked_suffix" .text usual.suffix) <|
    .field (.defaulted "only_deform_bones" .bool usual.onlyDeforming) <|
    .field (.defaulted "clean_keys" .bool usual.cleanKeys) <|
    .field (.defaulted "clean_threshold" .double usual.cleanThreshold) <|
    .field (.defaulted "identity_epsilon" .double usual.identityEpsilon) <|
    .field (.defaulted "linear_tolerance" .double usual.linearTolerance) <|
    .field (.defaulted "inverse_bias" .double usual.inverseBias) .done).codec
    (fun (suffix, onlyDeforming, cleanKeys, cleanThreshold, identityEpsilon, linearTolerance,
        inverseBias, _) =>
      { suffix, onlyDeforming, cleanKeys, cleanThreshold, identityEpsilon, linearTolerance,
        inverseBias })
    (fun c => (c.suffix, c.onlyDeforming, c.cleanKeys, c.cleanThreshold, c.identityEpsilon,
      c.linearTolerance, c.inverseBias, ()))

namespace Error

/-- A failure that only names something. -/
def named (field : String) : Codec String :=
  (Shape.field (.required field .text) .done).codec Prod.fst (fun s => (s, ()))

def range : Codec (Float × Float) :=
  (Shape.field (.required "start" .double) <| .field (.required "end" .double) .done).codec
    (fun (start, stop, _) => (start, stop)) (fun (start, stop) => (start, stop, ()))

def site : Codec (String × Int) :=
  (Shape.field (.required "bone" .text) <| .field (.required "frame" .int32) .done).codec
    (fun (bone, frame, _) => (bone, frame)) (fun (bone, frame) => (bone, frame, ()))

def topology : Codec (String × Int × Nat × Nat) :=
  (Shape.field (.required "object" .text) <|
    .field (.required "frame" .int32) <|
    .field (.required "expected" .size) <|
    .field (.required "found" .size) .done).codec
    (fun (object, frame, expected, found, _) => (object, frame, expected, found))
    (fun (object, frame, expected, found) => (object, frame, expected, found, ()))

def content : Error → Json
  | .notAnArmature object | .noAnimationData object | .linkedObject object =>
    (named "object").write object
  | .invalidFrameRange start stop => range.write (start, stop)
  | .invalidSkeleton reason => (named "reason").write reason
  | .missingPose bone frame | .singularMatrix bone frame => site.write (bone, frame)
  | .topologyChanged object frame expected found => topology.write (object, frame, expected, found)
  | .unknownAction name => (named "name").write name

/-- The readers of the contents, by name. -/
def readers : List (String × (Json.Tree → Except Json.Fault Error)) :=
  [("NotAnArmature", fun t => ((named "object").read t).map .notAnArmature),
    ("NoAnimationData", fun t => ((named "object").read t).map .noAnimationData),
    ("LinkedObject", fun t => ((named "object").read t).map .linkedObject),
    ("InvalidFrameRange", fun t => (range.read t).map fun (a, b) => .invalidFrameRange a b),
    ("InvalidSkeleton", fun t => ((named "reason").read t).map .invalidSkeleton),
    ("MissingPose", fun t => (site.read t).map fun (b, f) => .missingPose b f),
    ("SingularMatrix", fun t => (site.read t).map fun (b, f) => .singularMatrix b f),
    ("TopologyChanged", fun t => (topology.read t).map fun (o, f, e, n) =>
      .topologyChanged o f e n),
    ("UnknownAction", fun t => ((named "name").read t).map .unknownAction)]

/-- An object with one member, named after the failure. -/
def codec : Codec Error := .tagged tag content readers

end Error

def VertexFrame.codec : Codec VertexFrame :=
  (Shape.field (.required "frame" .int32) <|
    .field (.required "posnor" (.list (.vector 6 .single))) .done).codec
    (fun (frame, vertices, _) => ⟨frame, vertices⟩)
    (fun f => (f.frame, f.vertices, ()))

def VertexAnimation.codec : Codec VertexAnimation :=
  (Shape.field (.required "name" .text) <|
    .field (.required "frame_start" .int32) <|
    .field (.required "frame_end" .int32) <|
    .field (.defaulted "averaging" .bool false) <|
    .field (.defaulted "averaging_interval" .int32 5) <|
    .field (.defaulted "allow_nla" .bool false) <|
    .field (.defaulted "frames" (.list VertexFrame.codec) []) .done).codec
    (fun (name, start, stop, averaging, averagingInterval, allowNla, frames, _) =>
      { name, start, stop, averaging, averagingInterval, allowNla, frames })
    (fun a => (a.name, a.start, a.stop, a.averaging, a.averagingInterval, a.allowNla, a.frames, ()))

end SceneExport.Bake
