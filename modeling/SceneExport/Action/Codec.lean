import SceneExport.Action.Basic
import SceneExport.Json.Codec

/-!
# Actions as JSON
-/
namespace SceneExport

open Json (Codec Shape)

def Interpolation.codec : Codec Interpolation :=
  .oneOf [("BEZIER", .bezier), ("LINEAR", .linear), ("CONSTANT", .constant)]

def Target.codec : Codec Target :=
  .oneOf [("location", .location), ("rotation_quaternion", .quaternion), ("rotation_euler", .euler),
    ("scale", .scale)]

def IdRoot.codec : Codec IdRoot :=
  .oneOf [("OBJECT", .object), ("MATERIAL", .material), ("WORLD", .world), ("SCENE", .scene),
    ("LAMP", .lamp)]

def Handle.codec : Codec (Handle Float) :=
  (Codec.pair .double).imap (fun p => ⟨p.1, p.2⟩) (fun h => (h.frame, h.value))

def Key.codec : Codec (Key Float) :=
  (Shape.field (.required "co" Handle.codec) <|
    .field (.required "handle_left" Handle.codec) <|
    .field (.required "handle_right" Handle.codec) <|
    .field (.defaulted "interpolation" Interpolation.codec .bezier) .done).codec
    (fun (place, left, right, interpolation, _) =>
      ⟨place.frame, place.value, left, right, interpolation⟩)
    (fun k => (⟨k.frame, k.value⟩, k.left, k.right, k.interpolation, ()))

def Curve.codec : Codec (Curve Float) :=
  (Shape.field (.required "target" Target.codec) <|
    .field (.required "array_index" .size) <|
    .field (.defaulted "points" (.list Key.codec) []) .done).codec
    (fun (target, index, keys, _) => ⟨target, index, keys⟩)
    (fun c => (c.target, c.index, c.keys, ()))

def Group.codec : Codec (Group Float) :=
  (Shape.field (.required "name" .text) <|
    .field (.defaulted "channels" (.list Curve.codec) []) .done).codec
    (fun (name, channels, _) => ⟨name, channels⟩)
    (fun g => (g.name, g.channels, ()))

def Action.codec : Codec (Action Float) :=
  (Shape.field (.required "name" .text) <|
    .field (.defaulted "id_root" IdRoot.codec .object) <|
    .field (.required "frame_range" (.pair .double)) <|
    .field (.defaulted "groups" (.list Group.codec) []) .done).codec
    (fun (name, idRoot, range, groups, _) => ⟨name, idRoot, range, groups⟩)
    (fun a => (a.name, a.idRoot, a.range, a.groups, ()))

/-- A library is written as the list of its actions. -/
def Library.codec : Codec (Library Float) :=
  (Codec.list Action.codec).imap Library.mk Library.actions

end SceneExport
