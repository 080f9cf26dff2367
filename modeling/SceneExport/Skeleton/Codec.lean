import SceneExport.Json.Codec
import SceneExport.Skeleton

/-!
# Skeletons as JSON
-/
namespace SceneExport

open Json (Codec Shape)

/-- Sixteen numbers, column after column. -/
def Mat.codec : Codec (Mat4 Float) :=
  (Codec.block 16 .double).imap Mat.ofEntries Mat.toEntries

def Bone.codec : Codec (Bone Float) :=
  (Shape.field (.required "name" .text) <|
    .field (.required "rest_matrix" Mat.codec) <|
    .field (.nullable "parent" .size) <|
    .field (.defaulted "use_deform" .bool true) .done).codec
    (fun (name, rest, parent, deforms, _) => ⟨name, rest, parent, deforms⟩)
    (fun b => (b.name, b.rest, b.parent, b.deforms, ()))

/-- A skeleton with a flaw is not accepted. -/
def Skeleton.codec : Codec (Skeleton Float) :=
  ((Shape.field (.required "bones" (.list Bone.codec)) .done).codec
    (fun (bones, _) => bones) (fun bones => (bones, ()))).checked
    (fun bones => (Skeleton.ofBones bones).toOption) Skeleton.bones

end SceneExport
