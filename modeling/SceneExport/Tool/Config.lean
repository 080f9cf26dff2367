import SceneExport.Bake.Codec
import SceneExport.Config

/-!
# Options of the tool

One file holds the options of bakes and of exports.
-/
namespace SceneExport.Tool

open Json (Codec Shape)

structure Config where
  bake : Bake.Config Float
  output : SceneExport.Config

namespace Config

def usual : Config := ⟨.usual, .usual⟩

def codec : Codec Config :=
  (Shape.field (.defaulted "bake" Bake.Config.codec .usual) <|
    .field (.defaulted "export" SceneExport.Config.codec .usual) .done).codec
    (fun (bake, output, _) => { bake, output })
    (fun c => (c.bake, c.output, ()))

end Config

end SceneExport.Tool
