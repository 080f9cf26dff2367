import SceneExport.Json.Codec

/-!
# Messages of an export

Problems that do not stop an export are collected as warnings and errors, in the order they come up,
and become part of the manifest.
-/
namespace SceneExport

open Json (Codec Shape)

/-- Which viewers show a message. -/
inductive Audience where
  | primary
  | secondary
  | all
  deriving DecidableEq, Repr

structure Message where
  text : String
  audience : Audience
  deriving DecidableEq, Repr

structure Messages where
  warnings : List Message
  errors : List Message
  deriving DecidableEq, Repr

namespace Messages

def empty : Messages := ⟨[], []⟩

def isEmpty (m : Messages) : Bool :=
  m.warnings.isEmpty && m.errors.isEmpty

def warn (m : Messages) (text : String) : Messages :=
  { m with warnings := m.warnings ++ [⟨text, .all⟩] }

def err (m : Messages) (text : String) : Messages :=
  { m with errors := m.errors ++ [⟨text, .all⟩] }

end Messages

def Audience.codec : Codec Audience :=
  .oneOf [("PRIMARY", .primary), ("SECONDARY", .secondary), ("ALL", .all)]

def Message.codec : Codec Message :=
  (Shape.field (.required "text" .text) <|
    .field (.defaulted "type" Audience.codec .all) .done).codec
    (fun (text, audience, _) => ⟨text, audience⟩)
    (fun m => (m.text, m.audience, ()))

end SceneExport
