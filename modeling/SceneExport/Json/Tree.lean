import SceneExport.Json.Value

/-!
# What a JSON text holds

Reading a text gives a tree of what stands in it, up to the first place where it is not JSON. The
place is part of the tree, so whoever walks the tree in the order of the text meets a value of the
wrong kind and a fault of the text in the order they stand in.

A value can be *stored* or merely *skipped*. Some values can be skipped but not stored: a text with
half a surrogate pair and a number beyond every finite one. In the tree they have no content. Where
a text breaks off, readers that look for different things can also disagree about the kind of fault.
-/
namespace SceneExport.Json

/-- What is wrong with a text: it is no JSON, it ends too early, or a value is not what its reader
expects. -/
inductive Fault where
  | malformed
  | truncated
  | mismatch
  deriving DecidableEq, Repr

def Fault.message : Fault → String
  | .malformed => "not a JSON text"
  | .truncated => "unexpected end of text"
  | .mismatch => "not the expected value"

/-- The fault met at one place, which depends on the reader. -/
structure Stop where
  /-- Met by a reader that stores values. -/
  stored : Fault
  /-- Met by a reader that skips them. -/
  skipped : Fault
  /-- Met by a reader that wants a name, alone or as the only key of an object. It sees one
  character that cannot belong to a name and reads no further. -/
  named : Fault
  deriving DecidableEq, Repr

/-- A fault that every reader meets. -/
def Stop.all (fault : Fault) : Stop := ⟨fault, fault, fault⟩

/-- The key of a member as it is written. -/
structure MemberKey where
  /-- Missing when half a surrogate pair stands in the key. -/
  content : Option String
  /-- The key is written without escapes. -/
  plain : Bool
  deriving DecidableEq, Repr

inductive Tree where
  | null
  | bool (b : Bool)
  /-- Without content when the number is beyond every finite one. -/
  | number (n : Option Number)
  /-- Without content when half a surrogate pair stands in the text. -/
  | text (s : Option String)
  /-- `stop` is the fault found behind the last item, where the list neither goes on nor ends. -/
  | list (items : List Tree) (stop : Option Stop)
  | object (members : List (MemberKey × Tree)) (stop : Option Stop)
  /-- No value stands here. -/
  | broken (stop : Stop)

namespace Tree

mutual

/-- A well-formed value as a tree. -/
def ofJson : Json → Tree
  | .null => .null
  | .bool b => .bool b
  | .number n => .number (some n)
  | .text s => .text (some s)
  | .list items => .list (ofItems items) none
  | .object members => .object (ofMembers members) none

def ofItems : List Json → List Tree
  | [] => []
  | v :: vs => ofJson v :: ofItems vs

def ofMembers : List (String × Json) → List (MemberKey × Tree)
  | [] => []
  | (key, v) :: rest => (⟨some key, true⟩, ofJson v) :: ofMembers rest

end

/-- The fault of the place behind the last item, if there is one. -/
def checkStored : Option Stop → Except Fault Unit
  | none => .ok ()
  | some stop => .error stop.stored

def checkNamed : Option Stop → Except Fault Unit
  | none => .ok ()
  | some stop => .error stop.named

def checkSkipped : Option Stop → Except Fault Unit
  | none => .ok ()
  | some stop => .error stop.skipped

mutual

/-- Passes over a value without storing it. -/
def skip : Tree → Except Fault Unit
  | .list items stop => do skipItems items; checkSkipped stop
  | .object members stop => do skipMembers members; checkSkipped stop
  | .broken stop => .error stop.skipped
  | _ => .ok ()

def skipItems : List Tree → Except Fault Unit
  | [] => .ok ()
  | t :: ts => do skip t; skipItems ts

def skipMembers : List (MemberKey × Tree) → Except Fault Unit
  | [] => .ok ()
  | (_, t) :: rest => do skip t; skipMembers rest

end

mutual

/-- Stores a value as it is. Containers nest at most `levels` deep, and the members of an object
come out ordered by key, of two members with one key the later. -/
def store (levels : Nat) : Tree → Except Fault Json
  | .null => .ok .null
  | .bool b => .ok (.bool b)
  | .number (some n) => .ok (.number n)
  | .text (some s) => .ok (.text s)
  | .number none | .text none => .error .malformed
  | .broken stop => .error stop.stored
  | .list items stop =>
    match levels with
    | 0 => .error .malformed
    | levels + 1 => do
      let items ← storeItems levels items
      checkStored stop
      return .list items
  | .object members stop =>
    match levels with
    | 0 => .error .malformed
    | levels + 1 => do
      let members ← storeMembers levels [] members
      checkStored stop
      return .object members

def storeItems (levels : Nat) : List Tree → Except Fault (List Json)
  | [] => .ok []
  | t :: ts => do
    let v ← store levels t
    let vs ← storeItems levels ts
    return v :: vs

def storeMembers (levels : Nat) (done : List (String × Json)) :
    List (MemberKey × Tree) → Except Fault (List (String × Json))
  | [] => .ok done
  | (⟨none, _⟩, _) :: _ => .error .malformed
  | (⟨some key, _⟩, t) :: rest => do
    let v ← store levels t
    storeMembers levels (putSorted key v done) rest

end

/-- The fault of a value that is not of the kind its reader expects. A scalar is read before its
kind is judged, so one that cannot be stored is at fault itself. -/
def unexpected : Tree → Fault
  | .number none | .text none => .malformed
  | .broken stop => stop.stored
  | _ => .mismatch

end Tree

end SceneExport.Json
