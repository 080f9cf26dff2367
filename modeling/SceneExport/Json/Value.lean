import SceneExport.Decimal.Layout

/-!
# JSON values and their texts

A value keeps the order of its members. Numbers are whole numbers or floating-point numbers of
either width; the width decides the digits that are written. A text has a compact form without
blanks and a wide form with one item to a line, indented by two blanks a level.
-/
namespace SceneExport

inductive Number where
  | whole (n : Int)
  | double (x : Float)
  | single (x : Float32)

inductive Json where
  | null
  | bool (b : Bool)
  | number (n : Number)
  | text (s : String)
  | list (items : List Json)
  | object (members : List (String × Json))

/-- Numbers that are not finite have no written form and become `null`. -/
def Number.toText : Number → String
  | .whole n => toString n
  | .double x => if x.isFinite then (Decimal.Parts.ofFloat x).text .double else "null"
  | .single x => if x.isFinite then (Decimal.Parts.ofFloat32 x).text .single else "null"

namespace Json

/-- The escape of one character inside quotes. -/
def escapeChar (c : Char) : List Char :=
  if c = '"' then ['\\', '"']
  else if c = '\\' then ['\\', '\\']
  else if c = '\n' then ['\\', 'n']
  else if c = '\r' then ['\\', 'r']
  else if c = '\t' then ['\\', 't']
  else if c = '\x08' then ['\\', 'b']
  else if c = '\x0c' then ['\\', 'f']
  else if c.toNat < 0x20 then
    ['\\', 'u', '0', '0', Char.ofNat (48 + c.toNat / 16),
      if c.toNat % 16 < 10 then Char.ofNat (48 + c.toNat % 16) else Char.ofNat (87 + c.toNat % 16)]
  else [c]

def pushAll (out : String) (cs : List Char) : String :=
  cs.foldl String.push out

/-- Writes a text in quotes behind `out`. -/
def writeText (out s : String) : String :=
  (s.toList.foldl (fun out c => pushAll out (escapeChar c)) (out.push '"')).push '"'

/-- How values are set out. -/
inductive Style where
  | compact
  | wide
  deriving DecidableEq

/-- The start of a line at the given depth; nothing in compact form. -/
def Style.newLine (style : Style) (depth : Nat) (out : String) : String :=
  match style with
  | .compact => out
  | .wide => pushAll (out.push '\n') (List.replicate (2 * depth) ' ')

def Style.colon : Style → String
  | .compact => ":"
  | .wide => ": "

/-- What separates an item from the one before it. -/
def Style.separate (style : Style) (depth : Nat) (first : Bool) (out : String) : String :=
  style.newLine depth (if first then out else out.push ',')

mutual

/-- Writes a value behind `out`; `depth` counts the containers around it. -/
def write (style : Style) (depth : Nat) (out : String) : Json → String
  | .null => out ++ "null"
  | .bool b => out ++ if b then "true" else "false"
  | .number n => out ++ n.toText
  | .text s => writeText out s
  | .list [] => out ++ "[]"
  | .list (item :: items) =>
    (style.newLine depth
      (writeItems style (depth + 1) (out.push '[') true (item :: items))).push ']'
  | .object [] => (out.push '{').push '}'
  | .object (m :: ms) =>
    (style.newLine depth
      (writeMembers style (depth + 1) (out.push '{') true (m :: ms))).push '}'

def writeItems (style : Style) (depth : Nat) (out : String) (first : Bool) : List Json → String
  | [] => out
  | item :: items =>
    writeItems style depth (write style depth (style.separate depth first out) item) false items

def writeMembers (style : Style) (depth : Nat) (out : String) (first : Bool) :
    List (String × Json) → String
  | [] => out
  | (key, value) :: members =>
    writeMembers style depth
      (write style depth (writeText (style.separate depth first out) key ++ style.colon) value)
      false members

end

/-- The text of a value. -/
def render (style : Style) (v : Json) : String :=
  v.write style 0 ""

def compact (v : Json) : String :=
  v.render .compact

/-- The value of a member of an object. -/
def get? (v : Json) (key : String) : Option Json :=
  match v with
  | .object members => members.lookup key
  | _ => none

/-- Puts a member into a list of members ordered by key, replacing a member of the same key. -/
def putSorted (key : String) (value : Json) : List (String × Json) → List (String × Json)
  | [] => [(key, value)]
  | (k, v) :: rest =>
    if k = key then (key, value) :: rest
    else if key < k then (key, value) :: (k, v) :: rest
    else (k, v) :: putSorted key value rest

end Json

end SceneExport
