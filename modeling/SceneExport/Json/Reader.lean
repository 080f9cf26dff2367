import SceneExport.Decimal.Literal
import SceneExport.Json.Tree
import SceneExport.Text.Basic

/-!
# Reading JSON texts

The reader goes over the characters once, from left to right, and hands back the tree of what it
found together with the rest of the text. It never gives up: at a fault it closes every open
container where it stands, and there is no rest.
-/
namespace SceneExport.Json

def isSpace (c : Char) : Bool :=
  c = ' ' || c = '\n' || c = '\t' || c = '\r'

def skipSpace (cs : List Char) : List Char :=
  cs.dropWhile isSpace

def hexValue? (c : Char) : Option Nat :=
  let n := c.toNat
  if 48 ≤ n ∧ n ≤ 57 then some (n - 48)
  else if 97 ≤ n ∧ n ≤ 102 then some (n - 87)
  else if 65 ≤ n ∧ n ≤ 70 then some (n - 55)
  else none

def hexUnit? (a b c d : Char) : Option Nat := do
  return (((← hexValue? a) * 16 + (← hexValue? b)) * 16 + (← hexValue? c)) * 16 + (← hexValue? d)

/-- The character of an escape of one letter. -/
def simpleEscape? (c : Char) : Option Char :=
  if c = '"' || c = '\\' || c = '/' then some c
  else if c = 'b' then some '\x08'
  else if c = 'f' then some '\x0c'
  else if c = 'n' then some '\n'
  else if c = 'r' then some '\r'
  else if c = 't' then some '\t'
  else none

/-- A text in quotes: its content, unless half a surrogate pair stands in it, and the rest. -/
inductive Quoted where
  | done (content : Option String) (rest : List Char)
  | failed (stop : Stop)

/-- The characters of a quoted text read so far, last first. `high` is the first half of a surrogate
pair still waiting for its second half, and `spoilt` says that a half was left alone. -/
structure Content where
  chars : List Char
  high : Option Nat
  spoilt : Bool

def Content.empty : Content := ⟨[], none, false⟩

/-- Takes in a character; a half still waiting is left alone by it. -/
def Content.push (k : Content) (c : Char) : Content :=
  ⟨c :: k.chars, none, k.spoilt || k.high.isSome⟩

/-- Takes in an escaped unit of sixteen bits. -/
def Content.pushUnit (k : Content) (n : Nat) : Content :=
  if 0xd800 ≤ n ∧ n ≤ 0xdbff then ⟨k.chars, some n, k.spoilt || k.high.isSome⟩
  else if 0xdc00 ≤ n ∧ n ≤ 0xdfff then
    match k.high with
    | some h =>
      ⟨Char.ofNat (0x10000 + (h - 0xd800) * 0x400 + (n - 0xdc00)) :: k.chars, none, k.spoilt⟩
    | none => ⟨k.chars, none, true⟩
  else k.push (Char.ofNat n)

def Content.finish (k : Content) : Option String :=
  if k.spoilt || k.high.isSome then none else some (String.ofList k.chars.reverse)

/-- A fault inside a quoted text. A reader that stores the text has met a half left alone before. -/
def Content.fail (k : Content) (fault : Fault) : Quoted :=
  let stored := if k.spoilt then .malformed else fault
  .failed ⟨stored, fault, stored⟩

/-- Reads up to the closing quote. -/
def readQuoted (k : Content) : List Char → Quoted
  | [] => k.fail .truncated
  | '"' :: rest => .done k.finish rest
  | '\\' :: 'u' :: a :: b :: c :: d :: rest =>
    match hexUnit? a b c d with
    | some n => readQuoted (k.pushUnit n) rest
    | none => k.fail .malformed
  | '\\' :: 'u' :: rest =>
    k.fail (if (String.ofList rest).utf8ByteSize < 4 then .truncated else .malformed)
  | '\\' :: c :: rest =>
    match simpleEscape? c with
    | some e => readQuoted (k.push e) rest
    | none => k.fail .malformed
  | ['\\'] => k.fail .truncated
  | c :: rest => if c.toNat < 0x20 then k.fail .malformed else readQuoted (k.push c) rest

/-- Whether a text in quotes is written without escapes. -/
def isPlain (cs : List Char) : Bool :=
  !(cs.takeWhile (· ≠ '"')).contains '\\'

/-- A value and the rest of the text, or no rest when a fault was met. -/
abbrev Reading := Tree × Option (List Char)

def Reading.fault (stop : Stop) : Reading := (.broken stop, none)

/-- The fault of a value that is neither a text nor an object. -/
def Stop.unnamed (stored skipped : Fault) : Stop := ⟨stored, skipped, .malformed⟩

/-- The fault of a number that wants a digit where none stands. -/
def missingDigit (rest : List Char) : Stop :=
  .unnamed (if rest.isEmpty then .truncated else .malformed) .malformed

/-- A number without fraction and exponent: a whole number when it fits into 64 bits. -/
def wholeNumber? (negative : Bool) (digits : List Char) : Option Number :=
  let s := Decimal.Significand.ofDigits digits
  if s.dropped = 0 && !negative then some (.whole s.value)
  else if s.dropped = 0 && 0 < s.value && s.value ≤
      0x8000000000000000 then some (.whole (-(s.value : Int)))
  else (Decimal.float? negative digits [] none).map .double

/-- The exponent of a number, if one stands here: whether it is negative, and its digits. -/
def readExponent (cs : List Char) : Except Stop (Option (Bool × List Char) × List Char) :=
  match cs with
  | c :: rest =>
    if c = 'e' || c = 'E' then
      let (down, rest) :=
        match rest with
        | '-' :: rest => (true, rest)
        | '+' :: rest => (false, rest)
        | rest => (false, rest)
      let digits := rest.takeWhile Text.isDigit
      let after := rest.dropWhile Text.isDigit
      if digits.isEmpty then .error (missingDigit after) else .ok (some (down, digits), after)
    else .ok (none, cs)
  | [] => .ok (none, [])

/-- The digits behind the point, if a point stands here. -/
def readFraction (cs : List Char) : Except Stop (Option (List Char) × List Char) :=
  match cs with
  | '.' :: rest =>
    let digits := rest.takeWhile Text.isDigit
    let after := rest.dropWhile Text.isDigit
    if digits.isEmpty then .error (missingDigit after) else .ok (some digits, after)
  | _ => .ok (none, cs)

/-- Reads a number behind its sign. -/
def readNumber (negative : Bool) (cs : List Char) : Reading :=
  let digits := cs.takeWhile Text.isDigit
  let after := cs.dropWhile Text.isDigit
  match digits with
  | [] => .fault (missingDigit after)
  | '0' :: _ :: _ => .fault (.all .malformed)
  | _ =>
    match readFraction after with
    | .error stop => .fault stop
    | .ok (fraction, after) =>
      match readExponent after with
      | .error stop => .fault stop
      | .ok (exponent, after) =>
        let n :=
          match fraction, exponent with
          | none, none => wholeNumber? negative digits
          | _, _ => (Decimal.float? negative digits (fraction.getD []) exponent).map .double
        (.number n, some after)

/-- Reads the rest of a word whose first letter has been seen. -/
def readWord (value : Tree) : List Char → List Char → Reading
  | [], rest => (value, some rest)
  | _ :: _, [] => .fault (.unnamed .truncated .truncated)
  | w :: ws, c :: cs => if w = c then readWord value ws cs else .fault (.all .malformed)

/-- Reads a value that is not a container; `c` is its first character. -/
def readScalar (c : Char) (rest : List Char) : Reading :=
  if c = '"' then
    match readQuoted .empty rest with
    | .done s rest => (.text s, some rest)
    | .failed stop => .fault stop
  else if c = '-' then readNumber true rest
  else if Text.isDigit c then readNumber false (c :: rest)
  else if c = 'n' then readWord .null ['u', 'l', 'l'] rest
  else if c = 't' then readWord (.bool true) ['r', 'u', 'e'] rest
  else if c = 'f' then readWord (.bool false) ['a', 'l', 's', 'e'] rest
  else .fault (.all .malformed)

/-- A fault at the place of a key, behind the members `done`. An object that is to hold one name has
gone on too long where a second key may follow. -/
def Stop.atKey (done : List (MemberKey × Tree)) (stop : Stop) : Stop :=
  if done.isEmpty then stop else .unnamed stop.stored stop.skipped

mutual

/-- Reads one value, blanks before it included. The first argument bounds the steps; every step but
one in two takes in a character. -/
def readValue : Nat → List Char → Reading
  | 0, _ => .fault (.all .malformed)
  | fuel + 1, cs =>
    match skipSpace cs with
    | [] => .fault (.all .truncated)
    | '[' :: rest =>
      match skipSpace rest with
      | [] => (.list [] (some (.all .truncated)), none)
      | ']' :: rest => (.list [] none, some rest)
      | rest => readItems fuel [] rest
    | '{' :: rest =>
      match skipSpace rest with
      | [] => (.object [] (some (.all .truncated)), none)
      | '}' :: rest => (.object [] none, some rest)
      | rest => readMembers fuel [] rest
    | c :: rest => readScalar c rest

/-- Reads the items of a list from the start of an item on. `done` holds those before it, last
first. -/
def readItems : Nat → List Tree → List Char → Reading
  | 0, done, _ => (.list done.reverse (some (.all .malformed)), none)
  | fuel + 1, done, cs =>
    match readValue fuel cs with
    | (item, none) => (.list (item :: done).reverse none, none)
    | (item, some rest) =>
      match skipSpace rest with
      | [] => (.list (item :: done).reverse (some (.all .truncated)), none)
      | ']' :: rest => (.list (item :: done).reverse none, some rest)
      | ',' :: rest =>
        match skipSpace rest with
        | [] => (.list (.broken (.all .truncated) :: item :: done).reverse none, none)
        | ']' :: _ => (.list (.broken (.all .malformed) :: item :: done).reverse none, none)
        | rest => readItems fuel (item :: done) rest
      | _ => (.list (item :: done).reverse (some (.all .malformed)), none)

/-- Reads the members of an object from the start of a key on. `done` holds those before it, last
first. -/
def readMembers : Nat → List (MemberKey × Tree) → List Char → Reading
  | 0, done, _ => (.object done.reverse (some (.all .malformed)), none)
  | fuel + 1, done, cs =>
    match cs with
    | '"' :: rest =>
      match readQuoted .empty rest with
      | .failed stop => (.object done.reverse (some (.atKey done stop)), none)
      | .done content after =>
        let key : MemberKey := ⟨content, isPlain rest⟩
        match skipSpace after with
        | [] => (.object ((key, .broken (.all .truncated)) :: done).reverse none, none)
        | ':' :: rest =>
          match readValue fuel rest with
          | (value, none) => (.object ((key, value) :: done).reverse none, none)
          | (value, some rest) =>
            match skipSpace rest with
            | [] => (.object ((key, value) :: done).reverse (some (.all .truncated)), none)
            | ',' :: rest =>
              match skipSpace rest with
              | [] =>
                (.object ((key, value) :: done).reverse (some (.unnamed .truncated .truncated)),
                  none)
              | rest => readMembers fuel ((key, value) :: done) rest
            | '}' :: rest => (.object ((key, value) :: done).reverse none, some rest)
            | _ => (.object ((key, value) :: done).reverse (some (.all .malformed)), none)
        | _ => (.object ((key, .broken (.all .malformed)) :: done).reverse none, none)
    | _ => (.object done.reverse (some (.all .malformed)), none)

end

/-- What a whole text holds, and whether anything but blanks follows its value. -/
structure Document where
  tree : Tree
  trailing : Bool

def Document.ofText (s : String) : Document :=
  let cs := s.toList
  let (tree, rest) := readValue (2 * cs.length + 2) cs
  ⟨tree, (rest.map fun cs => !(skipSpace cs).isEmpty).getD false⟩

/-- The value a whole text holds, with containers at most 127 deep. -/
def ofText? (s : String) : Except Fault Json := do
  let doc := Document.ofText s
  let v ← doc.tree.store 127
  if doc.trailing then .error .malformed else .ok v

end SceneExport.Json
