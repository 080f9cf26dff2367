/-!
# Texts as lists of characters

Everything that takes a text apart works on its list of characters. This module holds the searches
that the readers and writers of the other modules share: the first place where a pattern stands, the
pieces between separators, and replacement of a pattern from left to right.
-/
namespace SceneExport.Text

/-- The white space of every script. -/
def isBlank (c : Char) : Bool :=
  let n := c.toNat
  (0x9 ≤ n && n ≤ 0xd) || n == 0x20 || n == 0x85 || n == 0xa0 || n == 0x1680 ||
    (0x2000 ≤ n && n ≤ 0x200a) || n == 0x2028 || n == 0x2029 || n == 0x202f || n == 0x205f ||
    n == 0x3000

def isAsciiLetter (c : Char) : Bool :=
  ('a' ≤ c && c ≤ 'z') || ('A' ≤ c && c ≤ 'Z')

def isDigit (c : Char) : Bool :=
  '0' ≤ c && c ≤ '9'

/-- Whether the code point of a character lies in one of the spans, which include both their
ends. -/
def isInSpans (spans : List (Nat × Nat)) (c : Char) : Bool :=
  spans.any fun (first, last) => first ≤ c.toNat && c.toNat ≤ last

/-- Small letters for the capitals `A` to `Z`; every other character stays. -/
def asciiLower (c : Char) : Char :=
  if 'A' ≤ c && c ≤ 'Z' then Char.ofNat (c.toNat + 32) else c

/-- What follows `pattern` when the text starts with it. -/
def dropPattern? : List Char → List Char → Option (List Char)
  | [], cs => some cs
  | _ :: _, [] => none
  | p :: ps, c :: cs => if p = c then dropPattern? ps cs else none

/-- The texts before and after the first place where `pattern` stands. -/
def cutAt? (pattern : List Char) : List Char → Option (List Char × List Char)
  | [] => if pattern.isEmpty then some ([], []) else none
  | c :: cs =>
    match dropPattern? pattern (c :: cs) with
    | some rest => some ([], rest)
    | none => (cutAt? pattern cs).map fun (before, after) => (c :: before, after)

/-- Whether `pattern` stands anywhere in the text. -/
def contains (text pattern : String) : Bool :=
  (cutAt? pattern.toList text.toList).isSome

/-- Every non-overlapping occurrence of the non-empty `pattern` replaced, from left to right. The
first argument counts the characters of an occurrence that are still to be passed over. -/
def replaceFrom (pattern value : List Char) : Nat → List Char → List Char
  | _, [] => []
  | skip + 1, _ :: cs => replaceFrom pattern value skip cs
  | 0, c :: cs =>
    match dropPattern? pattern (c :: cs) with
    | some _ => value ++ replaceFrom pattern value (pattern.length - 1) cs
    | none => c :: replaceFrom pattern value 0 cs

def replace (pattern value : String) (cs : List Char) : List Char :=
  replaceFrom pattern.toList value.toList 0 cs

/-- The pieces between the characters that `cut` accepts; there is always at least one. -/
def pieces (cut : Char → Bool) : List Char → List (List Char)
  | [] => [[]]
  | c :: cs =>
    match pieces cut cs with
    | [] => [[c]]
    | piece :: rest => if cut c then [] :: piece :: rest else (c :: piece) :: rest

/-- The last index whose character satisfies `p`. -/
def lastIndex? (p : Char → Bool) : List Char → Option Nat
  | [] => none
  | c :: cs =>
    match lastIndex? p cs with
    | some i => some (i + 1)
    | none => if p c then some 0 else none

/-- The value of a run of decimal digits. -/
def digitsValue (cs : List Char) : Nat :=
  cs.foldl (fun n c => n * 10 + (c.toNat - 48)) 0

/-- A whole number in decimal with an optional sign, within the given bounds. -/
def integer? (lo hi : Int) (cs : List Char) : Option Int :=
  let (negative, digits) :=
    match cs with
    | '-' :: rest => (true, rest)
    | '+' :: rest => (false, rest)
    | _ => (false, cs)
  if digits.isEmpty || !digits.all isDigit then none
  else
    let n : Int := digitsValue digits
    let value := if negative then -n else n
    if lo ≤ value && value ≤ hi then some value else none

end SceneExport.Text
