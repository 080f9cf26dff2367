import SceneExport.Bytes.Basic

/-!
# Base64 with padding

Three bytes become four characters of six bits each. A last group of one or two bytes is filled up
with zero bits and marked with `=`. Reading is strict: whole groups only, padding only at the end,
and no set bits among the ones that were filled up, so every byte sequence has one written form.
-/
namespace SceneExport.Base64

/-- The character of a six-bit value. -/
def digit (n : Nat) : Char :=
  if n < 26 then Char.ofNat (65 + n)
  else if n < 52 then Char.ofNat (71 + n)
  else if n < 62 then Char.ofNat (n - 4)
  else if n = 62 then '+' else '/'

/-- The six-bit value of a character. -/
def value? (c : Char) : Option Nat :=
  let n := c.toNat
  if 65 ≤ n ∧ n ≤ 90 then some (n - 65)
  else if 97 ≤ n ∧ n ≤ 122 then some (n - 71)
  else if 48 ≤ n ∧ n ≤ 57 then some (n + 4)
  else if c = '+' then some 62
  else if c = '/' then some 63
  else none

/-- Writes the remaining bytes behind the characters already written, which come last first. -/
def encodeFrom (done : List Char) : Bytes → List Char
  | [] => done.reverse
  | [a] =>
    let n := a.toNat * 16
    ('=' :: '=' :: digit (n % 64) :: digit (n / 64) :: done).reverse
  | [a, b] =>
    let n := (a.toNat * 256 + b.toNat) * 4
    ('=' :: digit (n % 64) :: digit (n / 64 % 64) :: digit (n / 4096) :: done).reverse
  | a :: b :: c :: rest =>
    let n := (a.toNat * 256 + b.toNat) * 256 + c.toNat
    encodeFrom
      (digit (n % 64) :: digit (n / 64 % 64) :: digit (n / 4096 % 64) :: digit (n / 262144) :: done)
      rest

def encode (bytes : Bytes) : String :=
  String.ofList (encodeFrom [] bytes)

/-- Reads the remaining characters behind the bytes already read, which come last first. -/
def decodeFrom (done : Bytes) : List Char → Option Bytes
  | [] => some done.reverse
  | [a, b, '=', '='] => do
    let n := (← value? a) * 64 + (← value? b)
    if n % 16 = 0 then some (UInt8.ofNat (n / 16) :: done).reverse else none
  | [a, b, c, '='] => do
    let n := ((← value? a) * 64 + (← value? b)) * 64 + (← value? c)
    if n % 4 = 0 then
      some (UInt8.ofNat (n / 4 % 256) :: UInt8.ofNat (n / 1024) :: done).reverse
    else none
  | a :: b :: c :: d :: rest =>
    match value? a, value? b, value? c, value? d with
    | some x, some y, some z, some w =>
      let n := ((x * 64 + y) * 64 + z) * 64 + w
      decodeFrom
        (UInt8.ofNat (n % 256) :: UInt8.ofNat (n / 256 % 256) :: UInt8.ofNat (n / 65536) :: done)
        rest
    | _, _, _, _ => none
  | _ => none

/-- The bytes a text stands for; `none` when it is not the written form of any. -/
def decode? (s : String) : Option Bytes :=
  decodeFrom [] s.toList

end SceneExport.Base64
