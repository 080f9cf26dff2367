/-!
# Byte sequences

File contents, binary sections and digests are lists of bytes. A text and its bytes are related by
UTF-8; hexadecimal writes two small digits for each byte.
-/
namespace SceneExport

abbrev Bytes := List UInt8

namespace Bytes

/-- The UTF-8 encoding of a text. -/
def ofText (s : String) : Bytes :=
  s.toUTF8.data.toList

/-- The text these bytes encode, if they are well-formed UTF-8. -/
def toText? (bytes : Bytes) : Option String :=
  String.fromUTF8? ⟨bytes.toArray⟩

def hexDigit (n : Nat) : Char :=
  if n < 10 then Char.ofNat (48 + n) else Char.ofNat (87 + n)

/-- Two small hexadecimal digits for each byte. -/
def hex (bytes : Bytes) : String :=
  String.ofList (bytes.flatMap fun b => [hexDigit (b.toNat / 16), hexDigit (b.toNat % 16)])

/-- The four bytes of a word, least significant first. -/
def ofWord32 (w : UInt32) : Bytes :=
  [w.toUInt8, (w >>> 8).toUInt8, (w >>> 16).toUInt8, (w >>> 24).toUInt8]

/-- The two bytes of a word, least significant first. -/
def ofWord16 (w : UInt16) : Bytes :=
  [w.toUInt8, (w >>> 8).toUInt8]

/-- The word whose bytes these are, least significant first. -/
def toWord32 (a b c d : UInt8) : UInt32 :=
  a.toUInt32 ||| (b.toUInt32 <<< 8) ||| (c.toUInt32 <<< 16) ||| (d.toUInt32 <<< 24)

end Bytes

end SceneExport
