import SceneExport.Bytes.Basic
import SceneExport.Json.Codec
import SceneExport.Version

/-!
# Binary sections

Numbers of a scene go into five sections, one for each width and kind of number, least significant
byte first. The binary file is a header of twelve bytes with the sections behind it. A range of a
section is counted in its numbers, not in bytes.
-/
namespace SceneExport

open Json (Codec Shape)

/-- A range of numbers in a section. -/
structure Range where
  offset : Nat
  length : Nat
  deriving DecidableEq, Repr

def Range.codec : Codec Range :=
  (Codec.pair .size).imap (fun p => ⟨p.1, p.2⟩) (fun r => (r.offset, r.length))

structure Sections where
  int : Bytes
  float : Bytes
  short : Bytes
  ushort : Bytes
  uchar : Bytes
  deriving DecidableEq, Repr

namespace Sections

def empty : Sections := ⟨[], [], [], [], []⟩

def floatBytes (x : Float32) : Bytes := Bytes.ofWord32 x.toBits

/-- The bytes of a signed number of 32 bits. -/
def intBytes (n : Int) : Bytes := Bytes.ofWord32 (UInt32.ofNat (n % 0x100000000).toNat)

/-- The bytes of a number of 16 bits, signed or not. -/
def shortBytes (n : Int) : Bytes := Bytes.ofWord16 (UInt16.ofNat (n % 0x10000).toNat)

def pushFloats (s : Sections) (values : List Float32) : Range × Sections :=
  (⟨s.float.length / 4, values.length⟩, { s with float := s.float ++ values.flatMap floatBytes })

def pushInts (s : Sections) (values : List Int) : Range × Sections :=
  (⟨s.int.length / 4, values.length⟩, { s with int := s.int ++ values.flatMap intBytes })

def pushShorts (s : Sections) (values : List Int) : Range × Sections :=
  (⟨s.short.length / 2, values.length⟩, { s with short := s.short ++ values.flatMap shortBytes })

def pushUshorts (s : Sections) (values : List Int) : Range × Sections :=
  (⟨s.ushort.length / 2, values.length⟩, { s with ushort := s.ushort ++ values.flatMap shortBytes })

def pushUchars (s : Sections) (values : List UInt8) : Range × Sections :=
  (⟨s.uchar.length, values.length⟩, { s with uchar := s.uchar ++ values })

/-- All sections, one behind another. -/
def data (s : Sections) : Bytes :=
  s.int ++ s.float ++ s.short ++ s.ushort ++ s.uchar

def size (s : Sections) : Nat :=
  s.int.length + s.float.length + s.short.length + s.ushort.length + s.uchar.length

def isEmpty (s : Sections) : Bool := s.size = 0

/-- Where each section starts behind the header, in bytes, and the file that holds them. -/
structure Table where
  file : Option String
  int : Nat
  float : Nat
  short : Nat
  ushort : Nat
  uchar : Nat
  deriving DecidableEq, Repr

def Table.codec : Codec Table :=
  (Shape.field (.nullable "binfile" .text) <|
    .field (.required "int" .size) <|
    .field (.required "float" .size) <|
    .field (.required "short" .size) <|
    .field (.required "ushort" .size) <|
    .field (.required "uchar" .size) .done).codec
    (fun (file, int, float, short, ushort, uchar, _) => { file, int, float, short, ushort, uchar })
    (fun t => (t.file, t.int, t.float, t.short, t.ushort, t.uchar, ()))

/-- The table of the sections. The file is named only if there is data for it. -/
def table (s : Sections) (file : Option String) : Table where
  file := if s.isEmpty then none else file
  int := 0
  float := s.int.length
  short := s.int.length + s.float.length
  ushort := s.int.length + s.float.length + s.short.length
  uchar := s.int.length + s.float.length + s.short.length + s.ushort.length

def headerSize : Nat := 12

/-- The mark of the format and the two numbers of its version. -/
def header (v : Version) : Bytes :=
  Bytes.ofText "B4WB" ++ intBytes v.major ++ intBytes v.minor

/-- The contents of the binary file. -/
def blob (s : Sections) (v : Version) : Bytes :=
  header v ++ s.data

/-- The numbers whose bytes these are. -/
def floatsOf : Bytes → List Float32
  | a :: b :: c :: d :: rest => Float32.ofBits (Bytes.toWord32 a b c d) :: floatsOf rest
  | _ => []

/-- Positions in a file are numbers of 64 bits; behind the last of them comes 0 again. -/
def position (n : Nat) : Nat := n % 0x10000000000000000

/-- Reads a range of the float section back from the contents of a binary file; none if it does not
lie inside the section and the file. -/
def readFloats? (blob : Bytes) (table : Table) (range : Range) : Option (List Float32) :=
  let start := position (headerSize + table.float + range.offset * 4)
  let stop := position (start + range.length * 4)
  if headerSize + table.short < stop || stop < start || blob.length < stop then none
  else some (floatsOf ((blob.drop start).take (stop - start)))

end Sections

end SceneExport
