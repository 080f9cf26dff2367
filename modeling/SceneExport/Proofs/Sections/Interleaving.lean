import Mathlib
import SceneExport.Proofs.Sections.Stored

/-!
# Sections filled in any order

A call puts numbers at the end of one of the five sections and hands out a range that is counted in
numbers of that section. Where the section starts in the binary file depends on all calls, also on
later ones. Two facts carry the numbers of a call from the section to the file: a section holds
whole numbers only, so the range says where in the section they are, and calls do nothing but put
bytes at the end of a section. So the calls can come in any order, and each range still leads to the
bytes of its own numbers.
-/
namespace SceneExport

namespace Bytes

/-- The last bytes of a number, the least significant one first. -/
def littleEndian : (count n : Nat) → Bytes
  | 0, _ => []
  | count + 1, n => UInt8.ofNat n :: littleEndian count (n / 256)

@[simp] lemma length_littleEndian (count n : Nat) : (littleEndian count n).length = count := by
  induction count generalizing n with
  | zero => rfl
  | succ count ih => rw [littleEndian, List.length_cons, ih]

lemma ofWord32_eq (w : UInt32) : ofWord32 w = littleEndian 4 w.toNat := by
  have hshift : ∀ k < 4, (w >>> UInt32.ofNat (8 * k)).toUInt8 =
      UInt8.ofNat (w.toNat / 256 ^ k) := by
    intro k hk
    have hamount : (UInt32.ofNat (8 * k)).toNat % 32 = 8 * k := by
      rw [UInt32.toNat_ofNat']
      omega
    rw [← UInt8.toNat_inj, UInt32.toNat_toUInt8, UInt32.toNat_shiftRight, hamount,
      Nat.shiftRight_eq_div_pow, pow_mul, UInt8.toNat_ofNat']
    norm_num
  have hzero : w.toUInt8 = UInt8.ofNat w.toNat := by simp
  simp only [littleEndian, Nat.div_div_eq_div_mul]
  rw [ofWord32, hzero]
  exact congrArg₂ _ rfl (congrArg₂ _ (hshift 1 (by decide))
    (congrArg₂ _ (hshift 2 (by decide)) (congrArg₂ _ (hshift 3 (by decide)) rfl)))

lemma ofWord16_eq (w : UInt16) : ofWord16 w = littleEndian 2 w.toNat := by
  have hlow : w.toUInt8 = UInt8.ofNat w.toNat := by simp
  have hhigh : (w >>> 8).toUInt8 = UInt8.ofNat (w.toNat / 256) := by
    rw [← UInt8.toNat_inj, UInt16.toNat_toUInt8, UInt16.toNat_shiftRight, Nat.shiftRight_eq_div_pow,
      UInt8.toNat_ofNat']
    rfl
  rw [ofWord16, hlow, hhigh]
  rfl

end Bytes

namespace Sections

open Bytes (littleEndian)

inductive Kind where
  | int
  | float
  | short
  | ushort
  | uchar
  deriving DecidableEq, Repr

/-- The bytes of a number of the section. -/
def Kind.width : Kind → Nat
  | .int | .float => 4
  | .short | .ushort => 2
  | .uchar => 1

def part (s : Sections) : Kind → Bytes
  | .int => s.int
  | .float => s.float
  | .short => s.short
  | .ushort => s.ushort
  | .uchar => s.uchar

/-- Where a section starts behind the header. -/
def Table.start (t : Table) : Kind → Nat
  | .int => t.int
  | .float => t.float
  | .short => t.short
  | .ushort => t.ushort
  | .uchar => t.uchar

/-- A call that puts numbers into a section. -/
inductive Call where
  | ints (values : List Int)
  | floats (values : List Float32)
  | shorts (values : List Int)
  | ushorts (values : List Int)
  | uchars (values : List UInt8)

namespace Call

def kind : Call → Kind
  | ints _ => .int
  | floats _ => .float
  | shorts _ => .short
  | ushorts _ => .ushort
  | uchars _ => .uchar

/-- The patterns of the numbers: negative ones as their two's complement, floats by their bits. -/
def words : Call → List Nat
  | ints values => values.map fun n => (n % 2 ^ 32).toNat
  | floats values => values.map fun x => x.toBits.toNat
  | shorts values | ushorts values => values.map fun n => (n % 2 ^ 16).toNat
  | uchars values => values.map UInt8.toNat

/-- The bytes of the numbers, each with its least significant byte first. -/
def bytes (c : Call) : Bytes :=
  c.words.flatMap (littleEndian c.kind.width)

/-- Makes the call. -/
def run (s : Sections) : Call → Range × Sections
  | ints values => s.pushInts values
  | floats values => s.pushFloats values
  | shorts values => s.pushShorts values
  | ushorts values => s.pushUshorts values
  | uchars values => s.pushUchars values

end Call

/-- Makes calls one after another and hands back their ranges. -/
def runAll (s : Sections) : List Call → List Range × Sections
  | [] => ([], s)
  | c :: calls => ((c.run s).1 :: (runAll (c.run s).2 calls).1, (runAll (c.run s).2 calls).2)

/-- The patterns of all numbers that calls put into a section. -/
def wordsIn (k : Kind) (calls : List Call) : List Nat :=
  calls.flatMap fun c => if c.kind = k then c.words else []

lemma length_flatMap_littleEndian (width : Nat) (words : List Nat) :
    (words.flatMap (littleEndian width)).length = width * words.length := by
  induction words with
  | nil => rfl
  | cons n words ih =>
    rw [List.flatMap_cons, List.length_append, Bytes.length_littleEndian, ih, List.length_cons,
      Nat.mul_succ, Nat.add_comm]

lemma intBytes_eq : intBytes = fun n => littleEndian 4 (n % 2 ^ 32).toNat := by
  funext n
  have hword : (UInt32.ofNat (n % 0x100000000).toNat).toNat = (n % 2 ^ 32).toNat := by
    rw [UInt32.toNat_ofNat']
    omega
  rw [intBytes, Bytes.ofWord32_eq, hword]

lemma shortBytes_eq : shortBytes = fun n => littleEndian 2 (n % 2 ^ 16).toNat := by
  funext n
  have hword : (UInt16.ofNat (n % 0x10000).toNat).toNat = (n % 2 ^ 16).toNat := by
    rw [UInt16.toNat_ofNat']
    omega
  rw [shortBytes, Bytes.ofWord16_eq, hword]

lemma floatBytes_eq : floatBytes = fun x => littleEndian 4 x.toBits.toNat :=
  funext fun _ => Bytes.ofWord32_eq _

namespace Call

lemma bytes_ints (values : List Int) : (ints values).bytes = values.flatMap intBytes := by
  rw [intBytes_eq]
  exact List.flatMap_map ..

lemma bytes_floats (values : List Float32) : (floats values).bytes = values.flatMap floatBytes := by
  rw [floatBytes_eq]
  exact List.flatMap_map ..

lemma bytes_shorts (values : List Int) : (shorts values).bytes = values.flatMap shortBytes := by
  rw [shortBytes_eq]
  exact List.flatMap_map ..

lemma bytes_ushorts (values : List Int) : (ushorts values).bytes = values.flatMap shortBytes :=
  bytes_shorts values

lemma bytes_uchars (values : List UInt8) : (uchars values).bytes = values := by
  have hbyte : (fun b : UInt8 => littleEndian 1 b.toNat) = fun b => [b] := by
    funext b
    rw [littleEndian, UInt8.ofNat_toNat, littleEndian]
  calc (uchars values).bytes = values.flatMap fun b => littleEndian 1 b.toNat := List.flatMap_map ..
    _ = values := by rw [hbyte, List.flatMap_singleton']

/-- What a call does: its range is counted in numbers of its section, and their bytes go to the end
of this section, while the others stay. -/
lemma run_spec (c : Call) (s : Sections) :
    (c.run s).1 = ⟨(s.part c.kind).length / c.kind.width, c.words.length⟩ ∧
      ∀ k, (c.run s).2.part k = s.part k ++ if c.kind = k then c.bytes else [] := by
  constructor
  · cases c <;>
      simp [run, kind, part, words, Kind.width, pushInts, pushFloats, pushShorts,
        pushUshorts, pushUchars]
  · intro k
    cases c <;> cases k <;>
      simp [run, kind, part, bytes_ints, bytes_floats, bytes_shorts, bytes_ushorts, bytes_uchars,
        pushInts, pushFloats, pushShorts, pushUshorts, pushUchars]

end Call

/-- All sections hold whole numbers. -/
def WholeParts (s : Sections) : Prop :=
  ∀ k : Kind, k.width ∣ (s.part k).length

/-- The bytes of the numbers of a call stand in its section where its range says. -/
structure Located (s : Sections) (c : Call) (r : Range) : Prop where
  bytes :
    ∃ front back, s.part c.kind = front ++ c.bytes ++ back ∧ front.length = c.kind.width * r.offset
  length : r.length = c.words.length

section Run

variable {s : Sections} {c : Call} {r : Range} {calls : List Call}

lemma wholeParts_empty : empty.WholeParts := by
  intro k
  cases k <;> exact dvd_zero _

lemma WholeParts.run (h : s.WholeParts) (c : Call) : (c.run s).2.WholeParts := by
  intro k
  rw [(c.run_spec s).2 k, List.length_append]
  refine (h k).add ?_
  split
  · next hkind =>
    rw [Call.bytes, length_flatMap_littleEndian, hkind]
    exact Nat.dvd_mul_right _ _
  · exact dvd_zero _

/-- A call puts its numbers where its range says. -/
lemma located_run (h : s.WholeParts) (c : Call) : Located (c.run s).2 c (c.run s).1 := by
  obtain ⟨hrange, hpart⟩ := c.run_spec s
  rw [hrange]
  refine ⟨⟨s.part c.kind, [], ?_, ?_⟩, rfl⟩
  · rw [hpart, if_pos rfl, List.append_nil]
  · exact (Nat.mul_div_cancel' (h c.kind)).symm

/-- A further call leaves numbers where they are. -/
lemma Located.run (h : Located s c r) (c' : Call) : Located (c'.run s).2 c r := by
  obtain ⟨⟨front, back, hpart, hfront⟩, hlength⟩ := h
  refine ⟨⟨front, back ++ if c'.kind = c.kind then c'.bytes else [], ?_, hfront⟩, hlength⟩
  rw [(c'.run_spec s).2, hpart, List.append_assoc, List.append_assoc]

lemma Located.runAll (h : Located s c r) (calls : List Call) : Located (s.runAll calls).2 c r := by
  induction calls generalizing s with
  | nil => exact h
  | cons c' calls ih => exact ih (h.run c')

/-- After any calls, the range of each leads to its numbers. -/
theorem located_runAll (h : s.WholeParts) (calls : List Call) :
    List.Forall₂ (Located (s.runAll calls).2) calls (s.runAll calls).1 := by
  induction calls generalizing s with
  | nil => exact .nil
  | cons c calls ih => exact .cons ((located_run h c).runAll calls) (ih (h.run c))

/-- The sections hold what the calls put into them, in the order of the calls. -/
theorem part_runAll (s : Sections) (calls : List Call) (k : Kind) :
    (s.runAll calls).2.part k = s.part k ++ (wordsIn k calls).flatMap (littleEndian k.width) := by
  induction calls generalizing s with
  | nil => exact (List.append_nil _).symm
  | cons c calls ih =>
    have hbytes : (if c.kind = k then c.bytes else []) =
        (if c.kind = k then c.words else []).flatMap (littleEndian k.width) := by
      split
      · next hkind => rw [Call.bytes, hkind]
      · rfl
    rw [runAll, ih, (c.run_spec s).2 k, hbytes, wordsIn, wordsIn, List.flatMap_cons,
      List.flatMap_append, List.append_assoc]

lemma length_part_runAll (calls : List Call) (k : Kind) :
    ((empty.runAll calls).2.part k).length = k.width * (wordsIn k calls).length := by
  have hempty : empty.part k = [] := by cases k <;> rfl
  rw [part_runAll, hempty, List.nil_append, length_flatMap_littleEndian]

end Run

section File

variable {s : Sections} {c : Call} {r : Range} (v : Version) (file : Option String)

lemma length_blob (s : Sections) : (s.blob v).length = headerSize + s.size := by
  simp only [blob, data, size, List.length_append, length_header]

/-- A section stands in the file where the table says. -/
lemma exists_blob_eq (s : Sections) (k : Kind) :
    ∃ front back, s.blob v = front ++ (s.part k ++ back) ∧
    front.length = headerSize + (s.table file).start k := by
  cases k with
  | int => exact ⟨header v, s.float ++ s.short ++ s.ushort ++ s.uchar, by simp [blob, data, part],
      by simp [length_header, table, Table.start]⟩
  | float => exact ⟨header v ++ s.int, s.short ++ s.ushort ++ s.uchar, by simp [blob, data, part],
      by simp [length_header, table, Table.start]⟩
  | short => exact ⟨header v ++ s.int ++ s.float, s.ushort ++ s.uchar, by simp [blob, data, part],
      by simp [length_header, table, Table.start, Nat.add_assoc]⟩
  | ushort => exact ⟨header v ++ s.int ++ s.float ++ s.short, s.uchar, by simp [blob, data, part],
      by simp [length_header, table, Table.start, Nat.add_assoc]⟩
  | uchar =>
    exact ⟨header v ++ s.int ++ s.float ++ s.short ++ s.ushort, [], by simp [blob, data, part],
      by simp [length_header, table, Table.start, Nat.add_assoc]⟩

/-- The bytes of located numbers in the file. -/
lemma Located.take_drop (h : Located s c r) :
    ((s.blob v).drop (headerSize + (s.table file).start c.kind + c.kind.width * r.offset)).take
      (c.kind.width * r.length) = c.bytes := by
  obtain ⟨⟨front, back, hpart, hfront⟩, hlength⟩ := h
  obtain ⟨before, behind, hblob, hbefore⟩ := exists_blob_eq v file s c.kind
  have hbytes : c.bytes.length = c.kind.width * r.length := by
    rw [Call.bytes, length_flatMap_littleEndian, hlength]
  have hsplit : s.blob v = (before ++ front) ++ (c.bytes ++ (back ++ behind)) := by
    rw [hblob, hpart]
    simp only [List.append_assoc]
  rw [hsplit, ← hbefore, ← hfront, ← hbytes, ← List.length_append, List.drop_left, List.take_left]

lemma Located.stored {values : List Float32} (h : Located s (.floats values) r) :
    Stored floatBytes s.float r values := by
  obtain ⟨⟨front, back, hpart, hfront⟩, hlength⟩ := h
  rw [Call.bytes_floats] at hpart
  exact ⟨front, back, hpart, hfront, by rw [hlength, Call.words, List.length_map]⟩

/-- Floats are read back exactly from ranges that lie inside their section. -/
lemma isSome_readFloats?_iff (hs : s.size < 2 ^ 60) (hoffset : r.offset < 2 ^ 60)
    (hlength : r.length < 2 ^ 60) :
    (readFloats? (s.blob v) (s.table file) r).isSome = true ↔
      4 * (r.offset + r.length) ≤ s.float.length := by
  have hsize : s.size = s.int.length + s.float.length + s.short.length + s.ushort.length +
      s.uchar.length := rfl
  have hheader : headerSize = 12 := rfl
  have hblob := length_blob v s
  have hstart : position (headerSize + s.int.length + r.offset * 4) =
      headerSize + s.int.length + r.offset * 4 := Nat.mod_eq_of_lt (by omega)
  have hstop : position (headerSize + s.int.length + r.offset * 4 + r.length * 4) =
      headerSize + s.int.length + r.offset * 4 + r.length * 4 := Nat.mod_eq_of_lt (by omega)
  unfold readFloats?
  simp only [table, hstart, hstop]
  split
  · next hout =>
    simp only [Bool.or_eq_true, decide_eq_true_eq] at hout
    simp only [Option.isSome_none, Bool.false_eq_true, false_iff]
    omega
  · next hin =>
    simp only [Bool.or_eq_true, decide_eq_true_eq] at hin
    simp only [Option.isSome_some, true_iff]
    omega

end File

/-- In the binary file the range of a call leads to the bytes of its numbers, and floats are read
back from it. -/
structure Held (s : Sections) (v : Version) (file : Option String) (c : Call)
    (r : Range) : Prop where
  length : r.length = c.words.length
  bytes :
    ((s.blob v).drop (headerSize + (s.table file).start c.kind + c.kind.width * r.offset)).take
    (c.kind.width * r.length) = c.bytes
  floats : ∀ values, c = .floats values → s.size < 2 ^ 60 →
    readFloats? (s.blob v) (s.table file) r = some values

/-- Located numbers are held by the file. -/
lemma Located.held {s : Sections} {c : Call} {r : Range} (h : Located s c r) (v : Version)
    (file : Option String) : s.Held v file c r := by
  refine ⟨h.length, h.take_drop v file, ?_⟩
  rintro values rfl hs
  refine readFloats?_blob v file h.stored ?_
  rw [length_blob, headerSize]
  omega

/-- After any calls in any order, each range leads in the binary file to the numbers of its call.
Floats are read from the ranges inside their section and from no others, and the last section ends
with the file. -/
theorem runAll_held (calls : List Call) (v : Version) (file : Option String) :
    List.Forall₂ ((empty.runAll calls).2.Held v file) calls (empty.runAll calls).1 ∧
      ((empty.runAll calls).2.size < 2 ^ 60 → ∀ r : Range, r.offset < 2 ^ 60 → r.length < 2 ^ 60 →
        ((readFloats? ((empty.runAll calls).2.blob v) ((empty.runAll calls).2.table file)
          r).isSome = true ↔ r.offset + r.length ≤ (wordsIn .float calls).length)) ∧
      headerSize + (((empty.runAll calls).2.table file).uchar + (wordsIn .uchar calls).length) =
        ((empty.runAll calls).2.blob v).length := by
  have hlength := length_part_runAll calls
  refine ⟨(located_runAll wholeParts_empty calls).imp fun _ _ h => h.held v file, ?_, ?_⟩
  · intro hs r hoffset hr
    have hfloat : (empty.runAll calls).2.float.length = 4 * (wordsIn .float calls).length :=
      hlength .float
    rw [isSome_readFloats?_iff v file hs hoffset hr, hfloat]
    omega
  · have huchar : (empty.runAll calls).2.uchar.length = 1 * (wordsIn .uchar calls).length :=
      hlength .uchar
    have hend : (empty.runAll calls).2.size =
        ((empty.runAll calls).2.table file).uchar + (empty.runAll calls).2.uchar.length := rfl
    rw [length_blob, hend, huchar, Nat.one_mul]

/-- Shorts before ints and floats on both sides of them: the range of the second floats is found
behind ints that came later. -/
theorem mixture_held :
    let calls : List Call :=
  [.shorts [-2], .floats [1.5], .floats [2.5, -0.5], .ints [-1, 7], .uchars [9]]
    (empty.runAll calls).1 = [⟨0, 1⟩, ⟨0, 1⟩, ⟨1, 2⟩, ⟨0, 2⟩, ⟨0, 1⟩] ∧
      readFloats? ((empty.runAll calls).2.blob ⟨6, 3⟩) ((empty.runAll calls).2.table none) ⟨1, 2⟩ =
        some [2.5, -0.5] ∧
      (readFloats? ((empty.runAll calls).2.blob ⟨6, 3⟩) ((empty.runAll calls).2.table none)
        ⟨2, 2⟩).isSome = false ∧
      (((empty.runAll calls).2.blob ⟨6, 3⟩).drop 12).take 8 =
        [0xff, 0xff, 0xff, 0xff, 7, 0, 0, 0] := by
  intro calls
  have hsize : (empty.runAll calls).2.size < 2 ^ 60 := by decide +kernel
  obtain ⟨hheld, hinside, -⟩ := runAll_held calls ⟨6, 3⟩ none
  have hranges : (empty.runAll calls).1 = [⟨0, 1⟩, ⟨0, 1⟩, ⟨1, 2⟩, ⟨0, 2⟩, ⟨0, 1⟩] := by
    decide +kernel
  rw [hranges] at hheld
  simp only [calls, List.forall₂_cons] at hheld
  obtain ⟨-, -, hfloats, hints, -⟩ := hheld
  refine ⟨hranges, hfloats.floats _ rfl hsize, ?_, hints.bytes.trans (by decide +kernel)⟩
  have hcount : (wordsIn .float calls).length = 3 := by decide +kernel
  have hout := hinside hsize ⟨2, 2⟩ (by decide) (by decide)
  rw [hcount] at hout
  simpa using hout

end Sections

end SceneExport
