import Mathlib
import SceneExport.Sections

/-!
# Where numbers stand in the sections

A range is handed out when its numbers are put at the end of a section, and sections only grow. So
the numbers stay where they are, ranges that are handed out one after another lie side by side, and
each lies inside its section. The sections stand behind one another in the binary file, behind its
header, so a range of a section is found in the file by where the section starts.
-/
namespace SceneExport

namespace Bytes

lemma toWord32_ofWord32 (w : UInt32) :
    toWord32 w.toUInt8 (w >>> 8).toUInt8 (w >>> 16).toUInt8 (w >>> 24).toUInt8 = w := by
  apply UInt32.toBitVec_inj.mp
  apply BitVec.eq_of_getLsbD_eq
  intro i hi
  -- each bit comes from the byte that its position lies in
  have hbyte : i < 8 ∨ (8 ≤ i ∧ i < 16) ∨ (16 ≤ i ∧ i < 24) ∨ (24 ≤ i ∧ i < 32) := by omega
  simp only [toWord32, UInt32.toBitVec_or, UInt32.toBitVec_shiftLeft, UInt8.toBitVec_toUInt32,
    UInt32.toBitVec_toUInt8, UInt32.toBitVec_shiftRight, BitVec.getLsbD_or]
  simp [BitVec.getLsbD_setWidth]
  grind

end Bytes

namespace Range

/-- One of the ranges ends before the other one starts. -/
def Apart (r s : Range) : Prop :=
  r.offset + r.length ≤ s.offset ∨ s.offset + s.length ≤ r.offset

lemma Apart.symm {r s : Range} (h : r.Apart s) : s.Apart r :=
  Or.symm h

/-- Ranges that lie side by side between two positions, in any order. -/
structure Laid (lo hi : Nat) (rs : List Range) : Prop where
  apart : rs.Pairwise Apart
  inside : ∀ r ∈ rs, lo ≤ r.offset ∧ r.offset + r.length ≤ hi

namespace Laid

variable {lo mid hi : Nat} {rs ss : List Range}

lemma nil : Laid lo hi [] :=
  ⟨.nil, by simp⟩

lemma singleton {r : Range} (hlo : lo ≤ r.offset) (hhi : r.offset + r.length ≤ hi) :
    Laid lo hi [r] :=
  ⟨List.pairwise_singleton _ _, by simp [hlo, hhi]⟩

lemma append (h : Laid lo mid rs) (h' : Laid mid hi ss) (hlo : lo ≤ mid) (hhi : mid ≤ hi) :
    Laid lo hi (rs ++ ss) := by
  refine ⟨List.pairwise_append.mpr ⟨h.apart, h'.apart, fun r hr s hs => .inl ?_⟩, fun r hr => ?_⟩
  · have hend := (h.inside r hr).2
    have hstart := (h'.inside s hs).1
    omega
  · rcases List.mem_append.mp hr with hr | hr
    · have hin := h.inside r hr
      omega
    · have hin := h'.inside r hr
      omega

lemma subperm (h : Laid lo hi rs) (hss : ss.Subperm rs) : Laid lo hi ss := by
  obtain ⟨ts, hperm, hsub⟩ := hss
  have hts : ts.Pairwise Apart := h.apart.sublist hsub
  exact ⟨(hperm.pairwise_iff Apart.symm).mp hts,
    fun r hr => h.inside r (hsub.subset (hperm.symm.subset hr))⟩

end Laid

end Range

namespace Sections

open Range (Laid)

/-- The numbers stand at the range of the section, four bytes each. -/
def Stored {β : Type} (encode : β → Bytes) (bytes : Bytes) (r : Range) (values : List β) : Prop :=
  ∃ front back, bytes = front ++ values.flatMap encode ++ back ∧ front.length = 4 * r.offset ∧
    values.length = r.length

/-- The bytes of an index. -/
def indexBytes (i : UInt32) : Bytes :=
  intBytes (Int.ofNat i.toNat)

lemma indexBytes_eq (i : UInt32) : indexBytes i = Bytes.ofWord32 i := by
  have hlt := i.toNat_lt
  have hmod : (Int.ofNat i.toNat % 0x100000000).toNat = i.toNat := by
    rw [Int.ofNat_eq_natCast]
    omega
  rw [indexBytes, intBytes, hmod, UInt32.ofNat_toNat]

section Stored

variable {β : Type} {encode : β → Bytes} {bytes : Bytes} {r : Range} {values : List β}

lemma Stored.append (h : Stored encode bytes r values) (more : Bytes) :
    Stored encode (bytes ++ more) r values := by
  obtain ⟨front, back, rfl, hfront, hlength⟩ := h
  exact ⟨front, back ++ more, by simp, hfront, hlength⟩

lemma length_flatMap (hencode : ∀ b, (encode b).length = 4) (values : List β) :
    (values.flatMap encode).length = 4 * values.length := by
  induction values with
  | nil => rfl
  | cons b values ih =>
    rw [List.flatMap_cons, List.length_append, hencode, ih, List.length_cons]
    omega

/-- Part of the numbers stands at part of the range. -/
lemma Stored.slice (hencode : ∀ b, (encode b).length = 4) (h : Stored encode bytes r values)
    {i n : Nat} (hin : i + n ≤ values.length) :
    Stored encode bytes ⟨r.offset + i, n⟩ ((values.drop i).take n) := by
  obtain ⟨front, back, rfl, hfront, -⟩ := h
  refine ⟨front ++ (values.take i).flatMap encode, ((values.drop i).drop n).flatMap encode ++ back,
    ?_, ?_, ?_⟩
  · have hsplit : values = values.take i ++ ((values.drop i).take n ++ (values.drop i).drop n) := by
      rw [List.take_append_drop, List.take_append_drop]
    conv_lhs => rw [hsplit]
    simp only [List.flatMap_append, List.append_assoc]
  · rw [List.length_append, hfront, length_flatMap hencode, List.length_take_of_le (by omega),
      Nat.mul_add]
  · exact List.length_take_of_le (by rw [List.length_drop]; omega)

/-- What is put at the end of a section of whole numbers stands there. -/
lemma stored_end (hwhole : 4 ∣ bytes.length) (values : List β) :
    Stored encode (bytes ++ values.flatMap encode) ⟨bytes.length / 4, values.length⟩ values :=
  ⟨bytes, [], by simp, (Nat.mul_div_cancel' hwhole).symm, rfl⟩

/-- The bytes at a range of the section, wherever the section starts. -/
lemma Stored.take_drop (hencode : ∀ b, (encode b).length = 4) (h : Stored encode bytes r values)
    (before behind : Bytes) :
    ((before ++ (bytes ++ behind)).drop (before.length + 4 * r.offset)).take (4 * r.length) =
      values.flatMap encode := by
  obtain ⟨front, back, rfl, hfront, hlength⟩ := h
  have hvalues : (values.flatMap encode).length = 4 * r.length := by
    rw [length_flatMap hencode, hlength]
  have hsplit : before ++ (front ++ values.flatMap encode ++ back ++ behind) =
      (before ++ front) ++ (values.flatMap encode ++ (back ++ behind)) := by simp
  rw [hsplit, ← hfront, ← hvalues, ← List.length_append, List.drop_left, List.take_left]

end Stored

lemma length_floatBytes (x : Float32) : (floatBytes x).length = 4 := rfl

lemma length_indexBytes (i : UInt32) : (indexBytes i).length = 4 := rfl

lemma floatsOf_flatMap (values : List Float32) : floatsOf (values.flatMap floatBytes) = values := by
  induction values with
  | nil => rfl
  | cons x values ih =>
    have hword := Bytes.toWord32_ofWord32 x.toBits
    rw [List.flatMap_cons, floatBytes, Bytes.ofWord32]
    simp only [List.cons_append, List.nil_append, floatsOf, hword, ih, Float32.ofBits_toBits]

/-- The words whose bytes these are. -/
def wordsOf : Bytes → List UInt32
  | a :: b :: c :: d :: rest => Bytes.toWord32 a b c d :: wordsOf rest
  | _ => []

lemma wordsOf_flatMap (values : List UInt32) : wordsOf (values.flatMap indexBytes) = values := by
  induction values with
  | nil => rfl
  | cons i values ih =>
    have hword := Bytes.toWord32_ofWord32 i
    rw [List.flatMap_cons, indexBytes_eq, Bytes.ofWord32]
    simp only [List.cons_append, List.nil_append, wordsOf, hword, ih]

/-- Both sections hold whole numbers of four bytes. -/
structure Whole (s : Sections) : Prop where
  float : 4 ∣ s.float.length
  int : 4 ∣ s.int.length

/-- Numbers were put at the end of a section, and these ranges handed out for them. -/
structure Extended (bytes bytes' : Bytes) (rs : List Range) : Prop where
  more : ∃ more, bytes' = bytes ++ more
  whole : 4 ∣ bytes.length → 4 ∣ bytes'.length
  laid : Laid (bytes.length / 4) (bytes'.length / 4) rs

namespace Extended

variable {bytes bytes₁ bytes₂ : Bytes} {rs rs' : List Range}

lemma refl (bytes : Bytes) : Extended bytes bytes [] :=
  ⟨⟨[], by simp⟩, id, .nil⟩

lemma length_le (h : Extended bytes bytes₁ rs) : bytes.length / 4 ≤ bytes₁.length / 4 := by
  obtain ⟨more, rfl⟩ := h.more
  rw [List.length_append]
  omega

lemma trans (h : Extended bytes bytes₁ rs) (h' : Extended bytes₁ bytes₂ rs') :
    Extended bytes bytes₂ (rs ++ rs') := by
  refine ⟨?_, fun hbytes => h'.whole (h.whole hbytes),
    h.laid.append h'.laid h.length_le h'.length_le⟩
  obtain ⟨more, rfl⟩ := h.more
  obtain ⟨rest, rfl⟩ := h'.more
  exact ⟨more ++ rest, List.append_assoc ..⟩

lemma push {β : Type} {encode : β → Bytes} (hencode : ∀ b, (encode b).length = 4) (bytes : Bytes)
    (values : List β) :
    Extended bytes (bytes ++ values.flatMap encode) [⟨bytes.length / 4, values.length⟩] := by
  have hlength : (bytes ++ values.flatMap encode).length = bytes.length + 4 * values.length := by
    rw [List.length_append, length_flatMap hencode]
  refine ⟨⟨_, rfl⟩, fun hbytes => ?_, .singleton le_rfl ?_⟩
  · rw [hlength]
    exact hbytes.add (Nat.dvd_mul_right 4 _)
  · rw [hlength]
    dsimp only
    omega

lemma stored {β : Type} {encode : β → Bytes} (h : Extended bytes bytes₁ rs) {r : Range}
    {values : List β} (hr : Stored encode bytes r values) : Stored encode bytes₁ r values := by
  obtain ⟨more, rfl⟩ := h.more
  exact hr.append more

/-- New ranges go behind those that were handed out before. -/
lemma laid_append (h : Extended bytes bytes₁ rs) {old new : List Range}
    (hold : Laid 0 (bytes.length / 4) old) (hnew : new.Subperm rs) :
    Laid 0 (bytes₁.length / 4) (old ++ new) :=
  hold.append (h.laid.subperm hnew) (Nat.zero_le _) h.length_le

end Extended

/-- The float and the int section are extended, and these ranges handed out. -/
structure Grown (s s' : Sections) (floats ints : List Range) : Prop where
  float : Extended s.float s'.float floats
  int : Extended s.int s'.int ints

namespace Grown

variable {s s₁ s₂ : Sections} {fs fs' is is' : List Range}

lemma refl (s : Sections) : Grown s s [] [] :=
  ⟨.refl s.float, .refl s.int⟩

lemma trans (h : Grown s s₁ fs is) (h' : Grown s₁ s₂ fs' is') :
    Grown s s₂ (fs ++ fs') (is ++ is') :=
  ⟨h.float.trans h'.float, h.int.trans h'.int⟩

lemma whole (h : Grown s s₁ fs is) (hs : s.Whole) : s₁.Whole :=
  ⟨h.float.whole hs.float, h.int.whole hs.int⟩

lemma pushFloats (s : Sections) (values : List Float32) :
    Grown s (s.pushFloats values).2 [(s.pushFloats values).1] [] :=
  ⟨.push length_floatBytes s.float values, .refl s.int⟩

lemma pushInts (s : Sections) (values : List Int) :
    Grown s (s.pushInts values).2 [] [(s.pushInts values).1] :=
  ⟨.refl s.float, .push (fun _ => rfl) s.int values⟩

end Grown

lemma stored_pushFloats {s : Sections} (hs : s.Whole) (values : List Float32) :
    Stored floatBytes (s.pushFloats values).2.float (s.pushFloats values).1 values :=
  stored_end hs.float values

lemma stored_pushInts {s : Sections} (hs : s.Whole) (indices : List UInt32) :
    Stored indexBytes (s.pushInts (indices.map fun i => Int.ofNat i.toNat)).2.int
      (s.pushInts (indices.map fun i => Int.ofNat i.toNat)).1 indices := by
  have hbytes : (indices.map fun i => Int.ofNat i.toNat).flatMap intBytes =
      indices.flatMap indexBytes := by
    rw [List.flatMap_map]
    rfl
  have hstored : Stored indexBytes (s.int ++ indices.flatMap indexBytes)
      ⟨s.int.length / 4, indices.length⟩ indices := stored_end hs.int indices
  rw [pushInts, List.length_map, hbytes]
  exact hstored

lemma length_header (v : Version) : (header v).length = headerSize := by
  have hmark : (Bytes.ofText "B4WB").length = 4 := by decide +kernel
  rw [header, List.length_append, List.length_append, hmark]
  rfl

/-- Reads a range of the int section back from the contents of a binary file, least significant byte
first. -/
def readWords (blob : Bytes) (table : Table) (range : Range) : List UInt32 :=
  wordsOf ((blob.drop (headerSize + table.int + 4 * range.offset)).take (4 * range.length))

variable {s : Sections} {r : Range} (v : Version) (file : Option String)

lemma Stored.le_length {β : Type} {encode : β → Bytes} {bytes : Bytes} {values : List β}
    (hencode : ∀ b, (encode b).length = 4) (h : Stored encode bytes r values) :
    4 * (r.offset + r.length) ≤ bytes.length := by
  obtain ⟨front, back, rfl, hfront, hlength⟩ := h
  have hvalues := length_flatMap hencode values
  rw [List.length_append, List.length_append]
  omega

theorem readWords_blob {values : List UInt32} (h : Stored indexBytes s.int r values) :
    readWords (s.blob v) (s.table file) r = values := by
  have hfile : s.blob v = header v ++ (s.int ++ (s.float ++ s.short ++ s.ushort ++ s.uchar)) := by
    simp [blob, data]
  rw [readWords, hfile, ← length_header v]
  change wordsOf (((header v ++ _).drop ((header v).length + 0 + 4 * r.offset)).take _) = values
  rw [Nat.add_zero, h.take_drop length_indexBytes, wordsOf_flatMap]

theorem readFloats?_blob {values : List Float32} (h : Stored floatBytes s.float r values)
    (hsize : (s.blob v).length < 0x10000000000000000) :
    readFloats? (s.blob v) (s.table file) r = some values := by
  have hfile : s.blob v = (header v ++ s.int) ++ (s.float ++ (s.short ++ s.ushort ++ s.uchar)) := by
    simp [blob, data]
  have hlength : (s.blob v).length = headerSize + s.int.length + s.float.length + s.short.length +
      s.ushort.length + s.uchar.length := by
    simp only [blob, data, List.length_append, length_header]
    omega
  have hinside := h.le_length length_floatBytes
  have hstart : position (headerSize + s.int.length + r.offset * 4) =
      headerSize + s.int.length + r.offset * 4 := Nat.mod_eq_of_lt (by omega)
  have hstop : position (headerSize + s.int.length + r.offset * 4 + r.length * 4) =
      headerSize + s.int.length + r.offset * 4 + r.length * 4 := Nat.mod_eq_of_lt (by omega)
  have hread : floatsOf (((s.blob v).drop (headerSize + s.int.length + r.offset * 4)).take
      (4 * r.length)) = values := by
    have hfront : (header v ++ s.int).length = headerSize + s.int.length := by
      rw [List.length_append, length_header]
    rw [hfile, Nat.mul_comm r.offset, ← hfront, h.take_drop length_floatBytes, floatsOf_flatMap]
  unfold readFloats?
  simp only [table, hstart, hstop]
  rw [if_neg]
  · rw [Nat.add_sub_cancel_left, Nat.mul_comm r.length, hread]
  · simp only [Bool.or_eq_true, decide_eq_true_eq]
    omega

end Sections

end SceneExport
