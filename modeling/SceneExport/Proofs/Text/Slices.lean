import Mathlib
import SceneExport.Text.Basic

/-!
# Slices by byte offsets

A text may be cut at a byte offset only if the offset lies between two of its characters or at one
of its ends. The offsets that cutting uses are sizes of fronts of the text, so they do. An offset
that was found in a copy in small letters may be used in the text itself, since the letters keep
their sizes.
-/
namespace SceneExport.Text

open String (utf8Len)

/-- The text between two byte offsets. There is none if one of the offsets lies behind the end or
inside a character, or if the second comes before the first. -/
def slice? (s : String) (start stop : Nat) : Option String :=
  if h : String.Pos.Raw.IsValid s ⟨start⟩ ∧ String.Pos.Raw.IsValid s ⟨stop⟩ ∧ start ≤ stop then
    some (String.extract (s.pos ⟨start⟩ h.1) (s.pos ⟨stop⟩ h.2.1))
  else none

/-- The byte offset of the first place of a text from which on it passes a test. -/
def offset? (test : List Char → Bool) : List Char → Option Nat
  | [] => none
  | c :: cs => if test (c :: cs) then some 0 else (offset? test cs).map (c.utf8Size + ·)

/-- The byte offset of the first character of a kind. -/
def find? (p : Char → Bool) (s : String) : Option Nat :=
  offset? (fun cs => cs.head?.any p) s.toList

/-- The byte offset of the first place where a pattern that is not empty stands. -/
def findPattern? (pattern s : String) : Option Nat :=
  offset? (fun cs => pattern.toList.isPrefixOf cs) s.toList

/-- A text without the characters of a kind that it starts with. -/
def trimStart (p : Char → Bool) (s : String) : String :=
  String.ofList (s.toList.dropWhile p)

lemma trimStart_ofList (p : Char → Bool) (cs : List Char) :
    trimStart p (String.ofList cs) = String.ofList (cs.dropWhile p) := by
  rw [trimStart, String.toList_ofList]

lemma isValid_utf8Len (xs ys : List Char) :
    String.Pos.Raw.IsValid (String.ofList (xs ++ ys)) ⟨utf8Len xs⟩ := by
  refine String.Pos.Raw.isValid_iff_exists_append.mpr ⟨String.ofList xs, String.ofList ys,
    String.ofList_append, ?_⟩
  rw [String.Pos.Raw.ext_iff, String.byteIdx_rawEndPos, String.utf8ByteSize_ofList]

/-- An offset at which a text may be cut is the size of a front of the text. -/
lemma exists_front {s : String} {start : Nat} (h : String.Pos.Raw.IsValid s ⟨start⟩) :
    ∃ xs ys, s = String.ofList (xs ++ ys) ∧ start = utf8Len xs := by
  obtain ⟨front, back, rfl, hfront⟩ := String.Pos.Raw.isValid_iff_exists_append.mp h
  refine ⟨front.toList, back.toList, ?_, ?_⟩
  · rw [String.ofList_append, String.ofList_toList, String.ofList_toList]
  · rw [← String.utf8ByteSize_ofList, String.ofList_toList]
    exact congrArg String.Pos.Raw.byteIdx hfront

/-- What stands between two fronts of a text is a slice of it. -/
theorem slice?_ofList (xs ys zs : List Char) :
    slice? (String.ofList (xs ++ ys ++ zs)) (utf8Len xs) (utf8Len (xs ++ ys)) =
      some (String.ofList ys) := by
  have hstart : String.Pos.Raw.IsValid (String.ofList (xs ++ ys ++ zs)) ⟨utf8Len xs⟩ := by
    rw [List.append_assoc]
    exact isValid_utf8Len xs (ys ++ zs)
  have hstop := isValid_utf8Len (xs ++ ys) zs
  have hle : utf8Len xs ≤ utf8Len (xs ++ ys) := by
    rw [String.utf8Len_append]
    exact Nat.le_add_right _ _
  have hsize : ∀ cs : List Char, (String.ofList cs).toByteArray.size = utf8Len cs := fun cs => by
    rw [String.size_toByteArray, String.utf8ByteSize_ofList]
  rw [slice?, dif_pos ⟨hstart, hstop, hle⟩, Option.some.injEq, ← String.toByteArray_inj,
    String.toByteArray_extract]
  change (String.ofList (xs ++ ys ++ zs)).toByteArray.extract (utf8Len xs) (utf8Len (xs ++ ys)) = _
  -- nothing is taken from behind the second front
  have hbehind : (String.ofList zs).toByteArray.extract (utf8Len xs - utf8Len (xs ++ ys))
      (utf8Len (xs ++ ys) - utf8Len (xs ++ ys)) = ByteArray.empty :=
    ByteArray.extract_eq_empty_iff.mpr (by simp)
  rw [String.ofList_append, String.toByteArray_append, ByteArray.extract_append, hsize, hbehind,
    ByteArray.append_empty, String.ofList_append, String.toByteArray_append]
  exact ByteArray.extract_append_eq_right (hsize xs).symm
    (by rw [hsize, hsize, String.utf8Len_append])

theorem slice?_front (xs ys : List Char) :
    slice? (String.ofList (xs ++ ys)) 0 (utf8Len xs) = some (String.ofList xs) :=
  slice?_ofList [] xs ys

theorem slice?_back (xs ys : List Char) :
    slice? (String.ofList (xs ++ ys)) (utf8Len xs) (String.ofList (xs ++ ys)).utf8ByteSize =
      some (String.ofList ys) := by
  have hall := slice?_ofList xs ys []
  rwa [List.append_nil, ← String.utf8ByteSize_ofList (xs ++ ys)] at hall

/-- Nothing is taken from behind the end. -/
theorem slice?_of_lt {s : String} {start : Nat} (h : s.utf8ByteSize < start) (stop : Nat) :
    slice? s start stop = none := by
  refine dif_neg fun hvalid => ?_
  have hle := hvalid.1.le_rawEndPos
  rw [String.Pos.Raw.le_iff, String.byteIdx_rawEndPos] at hle
  exact absurd hle (Nat.not_le.mpr h)

/-- The first character of a kind stands behind the longest front without one. -/
lemma find?_getD (p : Char → Bool) (cs : List Char) :
    (find? p (String.ofList cs)).getD (utf8Len cs) = utf8Len (cs.takeWhile (!p ·)) := by
  rw [find?, String.toList_ofList]
  induction cs with
  | nil => rfl
  | cons c cs ih =>
    rw [offset?, List.head?_cons, Option.any_some]
    cases hc : p c with
    | true => simp [hc]
    | false =>
      rw [List.takeWhile_cons_of_pos (by simp [hc]), String.utf8Len_cons, String.utf8Len_cons, ← ih]
      cases offset? (fun cs => cs.head?.any p) cs <;> simp [Nat.add_comm]

/-- A text is cut in two at the first character of a kind. -/
theorem slice?_find? (p : Char → Bool) (cs : List Char) :
    let stop := (find? p (String.ofList cs)).getD (String.ofList cs).utf8ByteSize
    slice? (String.ofList cs) 0 stop = some (String.ofList (cs.takeWhile (!p ·))) ∧
      slice? (String.ofList cs) stop (String.ofList cs).utf8ByteSize =
        some (String.ofList (cs.dropWhile (!p ·))) := by
  have hfront := slice?_front (cs.takeWhile (!p ·)) (cs.dropWhile (!p ·))
  have hback := slice?_back (cs.takeWhile (!p ·)) (cs.dropWhile (!p ·))
  rw [List.takeWhile_append_dropWhile] at hfront hback
  rw [String.utf8ByteSize_ofList] at hback ⊢
  rw [find?_getD]
  exact ⟨hfront, hback⟩

/-- What stands behind the first character of a kind that takes one byte; nothing if there is
none. -/
theorem slice?_behind {p : Char → Bool} (hp : ∀ c, p c = true → c.utf8Size = 1) (cs : List Char) :
    (slice? (String.ofList cs) (utf8Len (cs.takeWhile (!p ·)) + 1)
      (String.ofList cs).utf8ByteSize).getD "" = String.ofList ((cs.dropWhile (!p ·)).drop 1) := by
  have hcut := List.takeWhile_append_dropWhile (p := (!p ·)) (l := cs)
  cases hrest : cs.dropWhile (!p ·) with
  | nil =>
    rw [hrest, List.append_nil] at hcut
    rw [hcut, slice?_of_lt (by rw [String.utf8ByteSize_ofList]; exact Nat.lt_succ_self _)]
    rfl
  | cons c rest =>
    have hc : p c = true := by
      simpa [hrest] using List.head_dropWhile_not (!p ·) (l := cs) (by simp [hrest])
    have hback := slice?_back (cs.takeWhile (!p ·) ++ [c]) rest
    rw [List.append_assoc, List.singleton_append, ← hrest, hcut, String.utf8Len_append,
      String.utf8Len_cons, hp c hc] at hback
    exact congrArg (Option.getD · "") hback

lemma utf8Len_pos {cs : List Char} (h : cs ≠ []) : 0 < utf8Len cs := by
  cases cs with
  | nil => exact absurd rfl h
  | cons c cs =>
    rw [String.utf8Len_cons]
    exact Nat.add_pos_right _ c.utf8Size_pos

/-- A shorter back has fewer bytes. -/
lemma utf8Len_lt_of_suffix {xs ys : List Char} (hsuffix : xs <:+ ys)
    (hlength : xs.length < ys.length) : utf8Len xs < utf8Len ys := by
  obtain ⟨front, rfl⟩ := hsuffix
  have hfront : front ≠ [] := by
    rintro rfl
    simp at hlength
  rw [String.utf8Len_append]
  exact Nat.lt_add_of_pos_left (utf8Len_pos hfront)

lemma utf8Size_asciiLower (c : Char) : (asciiLower c).utf8Size = c.utf8Size := by
  unfold asciiLower
  split
  · next hcapital =>
    have hall : ∀ n : Fin 91, 'A' ≤ Char.ofNat n →
        (Char.ofNat (n + 32)).utf8Size = (Char.ofNat n).utf8Size := by
      decide
    simp only [Bool.and_eq_true, decide_eq_true_eq] at hcapital
    have hsize :=
      hall ⟨c.toNat, Nat.lt_succ_of_le hcapital.2⟩ (by rw [Char.ofNat_toNat]; exact hcapital.1)
    rwa [Char.ofNat_toNat] at hsize
  · rfl

lemma utf8Len_map_asciiLower (cs : List Char) : utf8Len (cs.map asciiLower) = utf8Len cs := by
  induction cs with
  | nil => rfl
  | cons c cs ih =>
    rw [List.map_cons, String.utf8Len_cons, String.utf8Len_cons, ih, utf8Size_asciiLower]

end SceneExport.Text
