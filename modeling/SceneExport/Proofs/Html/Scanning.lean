import Mathlib
import SceneExport.Proofs.Html.Backlink
import SceneExport.Proofs.Html.ClosingTag
import SceneExport.Proofs.Text.Slices

/-!
# Scanning for tags by byte offsets

The search for the tag that leads back goes over the bytes of a document. It looks for `<meta` and
for the end of the tag in a copy in small letters, takes the tag from the document itself at the
offsets that it found, and then cuts one attribute after another off the tag. Here it is written
with offsets and slices. It fails at a slice that does not lie inside its text or does not lie
between characters, and at a turn of one of its two loops that leaves as much text as it found.

It never fails, whatever the document, and finds what the search over characters finds. A turn that
meets neither a key nor a value still passes a slash, a blank or a sign `=`, so that each turn
shortens the text.
-/
namespace SceneExport.Html

open Text (isBlank asciiLower slice? find? findPattern? trimStart trimStart_ofList)
open String (utf8Len)

/-- What may go wrong: a slice that is not there, or a turn that gets nowhere. -/
inductive Fault
  | slice
  | stalled

/-- A slice that has to be there. -/
def slice (s : String) (start stop : Nat) : Except Fault String :=
  match slice? s start stop with
  | some part => return part
  | none => throw .slice

lemma slice_eq {s part : String} {start stop : Nat} (h : slice? s start stop = some part) :
    slice s start stop = .ok part := by
  rw [slice, h]
  rfl

/-- A value in quotes and the text behind it. The quote at the end may be missing. -/
def sliceQuoted (quote : Char) (s : String) : Except Fault (String × String) := do
  let body ← slice s 1 s.utf8ByteSize
  let close := (find? (· = quote) body).getD body.utf8ByteSize
  let value ← slice body 0 close
  return (value, (slice? body (close + 1) body.utf8ByteSize).getD "")

def sliceBare (s : String) : Except Fault (String × String) := do
  let stop := (find? isBlank s).getD s.utf8ByteSize
  let value ← slice s 0 stop
  let rest ← slice s stop s.utf8ByteSize
  return (value, rest)

def sliceValue (s : String) : Except Fault (String × String) :=
  match s.toList.head?.filter fun c => c = '\'' || c = '"' with
  | some quote => sliceQuoted quote s
  | none => sliceBare s

def sliceAssignment (s : String) : Except Fault (String × String) :=
  match s.toList with
  | '=' :: after => sliceValue (trimStart isBlank (String.ofList after))
  | _ => return ("", s)

/-- One turn of the loop over the attributes: the first attribute and the text that is left. -/
def sliceAttribute (s : String) : Except Fault (Attribute × String) := do
  let stop := (find? (!isKeyChar ·) s).getD s.utf8ByteSize
  let key ← slice s 0 stop
  let behind ← slice s stop s.utf8ByteSize
  let (value, rest) ← sliceAssignment (trimStart isBlank behind)
  return (⟨key.toList.map asciiLower, value.toList⟩, trimStart isGap rest)

def sliceAttributesFrom (s : String) : Except Fault (List Attribute) :=
  if s.isEmpty then return []
  else do
    let (first, rest) ← sliceAttribute s
    if rest.utf8ByteSize < s.utf8ByteSize then
      let others ← sliceAttributesFrom rest
      return if first.key.isEmpty then others else first :: others
    else throw .stalled
termination_by s.utf8ByteSize

def sliceAttributes (tag : String) : Except Fault (List Attribute) :=
  sliceAttributesFrom (trimStart isBlank tag)

/-- One turn of the loop over the tags: the inside of the first tag from an offset on, and the
offset of its end. -/
def sliceTag (document : String) (start : Nat) : Except Fault (Option (String × Nat)) := do
  let lower := String.ofList (document.toList.map asciiLower)
  let rest ← slice lower start lower.utf8ByteSize
  match findPattern? "<meta" rest with
  | none => return none
  | some found =>
    let tail ← slice lower (start + found) lower.utf8ByteSize
    let stop := ((find? (· = '>') tail).map (start + found + ·)).getD document.utf8ByteSize
    let tag ← slice document (start + found + "<meta".utf8ByteSize) stop
    return some (tag, stop)

/-- The content among the attributes of a tag, if it is the one that leads back to the project. -/
def content? (found : List Attribute) : Option String :=
  if found.any fun a => a.key = "name".toList && a.value = metaName.toList then
    (found.find? fun a => a.key = "content".toList).map fun a => String.ofList (unescape a.value)
  else none

def scanFrom (document : String) (start : Nat) : Except Fault (Option String) := do
  match ← sliceTag document start with
  | none => return none
  | some (tag, stop) =>
    match content? (← sliceAttributes tag) with
    | some content => return some content
    | none =>
      if document.utf8ByteSize - stop < document.utf8ByteSize - start then scanFrom document stop
      else throw .stalled
termination_by document.utf8ByteSize - start

/-- The project that a document names, by offsets and slices. -/
def scan (document : String) : Except Fault (Option String) :=
  scanFrom document 0

/-- A quote takes one byte. -/
lemma sliceQuoted_eq {quote : Char} (hquote : quote.utf8Size = 1) (body : List Char) :
    sliceQuoted quote (String.ofList (quote :: body)) =
      .ok (String.ofList (body.takeWhile (· ≠ quote)),
        String.ofList ((body.dropWhile (· ≠ quote)).drop 1)) := by
  have hbody : slice (String.ofList (quote :: body)) 1
      (String.ofList (quote :: body)).utf8ByteSize = .ok (String.ofList body) := by
    have hback := Text.slice?_back [quote] body
    rw [String.utf8Len_cons, hquote] at hback
    exact slice_eq hback
  obtain ⟨hvalue, -⟩ := Text.slice?_find? (· = quote) body
  have hclose : (find? (· = quote) (String.ofList body)).getD (String.ofList body).utf8ByteSize =
      utf8Len (body.takeWhile fun c => !decide (c = quote)) := by
    rw [String.utf8ByteSize_ofList, Text.find?_getD]
  have hrest :=
    Text.slice?_behind (p := (· = quote)) (fun c hc => of_decide_eq_true hc ▸ hquote) body
  rw [sliceQuoted, hbody]
  dsimp only [bind, Except.bind]
  rw [slice_eq hvalue, hclose, hrest]
  simp only [decide_not]
  rfl

lemma sliceBare_eq (cs : List Char) :
    sliceBare (String.ofList cs) =
      .ok (String.ofList (cs.takeWhile (!isBlank ·)),
        String.ofList (cs.dropWhile (!isBlank ·))) := by
  obtain ⟨hvalue, hrest⟩ := Text.slice?_find? isBlank cs
  rw [sliceBare, slice_eq hvalue]
  dsimp only [bind, Except.bind]
  rw [slice_eq hrest]
  rfl

lemma sliceValue_eq (cs : List Char) :
    sliceValue (String.ofList cs) =
      .ok (String.ofList (readValue cs).1, String.ofList (readValue cs).2) := by
  rw [sliceValue, String.toList_ofList]
  fun_cases readValue cs with
  | case1 body => exact sliceQuoted_eq rfl body
  | case2 body => exact sliceQuoted_eq rfl body
  | case3 _ hsingle hdouble =>
    have hbare : (cs.head?.filter fun c => c = '\'' || c = '"') = none := by
      cases cs with
      | nil => rfl
      | cons c cs =>
        have hc : c ≠ '\'' ∧ c ≠ '"' :=
          ⟨fun h => hsingle cs (by rw [h]), fun h => hdouble cs (by rw [h])⟩
        simp [hc]
    rw [hbare]
    exact sliceBare_eq cs

lemma sliceAssignment_eq (cs : List Char) : sliceAssignment (String.ofList cs) =
    .ok (String.ofList (readAssignment cs).1, String.ofList (readAssignment cs).2) := by
  rw [sliceAssignment, String.toList_ofList]
  fun_cases readAssignment cs with
  | case1 rest =>
    change sliceValue (trimStart isBlank (String.ofList rest)) = _
    rw [trimStart_ofList]
    exact sliceValue_eq _
  | case2 _ hequal =>
    split
    · exact absurd rfl (hequal _)
    · rfl

/-- A turn over the attributes takes the first attribute off the text. -/
lemma sliceAttribute_eq (cs : List Char) :
    sliceAttribute (String.ofList cs) =
      .ok (attributeAt cs, String.ofList (behindAttribute cs)) := by
  obtain ⟨hkey, hbehind⟩ := Text.slice?_find? (!isKeyChar ·) cs
  simp only [Bool.not_not] at hkey hbehind
  rw [sliceAttribute, slice_eq hkey]
  dsimp only [bind, Except.bind]
  rw [slice_eq hbehind]
  dsimp only
  rw [trimStart_ofList, sliceAssignment_eq]
  dsimp only
  rw [trimStart_ofList, String.toList_ofList, String.toList_ofList]
  rfl

lemma readValue_suffix (cs : List Char) : (readValue cs).2 <:+ cs := by
  have hquoted : ∀ (p : Char → Bool) (quote : Char) (body : List Char),
      (body.dropWhile p).drop 1 <:+ quote :: body := fun p quote body =>
    ((List.drop_suffix _ _).trans (List.dropWhile_suffix _)).trans (List.suffix_cons quote body)
  fun_cases readValue cs with
  | case1 body => exact hquoted _ _ body
  | case2 body => exact hquoted _ _ body
  | case3 => exact List.dropWhile_suffix _

lemma readAssignment_suffix (cs : List Char) : (readAssignment cs).2 <:+ cs := by
  fun_cases readAssignment cs with
  | case1 rest =>
    exact ((readValue_suffix _).trans (List.dropWhile_suffix _)).trans (List.suffix_cons _ rest)
  | case2 => exact List.suffix_rfl

lemma behindAttribute_suffix (cs : List Char) : behindAttribute cs <:+ cs :=
  (((List.dropWhile_suffix _).trans (readAssignment_suffix _)).trans
    (List.dropWhile_suffix _)).trans (List.dropWhile_suffix _)

/-- Every turn over the attributes shortens the text. -/
lemma utf8Len_behindAttribute_lt (c : Char) (cs : List Char) :
    utf8Len (behindAttribute (c :: cs)) < utf8Len (c :: cs) :=
  Text.utf8Len_lt_of_suffix (behindAttribute_suffix _) (length_behindAttribute_lt c cs)

lemma sliceAttributesFrom_cons (c : Char) (cs : List Char) :
    sliceAttributesFrom (String.ofList (c :: cs)) =
      (sliceAttributesFrom (String.ofList (behindAttribute (c :: cs)))).map fun others =>
        if (attributeAt (c :: cs)).key.isEmpty then others
        else attributeAt (c :: cs) :: others := by
  have hsome : ¬ (String.ofList (c :: cs)).isEmpty = true := by simp
  have hshorter : (String.ofList (behindAttribute (c :: cs))).utf8ByteSize <
      (String.ofList (c :: cs)).utf8ByteSize := by
    rw [String.utf8ByteSize_ofList, String.utf8ByteSize_ofList]
    exact utf8Len_behindAttribute_lt c cs
  rw [sliceAttributesFrom, if_neg hsome, sliceAttribute_eq]
  dsimp only [bind, Except.bind]
  rw [if_pos hshorter]
  rfl

theorem sliceAttributesFrom_eq (cs : List Char) :
    sliceAttributesFrom (String.ofList cs) = .ok (attributesFrom cs) := by
  fun_induction attributesFrom cs with
  | case1 =>
    rw [sliceAttributesFrom]
    rfl
  | case2 c cs first rest hkey ih =>
    rw [sliceAttributesFrom_cons, ih]
    exact congrArg Except.ok (if_pos hkey)
  | case3 c cs first rest hkey ih =>
    rw [sliceAttributesFrom_cons, ih]
    exact congrArg Except.ok (if_neg hkey)

theorem sliceAttributes_eq (tag : List Char) :
    sliceAttributes (String.ofList tag) = .ok (attributes tag) := by
  rw [sliceAttributes, trimStart_ofList, sliceAttributesFrom_eq]
  rfl

lemma exists_of_dropFolded? {pattern cs rest : List Char} (h : dropFolded? pattern cs = some rest) :
    ∃ name, cs = name ++ rest ∧ name.map asciiLower = pattern := by
  fun_induction dropFolded? pattern cs with
  | case1 cs => exact ⟨[], by simpa using h, rfl⟩
  | case2 => simp at h
  | case3 ps c cs ih =>
    obtain ⟨name, rfl, hname⟩ := ih h
    exact ⟨c :: name, rfl, by rw [List.map_cons, hname]⟩
  | case4 => simp at h

/-- A pattern in small letters is looked for in the copy, character by character. -/
lemma findPattern?_cons (pattern : String) (c : Char) (cs : List Char) :
    findPattern? pattern (String.ofList ((c :: cs).map asciiLower)) =
      if (dropFolded? pattern.toList (c :: cs)).isSome then some 0
      else (findPattern? pattern (String.ofList (cs.map asciiLower))).map (c.utf8Size + ·) := by
  have hhere : pattern.toList.isPrefixOf ((c :: cs).map asciiLower) =
      (dropFolded? pattern.toList (c :: cs)).isSome := by
    rw [Bool.eq_iff_iff, List.isPrefixOf_iff_prefix, isSome_dropFolded?]
  rw [findPattern?, String.toList_ofList, findPattern?, String.toList_ofList, List.map_cons,
    Text.offset?, ← List.map_cons, hhere, Text.utf8Size_asciiLower]

lemma findPattern?_of_none {cs : List Char} (h : behindMeta? cs = none) :
    findPattern? "<meta" (String.ofList (cs.map asciiLower)) = none := by
  fun_induction behindMeta? cs with
  | case1 => rfl
  | case2 => simp at h
  | case3 c cs hdrop ih => rw [findPattern?_cons, hdrop, ih h]; rfl

/-- The offset of a tag is the size of what stands before it. -/
lemma findPattern?_of_some {cs tail : List Char} (h : behindMeta? cs = some tail) :
    ∃ before name, cs = before ++ (name ++ tail) ∧ name.map asciiLower = "<meta".toList ∧
      findPattern? "<meta" (String.ofList (cs.map asciiLower)) = some (utf8Len before) := by
  fun_induction behindMeta? cs with
  | case1 => simp at h
  | case2 c cs rest hdrop =>
    obtain rfl : rest = tail := by simpa using h
    obtain ⟨name, hcs, hname⟩ := exists_of_dropFolded? hdrop
    refine ⟨[], name, hcs, hname, ?_⟩
    rw [findPattern?_cons, hdrop]
    rfl
  | case3 c cs hdrop ih =>
    obtain ⟨before, name, rfl, hname, hfind⟩ := ih h
    refine ⟨c :: before, name, rfl, hname, ?_⟩
    rw [findPattern?_cons, hdrop, hfind, String.utf8Len_cons, Nat.add_comm]
    rfl

lemma asciiLower_eq_iff (c : Char) : asciiLower c = '>' ↔ c = '>' := by
  refine ⟨fun h => by_contra fun hne => Text.asciiLower_ne (by decide) hne h, ?_⟩
  rintro rfl
  rfl

section Tags

variable {name rest tail : List Char}

lemma ne_of_mem_name (hname : name.map asciiLower = "<meta".toList) {c : Char} (hc : c ∈ name) :
    c ≠ '>' := by
  rintro rfl
  have hmem : asciiLower '>' ∈ "<meta".toList := hname ▸ List.mem_map_of_mem hc
  exact absurd hmem (by decide)

/-- The end of a tag is found in the copy where it is in the document: `<meta` itself does not have
it. -/
lemma find?_end (hname : name.map asciiLower = "<meta".toList) (front tail : List Char) :
    ((find? (· = '>') (String.ofList ((name ++ tail).map asciiLower))).map (utf8Len front + ·)).getD
        (String.ofList (front ++ (name ++ tail))).utf8ByteSize =
      utf8Len (front ++ name ++ tail.takeWhile (· ≠ '>')) := by
  have hopen : ∀ c ∈ name, decide (c ≠ '>') = true :=
    fun c hc => decide_eq_true (ne_of_mem_name hname hc)
  have hsame : (fun c => !decide (c = '>')) ∘ asciiLower = fun c => decide (c ≠ '>') := by
    funext c
    simp [asciiLower_eq_iff]
  have hfind := Text.find?_getD (· = '>') ((name ++ tail).map asciiLower)
  rw [List.takeWhile_map, Text.utf8Len_map_asciiLower, Text.utf8Len_map_asciiLower, hsame,
    List.takeWhile_append_of_pos hopen] at hfind
  rw [String.utf8ByteSize_ofList, String.utf8Len_append front, Option.getD_map, hfind,
    List.append_assoc, String.utf8Len_append front]

/-- A document up to the end of a tag and from there on. -/
lemma append_passed (front passed tail : List Char) :
    front ++ (passed ++ tail) =
      front ++ passed ++ tail.takeWhile (· ≠ '>') ++ tail.dropWhile (· ≠ '>') := by
  rw [List.append_assoc _ (tail.takeWhile _), List.takeWhile_append_dropWhile, List.append_assoc]

/-- The copy may be cut wherever the document may. -/
lemma slice_lower (front rest : List Char) :
    slice (String.ofList ((front ++ rest).map asciiLower)) (utf8Len front)
      (String.ofList ((front ++ rest).map asciiLower)).utf8ByteSize =
        .ok (String.ofList (rest.map asciiLower)) := by
  have hback := Text.slice?_back (front.map asciiLower) (rest.map asciiLower)
  rw [← List.map_append, Text.utf8Len_map_asciiLower] at hback
  exact slice_eq hback

lemma sliceTag_of_none (h : behindMeta? rest = none) (front : List Char) :
    sliceTag (String.ofList (front ++ rest)) (utf8Len front) = .ok none := by
  rw [sliceTag, String.toList_ofList]
  dsimp only
  rw [slice_lower]
  dsimp only [bind, Except.bind]
  rw [findPattern?_of_none h]
  rfl

/-- A turn over the tags takes the inside of the next tag, and goes on at its end. -/
lemma sliceTag_of_some (h : behindMeta? rest = some tail) (front : List Char) :
    ∃ passed, rest = passed ++ tail ∧ passed ≠ [] ∧
      sliceTag (String.ofList (front ++ rest)) (utf8Len front) =
        .ok (some (String.ofList (tail.takeWhile (· ≠ '>')),
          utf8Len (front ++ passed ++ tail.takeWhile (· ≠ '>')))) := by
  obtain ⟨before, name, rfl, hname, hfind⟩ := findPattern?_of_some h
  refine ⟨before ++ name, by rw [List.append_assoc], ?_, ?_⟩
  · intro hnil
    rw [(List.append_eq_nil_iff.mp hnil).2] at hname
    exact absurd hname (by decide)
  · have hfound : utf8Len front + utf8Len before = utf8Len (front ++ before) := by
      rw [String.utf8Len_append]
    have hopened : utf8Len (front ++ before) + "<meta".utf8ByteSize =
        utf8Len (front ++ before ++ name) := by
      rw [String.utf8Len_append (front ++ before), ← Text.utf8Len_map_asciiLower name, hname]
      rfl
    have htag :=
      Text.slice?_ofList (front ++ before ++ name) (tail.takeWhile (· ≠ '>'))
        (tail.dropWhile (· ≠ '>'))
    rw [← append_passed] at htag
    rw [sliceTag, String.toList_ofList]
    dsimp only
    rw [slice_lower]
    dsimp only [bind, Except.bind]
    rw [hfind]
    dsimp only
    -- from here on everything before the tag counts as the front
    rw [hfound, ← List.append_assoc front, slice_lower]
    dsimp only
    rw [find?_end hname, hopened, slice_eq htag, List.append_assoc front before name]
    rfl

lemma contentOf?_eq (tag : List Char) : contentOf? tag = content? (attributes tag) := rfl

/-- A turn ends the loop with the content of its tag, or the loop goes on at the end of the tag. -/
lemma scanFrom_of_some (h : behindMeta? rest = some tail) (front : List Char) :
    ∃ passed, rest = passed ++ tail ∧
      scanFrom (String.ofList (front ++ rest)) (utf8Len front) =
        (contentOf? (tail.takeWhile (· ≠ '>'))).elim
          (scanFrom (String.ofList (front ++ rest))
            (utf8Len (front ++ passed ++ tail.takeWhile (· ≠ '>'))))
          fun content => .ok (some content) := by
  obtain ⟨passed, rfl, hpassed, htag⟩ := sliceTag_of_some h front
  refine ⟨passed, rfl, ?_⟩
  have hshorter : (String.ofList (front ++ (passed ++ tail))).utf8ByteSize -
      utf8Len (front ++ passed ++ tail.takeWhile (· ≠ '>')) <
        (String.ofList (front ++ (passed ++ tail))).utf8ByteSize - utf8Len front := by
    have hpos := Text.utf8Len_pos hpassed
    rw [String.utf8ByteSize_ofList]
    simp only [String.utf8Len_append]
    omega
  rw [scanFrom, htag]
  dsimp only [bind, Except.bind]
  rw [sliceAttributes_eq]
  dsimp only
  rw [← contentOf?_eq]
  cases contentOf? (tail.takeWhile (· ≠ '>')) with
  | some content => rfl
  | none => exact if_pos hshorter

end Tags

/-- From any place of a document on, the loop finds what the search over characters finds. -/
theorem scanFrom_eq (front rest : List Char) :
    scanFrom (String.ofList (front ++ rest)) (utf8Len front) = .ok (findFrom rest) := by
  fun_induction findFrom rest generalizing front with
  | case1 rest hnone =>
    rw [scanFrom, sliceTag_of_none hnone]
    rfl
  | case2 rest tail hsome content hcontent =>
    obtain ⟨passed, -, hturn⟩ := scanFrom_of_some hsome front
    rw [hturn, hcontent]
    rfl
  | case3 rest tail hsome hcontent ih =>
    obtain ⟨passed, rfl, hturn⟩ := scanFrom_of_some hsome front
    rw [hturn, hcontent, append_passed]
    exact ih _

lemma exists_sliceAttribute {s : String} (hs : s ≠ "") :
    ∃ first rest, sliceAttribute s = .ok (first, rest) ∧ rest.utf8ByteSize < s.utf8ByteSize := by
  obtain ⟨cs, rfl⟩ : ∃ cs, s = String.ofList cs := ⟨s.toList, String.ofList_toList.symm⟩
  refine ⟨_, _, sliceAttribute_eq cs, ?_⟩
  cases cs with
  | nil => exact absurd rfl hs
  | cons c cs =>
    rw [String.utf8ByteSize_ofList, String.utf8ByteSize_ofList]
    exact utf8Len_behindAttribute_lt c cs

lemma sliceTag_cases {document : String} {start : Nat}
    (hstart : String.Pos.Raw.IsValid document ⟨start⟩) :
    sliceTag document start = .ok none ∨
      ∃ tag stop, sliceTag document start = .ok (some (tag, stop)) ∧ start < stop ∧
        String.Pos.Raw.IsValid document ⟨stop⟩ := by
  obtain ⟨front, rest, rfl, rfl⟩ := Text.exists_front hstart
  cases hmeta : behindMeta? rest with
  | none => exact .inl (sliceTag_of_none hmeta front)
  | some tail =>
    obtain ⟨passed, rfl, hpassed, htag⟩ := sliceTag_of_some hmeta front
    refine .inr ⟨_, _, htag, ?_, ?_⟩
    · have hpos := Text.utf8Len_pos hpassed
      simp only [String.utf8Len_append]
      omega
    · rw [append_passed]
      exact Text.isValid_utf8Len _ _

/-- The search goes to its end on every document and takes every slice that it asks for, and so does
the loop over the attributes on every text. Each turn of either loop leaves less text than it found,
from every offset and on every text, and the loop over the tags only ever stands between
characters. -/
theorem scan_total (document : String) :
    scan document = .ok (findProject? document) ∧
      (∀ tag, sliceAttributes tag = .ok (attributes tag.toList)) ∧
      (∀ s, s ≠ "" →
        ∃ first rest, sliceAttribute s = .ok (first, rest) ∧ rest.utf8ByteSize < s.utf8ByteSize) ∧
      ∀ start, String.Pos.Raw.IsValid document ⟨start⟩ → sliceTag document start = .ok none ∨
        ∃ tag stop, sliceTag document start = .ok (some (tag, stop)) ∧ start < stop ∧
          String.Pos.Raw.IsValid document ⟨stop⟩ := by
  refine ⟨?_, fun tag => ?_, fun _ => exists_sliceAttribute, fun _ => sliceTag_cases⟩
  · have hscan := scanFrom_eq [] document.toList
    rwa [List.nil_append, String.ofList_toList] at hscan
  · have htag := sliceAttributes_eq tag.toList
    rwa [String.ofList_toList] at htag

/-- A tag without an end behind a character of two bytes, and a text that starts with a sign `=` and
has an open quote. -/
theorem unclosed_scan_total :
    scan "ü<MeTa /=é content='x" = .ok (findProject? "ü<MeTa /=é content='x") ∧
      sliceAttributes "='é" = .ok (attributes "='é".toList) ∧
      ("='é" ≠ "" ∧
        ∃ first rest, sliceAttribute "='é" = .ok (first,
          rest) ∧ rest.utf8ByteSize < "='é".utf8ByteSize) ∧
      (String.Pos.Raw.IsValid "ü<MeTa /=é content='x" ⟨2⟩ ∧
        (sliceTag "ü<MeTa /=é content='x" 2 = .ok none ∨
        ∃ tag stop, sliceTag "ü<MeTa /=é content='x" 2 = .ok (some (tag, stop)) ∧ 2 < stop ∧
          String.Pos.Raw.IsValid "ü<MeTa /=é content='x" ⟨stop⟩)) :=
  have hoffset : String.Pos.Raw.IsValid "ü<MeTa /=é content='x" ⟨2⟩ := by decide
  have htotal := scan_total "ü<MeTa /=é content='x"
  ⟨htotal.1, htotal.2.1 _, ⟨by decide, htotal.2.2.1 _ (by decide)⟩, hoffset, htotal.2.2.2 2 hoffset⟩

end SceneExport.Html
