import Mathlib
import SceneExport.Proofs.Entries
import SceneExport.Proofs.Html.Table
import SceneExport.Proofs.Json.Numbers
import SceneExport.Proofs.Text.Search
import SceneExport.Proofs.Tool.Location

/-!
# Closing tags in bundled data

A template may put the data of a bundle into a script of its own, and a browser ends a script at the
first `</script`, in letters of any case, wherever it stands. Quotes, backslashes and control
characters are escaped in JSON, `<` and `/` are not. So the text of a value has the tag if and only
if one of its texts has it. Base64 has no `<`, and a name of a file has no `/`. What is left are the
name of the manifest, the names of the files of the player and the texts of the manifest, and a tag
in any of them ends the script.
-/
namespace SceneExport

namespace Text

def closingTag : List Char := ['<', '/', 's', 'c', 'r', 'i', 'p', 't']

/-- The tag stands in the text, in letters of any case. -/
def ClosesScript (cs : List Char) : Prop :=
  closingTag <:+: cs.map asciiLower

instance (cs : List Char) : Decidable (ClosesScript cs) :=
  inferInstanceAs (Decidable (closingTag <:+: cs.map asciiLower))

variable {xs ys : List Char} {c : Char}

lemma ClosesScript.mono (h : ClosesScript xs) (hxs : xs <:+: ys) : ClosesScript ys :=
  h.trans (hxs.map asciiLower)

/-- The tag does not reach across a character that it does not have. -/
lemma closesScript_append_cons (hc : asciiLower c ∉ closingTag) :
    ClosesScript (xs ++ c :: ys) ↔ ClosesScript xs ∨ ClosesScript ys := by
  unfold ClosesScript
  rw [List.map_append, List.map_cons, infix_append_cons_iff hc]

lemma closesScript_cons (hc : asciiLower c ∉ closingTag) :
    ClosesScript (c :: ys) ↔ ClosesScript ys := by
  have hnil : ¬ ClosesScript [] := by decide
  rw [← List.nil_append (c :: ys), closesScript_append_cons hc, or_iff_right hnil]

lemma asciiLower_ne {d : Char} (hd : ¬ ('a' ≤ d ∧ d ≤ 'z')) (hc : c ≠ d) : asciiLower c ≠ d := by
  unfold asciiLower
  split
  · next hcapital =>
    have hall : ∀ n : Fin 91, 'A' ≤ Char.ofNat n →
        'a' ≤ Char.ofNat (n + 32) ∧ Char.ofNat (n + 32) ≤ 'z' := by decide
    simp only [Bool.and_eq_true, decide_eq_true_eq] at hcapital
    have hsmall :=
      hall ⟨c.toNat, Nat.lt_succ_of_le hcapital.2⟩ (by rw [Char.ofNat_toNat]; exact hcapital.1)
    exact fun heq => hd (heq ▸ hsmall)
  · exact hc

/-- The tag starts with `<`. -/
lemma closesScript_append (hxs : '<' ∉ xs) : ClosesScript (xs ++ ys) ↔ ClosesScript ys := by
  induction xs with
  | nil => rw [List.nil_append]
  | cons x xs ih =>
    rw [List.mem_cons, not_or] at hxs
    obtain ⟨hx, hxs⟩ := hxs
    have hstart : ¬ closingTag <+: asciiLower x :: (xs ++ ys).map asciiLower := fun h =>
      asciiLower_ne (by decide) (Ne.symm hx) (List.cons_prefix_cons.mp h).1.symm
    rw [← ih hxs]
    unfold ClosesScript
    rw [List.cons_append, List.map_cons, List.infix_cons_iff, or_iff_right hstart]

/-- A text without one of the two signs of the tag does not have the tag. -/
lemma not_closesScript {d : Char} (hd : d = '<' ∨ d = '/') (hxs : d ∉ xs) : ¬ ClosesScript xs := by
  intro h
  have hmem : d ∈ xs.map asciiLower := h.subset (by rcases hd with rfl | rfl <;> decide)
  obtain ⟨x, hx, heq⟩ := List.mem_map.mp hmem
  have hne : x ≠ d := fun h => hxs (h ▸ hx)
  exact asciiLower_ne (by rcases hd with rfl | rfl <;> decide) hne heq

end Text

namespace Json

open Text (ClosesScript closesScript_append closesScript_append_cons closesScript_cons closingTag)

/-- A character that is escaped is none of the tag, and neither is the backslash of its escape. -/
lemma escapeChar_cases (c : Char) : escapeChar c = [c] ∨
    Text.asciiLower c ∉ closingTag ∧ ∃ rest, escapeChar c = '\\' :: rest ∧ '<' ∉ rest := by
  unfold escapeChar
  split
  · next h => exact .inr ⟨h ▸ by decide, _, rfl, by decide⟩
  split
  · next h => exact .inr ⟨h ▸ by decide, _, rfl, by decide⟩
  split
  · next h => exact .inr ⟨h ▸ by decide, _, rfl, by decide⟩
  split
  · next h => exact .inr ⟨h ▸ by decide, _, rfl, by decide⟩
  split
  · next h => exact .inr ⟨h ▸ by decide, _, rfl, by decide⟩
  split
  · next h => exact .inr ⟨h ▸ by decide, _, rfl, by decide⟩
  split
  · next h => exact .inr ⟨h ▸ by decide, _, rfl, by decide⟩
  split
  · next h =>
    have hall : ∀ n : Fin 32, Text.asciiLower (Char.ofNat n) ∉ closingTag ∧
        '<' ∉ ['u', '0', '0', Char.ofNat (48 + n.val / 16),
          if n.val % 16 < 10 then Char.ofNat (48 + n.val % 16)
            else Char.ofNat (87 + n.val % 16)] := by decide
    obtain ⟨hlower, hrest⟩ := hall ⟨c.toNat, h⟩
    rw [Char.ofNat_toNat] at hlower
    exact .inr ⟨hlower, _, rfl, hrest⟩
  · exact .inl rfl

lemma prefix_flatMap_escapeChar (cs : List Char) {tag : List Char}
    (htag : ∀ t ∈ tag, t ∈ closingTag) :
    tag <+: (cs.flatMap escapeChar).map Text.asciiLower ↔ tag <+: cs.map Text.asciiLower := by
  induction cs generalizing tag with
  | nil => rfl
  | cons c cs ih =>
    cases tag with
    | nil => simp
    | cons t tag =>
      obtain ⟨ht, htag⟩ := List.forall_mem_cons.mp htag
      rw [List.flatMap_cons]
      rcases escapeChar_cases c with hc | ⟨hc, rest, hrest, -⟩
      · rw [hc, List.singleton_append, List.map_cons, List.map_cons, List.cons_prefix_cons,
          List.cons_prefix_cons, ih htag]
      · -- The tag has neither the character nor the backslash.
        have hne : t ≠ Text.asciiLower c := fun heq => hc (heq ▸ ht)
        have hback : t ≠ '\\' := fun heq => absurd (heq ▸ ht) (by decide)
        rw [hrest, List.cons_append, List.map_cons, List.map_cons, List.cons_prefix_cons,
          List.cons_prefix_cons]
        exact iff_of_false (fun h => hback h.1) (fun h => hne h.1)

/-- No escape makes a tag or breaks one. -/
lemma closesScript_flatMap_escapeChar (cs : List Char) :
    ClosesScript (cs.flatMap escapeChar) ↔ ClosesScript cs := by
  induction cs with
  | nil => rfl
  | cons c cs ih =>
    rcases escapeChar_cases c with hc | ⟨hc, rest, hrest, hlt⟩
    · have hprefix : closingTag <+: ((c :: cs).flatMap escapeChar).map Text.asciiLower ↔
          closingTag <+: (c :: cs).map Text.asciiLower :=
            prefix_flatMap_escapeChar (c :: cs) fun _ ht => ht
      rw [List.flatMap_cons, hc, List.singleton_append] at hprefix ⊢
      unfold ClosesScript at ih ⊢
      rw [List.map_cons, List.infix_cons_iff, ← List.map_cons, hprefix, ih,
        List.map_cons, ← List.infix_cons_iff]
    · rw [List.flatMap_cons, hrest, List.cons_append, closesScript_cons (by decide),
        closesScript_append hlt, ih, closesScript_cons hc]

lemma closesScript_quoted (s : String) (rest : List Char) :
    ClosesScript (quoted s ++ rest) ↔ ClosesScript s.toList ∨ ClosesScript rest := by
  have hquote : Text.asciiLower '"' ∉ closingTag := by decide
  rw [quoted, List.cons_append, List.cons_append, closesScript_cons hquote, List.append_assoc,
    List.singleton_append, closesScript_append_cons hquote, closesScript_flatMap_escapeChar]

mutual

/-- The keys and texts of a value. -/
def texts : Json → List String
  | .text s => [s]
  | .list items => itemTexts items
  | .object members => memberTexts members
  | _ => []

def itemTexts : List Json → List String
  | [] => []
  | item :: items => texts item ++ itemTexts items

def memberTexts : List (String × Json) → List String
  | [] => []
  | (key, value) :: members => key :: texts value ++ memberTexts members

end

lemma mem_itemTexts {s : String} {items : List Json} :
    s ∈ itemTexts items ↔ ∃ v ∈ items, s ∈ v.texts := by
  induction items with
  | nil => simp [itemTexts]
  | cons item items ih => simp [itemTexts, ih]

lemma mem_memberTexts {s : String} {members : List (String × Json)} :
    s ∈ memberTexts members ↔ ∃ m ∈ members, s = m.1 ∨ s ∈ m.2.texts := by
  induction members with
  | nil => simp [memberTexts]
  | cons m members ih => simp [memberTexts, ih, or_assoc]

/-- The texts of the items of a list that is a member. -/
lemma mem_texts_of_item {s key : String} {members : List (String × Json)} {items : List Json}
    {v : Json} (hkey : (key, .list items) ∈ members) (hv : v ∈ items) (hs : s ∈ v.texts) :
    s ∈ (Json.object members).texts :=
  mem_memberTexts.mpr ⟨_, hkey, .inr (mem_itemTexts.mpr ⟨v, hv, hs⟩)⟩

lemma lt_notMem_toText (n : Number) : '<' ∉ n.toText.toList := by
  rcases n.toText_cases with hnull | ⟨l, hl⟩
  · rw [hnull]
    decide
  · have hdigits : ∀ digits, Digits digits → '<' ∉ digits :=
      fun digits h hlt => absurd (h.2 _ hlt) (by decide)
    rw [hl]
    have hfraction : '<' ∉ l.fractionChars := by
      unfold Literal.fractionChars
      cases h : l.fraction with
      | none => simp
      | some digits => simpa using hdigits digits (l.fraction_digits digits h)
    have hexponent : '<' ∉ l.exponentChars := by
      unfold Literal.exponentChars
      cases h : l.exponent with
      | none => simp
      | some part =>
        have hpart := hdigits part.2 (l.exponent_digits part h)
        cases hsign : part.1 <;> simpa [hsign] using hpart
    have hunsigned : '<' ∉ l.unsigned := by
      simp [Literal.unsigned, hdigits _ l.whole_digits, hfraction, hexponent]
    cases hsign : l.negative <;> simpa [Literal.chars, hsign] using hunsigned

lemma lt_notMem_line (style : Style) (depth : Nat) : '<' ∉ style.line depth := by
  cases style <;> simp [Style.line, List.mem_replicate]

mutual

/-- The spelling of a value, with anything behind it. -/
theorem closesScript_spell (style : Style) (depth : Nat) (rest : List Char) :
    (v : Json) → (ClosesScript (spell style depth v ++ rest) ↔
      (∃ s ∈ v.texts, ClosesScript s.toList) ∨ ClosesScript rest)
  | .null => by
    rw [spell, closesScript_append (by decide)]
    simp [texts]
  | .bool b => by
    rw [spell, closesScript_append (by cases b <;> decide)]
    simp [texts]
  | .number n => by
    rw [spell, closesScript_append (lt_notMem_toText n)]
    simp [texts]
  | .text s => by
    rw [spell, closesScript_quoted]
    simp [texts]
  | .list [] => by
    rw [spell, closesScript_append (by decide)]
    simp [texts, itemTexts]
  | .list (item :: items) => by
    rw [spell, texts, List.cons_append, List.cons_append, List.cons_append,
      closesScript_cons (by decide), List.append_assoc, List.append_assoc,
      closesScript_spellItems style _ _ _ (item :: items),
      closesScript_append (lt_notMem_line style depth), closesScript_append (by decide)]
  | .object [] => by
    rw [spell, closesScript_append (by decide)]
    simp [texts, memberTexts]
  | .object (m :: ms) => by
    rw [spell, texts, List.cons_append, List.cons_append, List.cons_append,
      closesScript_cons (by decide), List.append_assoc, List.append_assoc,
      closesScript_spellMembers style _ _ _ (m :: ms),
      closesScript_append (lt_notMem_line style depth), closesScript_append (by decide)]

theorem closesScript_spellItems (style : Style) (depth : Nat) (first : Bool) (rest : List Char) :
    (items : List Json) → (ClosesScript (spellItems style depth first items ++ rest) ↔
      (∃ s ∈ itemTexts items, ClosesScript s.toList) ∨ ClosesScript rest)
  | [] => by simp [spellItems, itemTexts]
  | item :: items => by
    rw [spellItems, List.append_assoc, List.append_assoc, List.append_assoc,
      closesScript_append (by cases first <;> decide),
      closesScript_append (lt_notMem_line style depth), closesScript_spell style depth _ item,
      closesScript_spellItems style depth false rest items, itemTexts, ← or_assoc]
    simp only [List.mem_append, or_and_right, exists_or]

theorem closesScript_spellMembers (style : Style) (depth : Nat) (first : Bool) (rest : List Char) :
    (members : List (String × Json)) →
    (ClosesScript (spellMembers style depth first members ++ rest) ↔
      (∃ s ∈ memberTexts members, ClosesScript s.toList) ∨ ClosesScript rest)
  | [] => by simp [spellMembers, memberTexts]
  | (key, value) :: members => by
    rw [spellMembers]
    simp only [List.append_assoc]
    rw [closesScript_append (by cases first <;> decide),
      closesScript_append (lt_notMem_line style depth), closesScript_quoted,
      closesScript_append (by cases style <;> decide), closesScript_spell style depth _ value,
      closesScript_spellMembers style depth false rest members, memberTexts, ← or_assoc, ← or_assoc]
    simp only [List.cons_append, List.mem_cons, List.mem_append, or_and_right, exists_or,
      exists_eq_left]
    rw [or_assoc (a := ClosesScript key.toList)]

end

/-- The text of a value has the tag if and only if one of its texts has it. -/
theorem closesScript_render (style : Style) (v : Json) :
    ClosesScript (v.render style).toList ↔ ∃ s ∈ v.texts, ClosesScript s.toList := by
  have hnil : ¬ ClosesScript [] := by decide
  rw [toList_render, ← List.append_nil (spell style 0 v), closesScript_spell, or_iff_left hnil]

end Json

namespace Base64

lemma lt_ne_digit (n : Nat) : '<' ≠ digit n := by
  by_cases h : n < 64
  · intro heq
    have hvalue := value?_digit h
    rw [← heq] at hvalue
    cases hvalue
  · have hdigit : digit n = '/' := by
      unfold digit
      rw [if_neg (by omega), if_neg (by omega), if_neg (by omega), if_neg (by omega)]
    rw [hdigit]
    decide

lemma lt_notMem_encodeFrom : ∀ bytes : Bytes, '<' ∉ encodeFrom [] bytes
  | [] => by simp [encodeFrom]
  | [a] => by simp [encodeFrom, lt_ne_digit]
  | [a, b] => by simp [encodeFrom, lt_ne_digit]
  | a :: b :: c :: rest => by
    rw [encodeFrom_group, List.mem_append, not_or]
    exact ⟨by simp [group, lt_ne_digit], lt_notMem_encodeFrom rest⟩

lemma lt_notMem_encode (bytes : Bytes) : '<' ∉ (encode bytes).toList := by
  rw [encode, String.toList_ofList]
  exact lt_notMem_encodeFrom bytes

end Base64

namespace Path

lemma stem_isPrefix (path : String) : (stem path).toList <+: path.toList := by
  unfold stem splitExtension
  dsimp only
  split
  · exact List.prefix_rfl
  · exact List.prefix_rfl
  · rw [String.toList_ofList]
    exact List.take_prefix _ _

lemma slash_notMem_fileName (path : String) : '/' ∉ (fileName path).toList := by
  by_cases h : ∃ c ∈ path.toList, isSlash c = true
  · obtain ⟨xs, c, ys, hpath, hc, hys⟩ := exists_last h
    rw [toList_fileName hc hys hpath]
    exact fun hslash => absurd (hys _ hslash) (by decide)
  · have hall : ∀ d ∈ path.toList, isSlash d = false := fun d hd =>
      by_contra fun hp => h ⟨d, hd, by simpa using hp⟩
    simp only [fileName, nameStart, Text.lastIndex?_eq_none hall, List.drop_zero,
      String.toList_ofList]
    exact fun hslash => absurd (hall _ hslash) (by decide)

end Path

namespace Manifest

/-- The keys and texts of a manifest. -/
def texts (m : Manifest) : List String :=
  (codec.write m).texts

lemma filepath_mem_texts_of_image {m : Manifest} {e : ImageEntry} (he : e ∈ m.images) :
    e.filepath ∈ m.texts := by
  have hentry : e.filepath ∈ (ImageEntry.codec.write e).texts := by
    simp [ImageEntry.codec, Json.Shape.codec, Json.Shape.writeMembers, Json.Member.required,
      Json.Codec.text, Json.texts, Json.memberTexts]
  refine @Json.mem_texts_of_item _ "images" _ _ _ ?_ (List.mem_map_of_mem he) hentry
  simp [shape, Json.Shape.writeMembers, entries, Json.Member.defaulted, Json.Codec.list]

lemma filepath_mem_texts_of_sound {m : Manifest} {e : SoundEntry} (he : e ∈ m.sounds) :
    e.filepath ∈ m.texts := by
  have hentry : e.filepath ∈ (SoundEntry.codec.write e).texts := by
    simp [SoundEntry.codec, Json.Shape.codec, Json.Shape.writeMembers, Json.Member.required,
      Json.Codec.text, Json.texts, Json.memberTexts]
  refine @Json.mem_texts_of_item _ "sounds" _ _ _ ?_ (List.mem_map_of_mem he) hentry
  simp [shape, Json.Shape.writeMembers, entries, Json.Member.defaulted, Json.Codec.list]

end Manifest

namespace Html

open Export (Context Error LooksOnly Output RunsOn)
open Manifest (ImageEntry SoundEntry)
open Text (ClosesScript not_closesScript)

/-- A member of a table that was filled was put there or was there before. -/
lemma mem_fill {value : String → Json} {keys : List String} {table : Table} {m : String × Json}
    (h : m ∈ fill value keys table) : (m.1 ∈ keys ∧ m.2 = value m.1) ∨ m ∈ table := by
  induction keys generalizing table with
  | nil => exact .inr h
  | cons key keys ih =>
    rcases ih h with ⟨hkey, hvalue⟩ | hm
    · exact .inl ⟨List.mem_cons_of_mem _ hkey, hvalue⟩
    · rcases Entries.mem_of_mem_put hm with rfl | hm
      · exact .inl ⟨List.mem_cons_self, rfl⟩
      · exact .inr hm

lemma not_closesScript_tableValue {r : Except Error (Option Bytes)} {s : String}
    (h : s ∈ (tableValue r).texts) : ¬ ClosesScript s.toList := by
  rcases r with _ | _ | content
  · simp [tableValue, Json.texts] at h
  · simp [tableValue, Json.texts] at h
  · obtain rfl : s = Base64.encode content := by simpa [tableValue, Json.texts] using h
    exact not_closesScript (.inl rfl) (Base64.lt_notMem_encode content)

/-- What is put in the place of an extension has no tag, and none begins before it. -/
lemma closesScript_stem {path tail : String} {rest : List Char} (htail : tail.toList = '.' :: rest)
    (hrest : ¬ ClosesScript rest) (h : ClosesScript (Path.stem path ++ tail).toList) :
    ClosesScript path.toList := by
  rw [String.toList_append, htail] at h
  have hstem := ((Text.closesScript_append_cons (by decide)).mp h).resolve_right hrest
  exact hstem.mono (Path.stem_isPrefix path).isInfix

lemma closesScript_movieVariant {path converted : String}
    (hconverted : movieVariant? path = some converted) (h : ClosesScript converted.toList) :
    ClosesScript path.toList := by
  unfold movieVariant? at hconverted
  split at hconverted <;> cases hconverted
  all_goals exact closesScript_stem rfl (by decide) h

lemma closesScript_soundVariant {path converted : String}
    (hconverted : soundVariant? path = some converted) (h : ClosesScript converted.toList) :
    ClosesScript path.toList := by
  unfold soundVariant? at hconverted
  split at hconverted <;> cases hconverted
  all_goals exact closesScript_stem rfl (by decide) h

lemma not_closesScript_binaryName (path : String) :
    ¬ ClosesScript (Export.binaryName path).toList := by
  refine not_closesScript (d := '/') (.inr rfl) fun hslash => ?_
  rw [Export.binaryName, String.toList_append, List.mem_append] at hslash
  rcases hslash with hslash | hslash
  · exact Path.slash_notMem_fileName path ((Path.stem_isPrefix _).subset hslash)
  · exact absurd hslash (by decide)

section Bundles

variable {σ : Type} [Files (StateM σ)] [LooksOnly σ] {c c' : Context} {s s' : σ}

omit [Files (StateM σ)] [LooksOnly σ] in
/-- The keys of media are paths of the manifest, or have a tag only if such a path has it. -/
lemma closesScript_mediaKey {m : Manifest} {key : String} (hkey : key ∈ mediaKeys c m)
    (h : ClosesScript key.toList) : ∃ text ∈ m.texts, ClosesScript text.toList := by
  rw [mediaKeys, List.mem_append, List.mem_flatMap, List.mem_flatMap] at hkey
  rcases hkey with ⟨e, he, hkey⟩ | ⟨e, he, hkey⟩
  · refine ⟨e.filepath, Manifest.filepath_mem_texts_of_image he, ?_⟩
    rw [List.mem_append, imagePaths, imageVariants] at hkey
    rcases hkey with hkey | hkey
    · split at hkey
      · cases hkey
      · exact List.mem_singleton.mp hkey ▸ h
    · split at hkey
      · cases hkey
      · cases hvariant : movieVariant? e.filepath with
        | none => simp [hvariant] at hkey
        | some converted =>
          rw [hvariant, Option.elim_some, List.mem_pair] at hkey
          rcases hkey with rfl | rfl
          · exact closesScript_movieVariant hvariant h
          · exact closesScript_stem rfl (by decide) h
  · refine ⟨e.filepath, Manifest.filepath_mem_texts_of_sound he, ?_⟩
    rw [List.mem_cons, soundVariants] at hkey
    rcases hkey with rfl | hkey
    · exact h
    · split at hkey
      · cases hkey
      · exact closesScript_soundVariant (Option.mem_toList.mp hkey) h

omit [Files (StateM σ)] [LooksOnly σ] in
lemma closesScript_startTable {out : Output} {path mainFile : String} {m : String × Json}
    {text : String}
    (hbinary : out.manifest.binaryFile? = out.binary.map fun _ => Export.binaryName path)
    (hm : m ∈ startTable mainFile out) (htext : text = m.1 ∨ text ∈ m.2.texts)
    (h : ClosesScript text.toList) : ClosesScript mainFile.toList := by
  have hplain (hm : m ∈ Entries.put mainFile .null [("main_file", .text mainFile)]) :
      ClosesScript mainFile.toList := by
    rcases Entries.mem_of_mem_put hm with rfl | hm
    · obtain rfl : text = mainFile := by simpa [Json.texts] using htext
      exact h
    · obtain rfl := List.mem_singleton.mp hm
      rcases htext with rfl | htext
      · have hplain : ¬ ClosesScript "main_file".toList := by decide
        exact absurd h hplain
      · exact List.mem_singleton.mp htext ▸ h
  unfold startTable at hm
  split at hm
  · next name content hname hcontent =>
    rcases Entries.mem_of_mem_put hm with rfl | hm
    · obtain rfl : name = Export.binaryName path := by simpa [hname, hcontent] using hbinary
      rcases htext with rfl | htext
      · exact absurd h (not_closesScript_binaryName path)
      · rw [List.mem_singleton.mp htext] at h
        exact absurd h (not_closesScript (.inl rfl) (Base64.lt_notMem_encode content))
    · exact hplain hm
  · exact hplain hm

variable {p : Project} {path : String} {player : Player} {html : String}

/-- The data of a bundle has a closing tag if and only if the name of the manifest, the name of a
file of the player or a text of the manifest has one. -/
theorem exportHtml_closesScript_iff (h : RunsOn (exportHtml p path player) c s html c' s') :
    ∃ out c₁ table source,
      Export.Runs (Export.exportScene p (Path.join (Path.directory path) c.config.mainFile) true) c
        out c₁ ∧
      RunsOn (dataTable out player.directory) c₁ s table c' s' ∧
      bundle player.template player.script player.style (Json.object table).compact
        (metaTag source) = .ok html ∧
      (ClosesScript (Json.object table).compact.toList ↔
        ClosesScript c.config.mainFile.toList ∨
        (∃ name ∈ c.config.runtimeAssets, ClosesScript name.toList) ∨
          ∃ text ∈ (embedded out.manifest c₁ c').texts, ClosesScript text.toList) := by
  obtain ⟨out, c₁, table, source, hexport, hdata, hbundle⟩ := runsOn_exportHtml h
  refine ⟨out, c₁, table, source, hexport, hdata, hbundle, ?_⟩
  rw [Json.compact, Json.closesScript_render, ← (Export.exportScene_keeps hexport).1]
  have hmember {key : String} {value : Json} {text : String}
      (hlookup : table.lookup key = some value)
      (htext : text = key ∨ text ∈ value.texts) : text ∈ (Json.object table).texts := by
    obtain ⟨front, back, rfl, -⟩ := List.lookup_eq_some_iff.mp hlookup
    exact Json.mem_memberTexts.mpr ⟨(key, value), by simp, htext⟩
  constructor
  · rintro ⟨text, htext, hcloses⟩
    obtain ⟨m, hm, hpart⟩ := Json.mem_memberTexts.mp htext
    obtain ⟨-, -, htable⟩ := runsOn_dataTable hdata
    rw [htable] at hm
    rcases Entries.mem_of_mem_put hm with rfl | hm
    · rcases hpart with rfl | hpart
      · exact .inl hcloses
      · rw [List.mem_singleton.mp hpart] at hcloses
        exact .inr (.inr ((Json.closesScript_render _ _).mp hcloses))
    rcases mem_fill hm with ⟨hasset, hvalue⟩ | hm
    · rcases hpart with rfl | hpart
      · exact .inr (.inl ⟨_, hasset, hcloses⟩)
      · rw [hvalue] at hpart
        exact absurd hcloses (not_closesScript_tableValue hpart)
    rcases mem_fill hm with ⟨hmedia, hvalue⟩ | hm
    · rcases hpart with rfl | hpart
      · exact .inr (.inr (closesScript_mediaKey (m := embedded out.manifest c₁ c') hmedia hcloses))
      · rw [hvalue] at hpart
        exact absurd hcloses (not_closesScript_tableValue hpart)
    · exact .inl (closesScript_startTable (Export.binaryFile?_exportScene hexport) hm hpart hcloses)
  · have hmanifest : table.lookup c₁.config.mainFile =
        some (.text ((embedded out.manifest c₁ c').toText .compact)) := by
      rw [lookup_dataTable hdata, if_pos rfl]
    rintro (hmain | ⟨name, hname, hcloses⟩ | ⟨text, htext, hcloses⟩)
    · exact ⟨_, hmember hmanifest (.inl rfl), hmain⟩
    · obtain ⟨value, hvalue⟩ : ∃ value, table.lookup name = some value := by
        rw [lookup_dataTable hdata, if_pos hname]
        split <;> exact ⟨_, rfl⟩
      exact ⟨name, hmember hvalue (.inl rfl), hcloses⟩
    · refine ⟨_, hmember hmanifest (.inr (List.mem_singleton.mpr rfl)), ?_⟩
      exact (Json.closesScript_render _ _).mpr ⟨text, htext, hcloses⟩

end Bundles

/-- A project with one empty scene of that name. -/
def hamlet (name : String) : Project :=
  { chime with scenes := [⟨name, none, [], 1, 2, 24, none, false⟩] }

/-- A name that ends a script and begins another. -/
def intruder : String := "</SCRIPT><script>alert(1)//"

/-- Whether a text of the manifest in the bundle of a project has a tag. -/
def manifestCloses (p : Project) (s : Disk) : Option Bool :=
  (Export.after (Export.exportScene p "/main.json" true) Export.blank).1.toOption.map
    fun out : Output =>
    (embedded out.manifest (Export.after (Export.exportScene p "/main.json" true) Export.blank).2
      (Export.onFiles (exportHtml p "/doc.html" barePlayer) Export.blank s).1.2).texts.any
        fun text => ClosesScript text.toList

/-- The name of a scene ends the script that the data of the bundle stand in; under another name
there is no tag. -/
theorem intruder_closesScript :
    (∃ html c' d',
      RunsOn (exportHtml (hamlet intruder) "/doc.html" barePlayer) Export.blank chimeDisk
        html c' d' ∧
      ∃ out c₁ table, RunsOn (dataTable out "/player") c₁ chimeDisk table c' d' ∧
        ClosesScript (Json.object table).compact.toList) ∧
    ∃ html c' d', RunsOn (exportHtml (hamlet "inn") "/doc.html" barePlayer) Export.blank chimeDisk
      html c' d' ∧ ∃ out c₁ table, RunsOn (dataTable out "/player") c₁ chimeDisk table c' d' ∧
        ¬ ClosesScript (Json.object table).compact.toList := by
  constructor
  · obtain ⟨html, c', d', h⟩ :=
      Export.exists_runsOn (m := exportHtml (hamlet intruder) "/doc.html" barePlayer)
      (c := Export.blank) (s := chimeDisk) (by decide +kernel)
    obtain ⟨out, c₁, table, _, hexport, hdata, -, hcloses⟩ := exportHtml_closesScript_iff h
    have hafter : Export.after (Export.exportScene (hamlet intruder) "/main.json" true)
        Export.blank = (.ok out, c₁) :=
      hexport
    have htext : manifestCloses (hamlet intruder) chimeDisk = some true := by decide +kernel
    rw [manifestCloses, hafter, h] at htext
    obtain ⟨text, hmem, htag⟩ := List.any_eq_true.mp (Option.some.inj htext)
    exact ⟨html, c', d', h, out, c₁, table, hdata,
      hcloses.mpr (.inr (.inr ⟨text, hmem, of_decide_eq_true htag⟩))⟩
  · obtain ⟨html, c', d', h⟩ :=
      Export.exists_runsOn (m := exportHtml (hamlet "inn") "/doc.html" barePlayer)
      (c := Export.blank) (s := chimeDisk) (by decide +kernel)
    obtain ⟨out, c₁, table, _, hexport, hdata, -, hcloses⟩ := exportHtml_closesScript_iff h
    have hafter : Export.after (Export.exportScene (hamlet "inn") "/main.json" true) Export.blank =
        (.ok out, c₁) :=
      hexport
    have htext : manifestCloses (hamlet "inn") chimeDisk = some false := by decide +kernel
    rw [manifestCloses, hafter, h] at htext
    refine ⟨html, c', d', h, out, c₁, table, hdata, fun hall => ?_⟩
    rcases hcloses.mp hall with hmain | ⟨name, hname, htag⟩ | ⟨text, hmem, htag⟩
    · exact absurd hmain (by decide)
    · have hassets : ∀ name ∈ Export.blank.config.runtimeAssets, ¬ ClosesScript name.toList := by
        decide
      exact absurd htag (hassets name hname)
    · exact absurd (decide_eq_true htag) (List.any_eq_false.mp (Option.some.inj htext) text hmem)

end Html

end SceneExport
