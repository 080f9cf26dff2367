import Mathlib
import SceneExport.Html.MetaTag
import SceneExport.Proofs.Basics

/-!
# The tag that leads back is found

The writer escapes character by character, while the reader replaces one entity after another in the
whole text. After each replacement the text is what a writer with the remaining entities would have
written: an ampersand always starts an entity, because the ampersand itself is the last one to be
replaced. So in the end the text is the one that was escaped.

The tag is the first one of the document when nothing before it starts a `meta` tag.
-/
namespace SceneExport

namespace Text

variable {pattern value : List Char}

lemma dropPattern?_append (pattern rest : List Char) :
    dropPattern? pattern (pattern ++ rest) = some rest := by
  induction pattern with
  | nil => rfl
  | cons p ps ih => simp [dropPattern?, ih]

/-- The characters of an occurrence are passed over. -/
lemma replaceFrom_skip (xs rest : List Char) :
    replaceFrom pattern value xs.length (xs ++ rest) = replaceFrom pattern value 0 rest := by
  induction xs with
  | nil => rfl
  | cons x xs ih => exact ih

lemma replaceFrom_pattern (hpattern : pattern ≠ []) (rest : List Char) :
    replaceFrom pattern value 0 (pattern ++ rest) = value ++ replaceFrom pattern value 0 rest := by
  cases pattern with
  | nil => exact absurd rfl hpattern
  | cons p ps =>
    have hfound := dropPattern?_append (p :: ps) rest
    rw [List.cons_append] at hfound ⊢
    rw [replaceFrom, hfound]
    exact congrArg (value ++ ·) (replaceFrom_skip ps rest)

/-- Characters that the pattern does not start with are kept. -/
lemma replaceFrom_keep {p : Char} {xs : List Char} (hxs : p ∉ xs) (ps rest : List Char) :
    replaceFrom (p :: ps) value 0 (xs ++ rest) = xs ++ replaceFrom (p :: ps) value 0 rest := by
  induction xs with
  | nil => rfl
  | cons x xs ih =>
    simp only [List.mem_cons, not_or] at hxs
    rw [List.cons_append, replaceFrom, dropPattern?, if_neg hxs.1]
    exact congrArg (x :: ·) (ih hxs.2)

end Text

namespace Html

open Text (isBlank replaceFrom)

/-- How a character is written with a table of entities. -/
def spell (table : List (String × String)) (c : Char) : List Char :=
  match table with
  | [] => [c]
  | (entity, value) :: table => if value.toList = [c] then entity.toList else spell table c

lemma escapeChar_eq_spell (c : Char) : escapeChar c = spell entities c := by
  by_cases hamp : c = '&'
  · subst hamp
    rfl
  · have hvalue : ∀ d : Char, ([d] = [c]) = (c = d) := fun d => by simp [eq_comm]
    -- both go through the other characters in the same order
    change _ = if ['"'] = [c] then _ else if ['\''] = [c] then _ else if ['<'] = [c] then _ else
      if ['>'] = [c] then _ else if ['&'] = [c] then _ else _
    rw [escapeChar, if_neg hamp]
    simp only [hvalue, if_neg hamp]
    rfl

/-- An ampersand with further characters behind it, none of which is an ampersand. -/
def IsEntity (entity : String) : Prop :=
  ∃ mark body, entity.toList = '&' :: mark :: body ∧ '&' ∉ mark :: body

/-- The character that tells an entity from the others. -/
def markOf (entity : String) : Option Char := entity.toList[1]?

/-- Entities that can be replaced one after another: each is told from those behind it by its second
character, and the last one stands for the ampersand. -/
inductive Orderly : List (String × String) → Prop
  | last {entity : String} : IsEntity entity → Orderly [(entity, "&")]
  | cons {entity value : String} {table : List (String × String)} : IsEntity entity →
    (∀ p ∈ table, markOf p.1 ≠ markOf entity ∧ p.2 ≠ value) → Orderly table →
    Orderly ((entity, value) :: table)

lemma orderly_entities : Orderly entities := by
  refine .cons ⟨'q', "uot;".toList, by decide, by decide⟩ (by decide) ?_
  refine .cons ⟨'#', "39;".toList, by decide, by decide⟩ (by decide) ?_
  refine .cons ⟨'l', "t;".toList, by decide, by decide⟩ (by decide) ?_
  refine .cons ⟨'g', "t;".toList, by decide, by decide⟩ (by decide) ?_
  exact .last ⟨'a', "mp;".toList, by decide, by decide⟩

lemma spell_of_forall {table : List (String × String)} {value : String} {c : Char}
    (hc : value.toList = [c]) (h : ∀ p ∈ table, p.2 ≠ value) : spell table c = [c] := by
  induction table with
  | nil => rfl
  | cons p table ih =>
    have hp : p.2.toList ≠ [c] := by
      rw [← hc]
      exact fun heq => h p List.mem_cons_self (String.toList_inj.mp heq)
    rw [spell, if_neg hp]
    exact ih fun q hq => h q (List.mem_cons_of_mem _ hq)

/-- A character is written as one of the entities, or as itself, and then it is no ampersand. -/
lemma Orderly.spell_cases {table : List (String × String)} (h : Orderly table) (c : Char) :
    (∃ p ∈ table, IsEntity p.1 ∧ spell table c = p.1.toList) ∨ (spell table c = [c] ∧ c ≠ '&') := by
  induction h with
  | last hentity =>
    by_cases hc : c = '&'
    · exact .inl ⟨_, List.mem_singleton_self _, hentity, by simp [spell, hc]⟩
    · exact .inr ⟨by simp [spell, Ne.symm hc], hc⟩
  | @cons entity value table hentity _ _ ih =>
    by_cases hc : value.toList = [c]
    · exact .inl ⟨_, List.mem_cons_self, hentity, by simp [spell, hc]⟩
    · rw [spell, if_neg hc]
      exact ih.imp_left fun ⟨p, hp, hrest⟩ => ⟨p, List.mem_cons_of_mem _ hp, hrest⟩

section Replacing

variable {entity value : String}

/-- The entity itself is replaced. -/
lemma replaceFrom_entity (hentity : IsEntity entity) (rest : List Char) :
    replaceFrom entity.toList value.toList 0 (entity.toList ++ rest) =
      value.toList ++ replaceFrom entity.toList value.toList 0 rest := by
  obtain ⟨mark, body, hchars, -⟩ := hentity
  exact Text.replaceFrom_pattern (by simp [hchars]) rest

/-- Another entity is kept. -/
lemma replaceFrom_other {other : String} (hentity : IsEntity entity) (hother : IsEntity other)
    (hne : markOf other ≠ markOf entity) (rest : List Char) :
    replaceFrom entity.toList value.toList 0 (other.toList ++ rest) =
      other.toList ++ replaceFrom entity.toList value.toList 0 rest := by
  obtain ⟨mark, body, hchars, -⟩ := hentity
  obtain ⟨mark', body', hchars', hbody'⟩ := hother
  rw [markOf, markOf, hchars, hchars'] at hne
  have hmark : mark ≠ mark' := by simpa [eq_comm] using hne
  have hdrop : Text.dropPattern? ('&' :: mark :: body) ('&' :: mark' :: (body' ++ rest)) =
      none := by
    simp [Text.dropPattern?, hmark]
  rw [hchars, hchars', List.cons_append, List.cons_append, replaceFrom, hdrop]
  exact congrArg ('&' :: ·) (Text.replaceFrom_keep hbody' _ rest)

lemma replaceFrom_char (hentity : IsEntity entity) {c : Char} (hc : c ≠ '&') (rest : List Char) :
    replaceFrom entity.toList value.toList 0 (c :: rest) =
      c :: replaceFrom entity.toList value.toList 0 rest := by
  obtain ⟨mark, body, hchars, -⟩ := hentity
  have hkeep : '&' ∉ [c] := by simpa using Ne.symm hc
  rw [hchars]
  exact Text.replaceFrom_keep hkeep _ rest

/-- A replacement that turns the written form `f c` of each character into `g c` does so
everywhere. -/
lemma replace_flatMap {f g : Char → List Char}
    (h : ∀ c rest, replaceFrom entity.toList value.toList 0 (f c ++ rest) =
      g c ++ replaceFrom entity.toList value.toList 0 rest)
    (cs : List Char) : Text.replace entity value (cs.flatMap f) = cs.flatMap g := by
  unfold Text.replace
  induction cs with
  | nil => rfl
  | cons c cs ih => rw [List.flatMap_cons, h, ih, List.flatMap_cons]

end Replacing

/-- Replacing the first entity leaves the text that is written with the others. -/
lemma Orderly.replace {entity value : String} {table : List (String × String)} (h : Orderly table)
    (hentity : IsEntity entity) (hnew : ∀ p ∈ table, markOf p.1 ≠ markOf entity ∧ p.2 ≠ value)
    (cs : List Char) :
    Text.replace entity value (cs.flatMap (spell ((entity, value) :: table))) =
      cs.flatMap (spell table) := by
  refine replace_flatMap (fun c rest => ?_) cs
  by_cases hc : value.toList = [c]
  · rw [spell, if_pos hc, replaceFrom_entity hentity, spell_of_forall hc fun p hp =>
      (hnew p hp).2, hc]
  · rw [spell, if_neg hc]
    rcases h.spell_cases c with ⟨p, hp, hother, hspell⟩ | ⟨hspell, hamp⟩
    · rw [hspell]
      exact replaceFrom_other hentity hother (hnew p hp).1 rest
    · rw [hspell]
      exact replaceFrom_char hentity hamp rest

lemma replace_last {entity : String} (hentity : IsEntity entity) (cs : List Char) :
    Text.replace entity "&" (cs.flatMap (spell [(entity, "&")])) = cs := by
  have hsingle : Text.replace entity "&" (cs.flatMap (spell [(entity, "&")])) =
      cs.flatMap fun c => [c] := by
    refine replace_flatMap (fun c rest => ?_) cs
    by_cases hc : c = '&'
    · subst hc
      exact replaceFrom_entity hentity rest
    · rw [spell, if_neg (by simpa using Ne.symm hc)]
      exact replaceFrom_char hentity hc rest
  simpa using hsingle

/-- Replacing all entities in turn gives back the text that was written with them. -/
theorem Orderly.foldl_replace {table : List (String × String)} (h : Orderly table)
    (cs : List Char) :
    table.foldl (fun cs (entity, value) => Text.replace entity value cs)
      (cs.flatMap (spell table)) = cs := by
  induction h with
  | last hentity => exact replace_last hentity cs
  | cons hentity hnew htable ih =>
    rw [List.foldl_cons]
    dsimp only
    rw [htable.replace hentity hnew, ih]

theorem unescape_escape (s : String) : unescape (escape s).toList = s.toList := by
  have hspell : escapeChar = spell entities := funext escapeChar_eq_spell
  rw [escape, String.toList_ofList, hspell]
  exact orderly_entities.foldl_replace s.toList

/-- No quote and no angle bracket is left in an escaped text. -/
lemma notMem_escape {c : Char} (hc : c = '\'' ∨ c = '>') (s : String) : c ∉ (escape s).toList := by
  have hentities : ∀ p ∈ entities, c ∉ p.1.toList := by
    rcases hc with rfl | rfl <;> decide
  have hspell : spell entities c ≠ [c] := by
    rcases hc with rfl | rfl <;> decide
  rw [escape, String.toList_ofList, List.mem_flatMap]
  rintro ⟨d, -, hd⟩
  rw [escapeChar_eq_spell] at hd
  rcases orderly_entities.spell_cases d with ⟨p, hp, -, hwritten⟩ | ⟨hwritten, -⟩
  · exact hentities p hp (hwritten ▸ hd)
  · obtain rfl : c = d := List.mem_singleton.mp (hwritten ▸ hd)
    exact hspell hwritten

lemma isSome_dropFolded? (pattern cs : List Char) :
    (dropFolded? pattern cs).isSome = true ↔ pattern <+: cs.map Text.asciiLower := by
  induction pattern, cs using dropFolded?.induct with
  | case1 cs => simp [dropFolded?]
  | case2 p ps => simp [dropFolded?]
  | case3 ps c cs ih => simp [dropFolded?, List.prefix_cons_iff, ih]
  | case4 p ps c cs hne => simp [dropFolded?, List.prefix_cons_iff, hne]

theorem behindMeta?_append {front : List Char} (h : ¬ "<meta".toList <:+: front.map Text.asciiLower)
    (rest : List Char) : behindMeta? (front ++ ("<meta".toList ++ rest)) = some rest := by
  induction front with
  | nil => rfl
  | cons c front ih =>
    rw [List.map_cons, List.infix_cons_iff, not_or] at h
    have hdrop : dropFolded? "<meta".toList (c :: (front ++ ("<meta".toList ++ rest))) = none := by
      rw [← Option.not_isSome_iff_eq_none, isSome_dropFolded?, ← List.cons_append, List.map_append]
      intro hprefix
      exact h.1 (prefix_of_prefix_append (by decide) (by simp) hprefix)
    rw [List.cons_append, behindMeta?, hdrop]
    exact ih h.2

section Attributes

variable {key value : List Char}

lemma readAssignment_quoted (hvalue : '\'' ∉ value) (rest : List Char) :
    readAssignment ('=' :: '\'' :: (value ++ '\'' :: rest)) = (value, rest) := by
  have hopen : isBlank '\'' = false := by decide
  have hinside : ∀ c ∈ value, decide (c ≠ '\'') = true := fun c hc =>
    decide_eq_true fun heq => hvalue (heq ▸ hc)
  rw [readAssignment, List.dropWhile_cons_of_neg (Bool.eq_false_iff.mp hopen), readValue,
    List.takeWhile_append_of_pos hinside, List.dropWhile_append_of_pos hinside]
  simp

/-- An attribute in single quotes is read as it stands there; its name is in small letters. -/
lemma attributesFrom_append (hkey : key ≠ []) (hchars : ∀ c ∈ key, isKeyChar c = true)
    (hsmall : key.map Text.asciiLower = key) (hvalue : '\'' ∉ value) (rest : List Char) :
    attributesFrom (key ++ '=' :: '\'' :: (value ++ '\'' :: rest)) =
      ⟨key, value⟩ :: attributesFrom (rest.dropWhile isGap) := by
  have hequal : isKeyChar '=' = false := by decide
  have hblank : isBlank '=' = false := by decide
  set tail := '=' :: '\'' :: (value ++ '\'' :: rest) with htail
  have hbehind : ((key ++ tail).dropWhile isKeyChar).dropWhile isBlank = tail := by
    rw [List.dropWhile_append_of_pos hchars, htail,
      List.dropWhile_cons_of_neg (Bool.eq_false_iff.mp hequal),
      List.dropWhile_cons_of_neg (Bool.eq_false_iff.mp hblank)]
  have hfront : (key ++ tail).takeWhile isKeyChar = key := by
    rw [List.takeWhile_append_of_pos hchars, htail,
      List.takeWhile_cons_of_neg (Bool.eq_false_iff.mp hequal), List.append_nil]
  have hassigned : readAssignment tail = (value, rest) := readAssignment_quoted hvalue rest
  have hat : attributeAt (key ++ tail) = ⟨key, value⟩ := by
    rw [attributeAt, hfront, hbehind, hassigned, hsmall]
  have hnext : behindAttribute (key ++ tail) = rest.dropWhile isGap := by
    rw [behindAttribute, hbehind, hassigned]
  obtain ⟨c, cs, hcons⟩ : ∃ c cs, key ++ tail = c :: cs := by
    cases key with
    | nil => exact absurd rfl hkey
    | cons c cs => exact ⟨c, cs ++ tail, rfl⟩
  rw [hcons] at hat hnext ⊢
  rw [attributesFrom, hat, hnext]
  simp [hkey]

end Attributes

/-- What stands in the tag behind `<meta`. -/
def inside (project : String) : List Char :=
  ' ' :: ("name".toList ++ '=' :: '\'' :: (metaName.toList ++ '\'' :: ' ' ::
    ("content".toList ++ '=' :: '\'' :: ((escape project).toList ++ '\'' :: ['/']))))

lemma toList_metaTag (project : String) :
    (metaTag project).toList = "<meta".toList ++ (inside project ++ ['>']) := by
  rw [metaTag, String.toList_append, String.toList_append, String.toList_append,
    String.toList_append, inside]
  simp only [List.append_assoc, List.cons_append, List.nil_append]
  rfl

lemma attributes_inside (project : String) : attributes (inside project) =
    [⟨"name".toList, metaName.toList⟩, ⟨"content".toList, (escape project).toList⟩] := by
  have hblank : ∀ rest, (' ' :: ("name".toList ++ rest)).dropWhile isBlank =
      "name".toList ++ rest :=
    fun _ => rfl
  have hgap : ∀ rest, (' ' :: ("content".toList ++ rest)).dropWhile isGap =
      "content".toList ++ rest :=
    fun _ => rfl
  have hend : attributesFrom (['/'].dropWhile isGap) = [] := by
    have hslash : ['/'].dropWhile isGap = [] := by decide
    rw [hslash, attributesFrom]
  have hname : ∀ c ∈ "name".toList, isKeyChar c = true := List.all_eq_true.mp rfl
  have hcontent : ∀ c ∈ "content".toList, isKeyChar c = true := List.all_eq_true.mp rfl
  rw [attributes, inside, hblank, attributesFrom_append (by decide) hname rfl (by decide), hgap,
    attributesFrom_append (by decide) hcontent rfl (notMem_escape (.inl rfl) project), hend]

lemma contentOf?_inside (project : String) : contentOf? (inside project) = some project := by
  have hother : ("name".toList = "content".toList) = False := eq_false (by decide)
  rw [contentOf?, attributes_inside]
  simp only [List.any_cons, decide_true, Bool.and_self, Bool.true_or, if_true,
    List.find?_cons, hother, decide_false, Option.map_some, unescape_escape, String.ofList_toList]

lemma notMem_inside (project : String) : '>' ∉ inside project := by
  have hescape := notMem_escape (.inr rfl) project
  have hname : '>' ∉ "name".toList ∧ '>' ∉ metaName.toList ∧ '>' ∉ "content".toList := by decide
  simp only [inside, List.mem_cons, List.mem_append, hescape, hname, not_or]
  decide

/-- A document leads back to the project that the tag in it was written for, whatever stands behind
the tag, if no `meta` tag starts before it. -/
theorem findProject?_metaTag (front back project : String)
    (hfront : ¬ "<meta".toList <:+: front.toList.map Text.asciiLower) :
    findProject? (front ++ metaTag project ++ back) = some project := by
  have hdocument : (front ++ metaTag project ++ back).toList =
      front.toList ++ ("<meta".toList ++ (inside project ++ '>' :: back.toList)) := by
    simp only [String.toList_append, toList_metaTag, List.append_assoc, List.cons_append,
      List.nil_append]
  have hopen : ∀ c ∈ inside project, decide (c ≠ '>') = true := fun c hc =>
    decide_eq_true fun heq => notMem_inside project (heq ▸ hc)
  have htag : (inside project ++ '>' :: back.toList).takeWhile (· ≠ '>') = inside project := by
    rw [List.takeWhile_append_of_pos hopen]
    simp
  rw [findProject?, hdocument, findFrom, behindMeta?_append hfront]
  dsimp only
  rw [htag, contentOf?_inside]

/-- Quotes, a text that looks like an entity, an angle bracket and a line feed, behind a tag that
only starts like a `meta` tag. -/
theorem sketch_findProject? :
    ¬ "<meta".toList <:+: "<HTML><met<".toList.map Text.asciiLower ∧
      findProject?
        ("<HTML><met<" ++ metaTag "it's \"a\" &amp;lt; b>\n&quot;é" ++ "<meta content=x>") =
        some "it's \"a\" &amp;lt; b>\n&quot;é" :=
  ⟨by decide, findProject?_metaTag _ _ _ (by decide)⟩

end Html

end SceneExport
