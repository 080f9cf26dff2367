import SceneExport.Text.Basic

/-!
# The tag that leads back to the project

An HTML bundle names its project in a `meta` tag. Reading goes over all `meta` tags of a document,
well formed or not, and takes the content of the first one that has the right name and a content.
-/
namespace SceneExport.Html

open Text (isBlank)

/-- The name of the tag. -/
def metaName : String := "b4w_export_path_html"

/-- A character of an attribute in single quotes. -/
def escapeChar (c : Char) : List Char :=
  if c = '&' then "&amp;".toList
  else if c = '"' then "&quot;".toList
  else if c = '\'' then "&#39;".toList
  else if c = '<' then "&lt;".toList
  else if c = '>' then "&gt;".toList
  else [c]

def escape (s : String) : String :=
  String.ofList (s.toList.flatMap escapeChar)

def metaTag (project : String) : String :=
  "<meta name='" ++ metaName ++ "' content='" ++ escape project ++ "'/>"

/-- The characters that entities stand for; the ampersand comes last, so no entity is made up from
parts of others. -/
def entities : List (String × String) :=
  [("&quot;", "\""), ("&#39;", "'"), ("&lt;", "<"), ("&gt;", ">"), ("&amp;", "&")]

def unescape (cs : List Char) : List Char :=
  entities.foldl (fun cs (entity, value) => Text.replace entity value cs) cs

/-- The characters of the name of an attribute. -/
def isKeyChar (c : Char) : Bool :=
  c ≠ '=' && !isBlank c && c ≠ '/'

/-- The characters between two attributes. -/
def isGap (c : Char) : Bool :=
  isBlank c || c = '/'

/-- A value and the text behind it; the value may be in quotes of either kind. -/
def readValue (cs : List Char) : List Char × List Char :=
  match cs with
  | '\'' :: body => (body.takeWhile (· ≠ '\''), (body.dropWhile (· ≠ '\'')).drop 1)
  | '"' :: body => (body.takeWhile (· ≠ '"'), (body.dropWhile (· ≠ '"')).drop 1)
  | _ => (cs.takeWhile (!isBlank ·), cs.dropWhile (!isBlank ·))

/-- The value behind the name of an attribute, if there is one, and the text behind it. -/
def readAssignment (cs : List Char) : List Char × List Char :=
  match cs with
  | '=' :: rest => readValue (rest.dropWhile isBlank)
  | _ => ([], cs)

structure Attribute where
  key : List Char
  value : List Char

/-- The attribute at the start of a text. -/
def attributeAt (cs : List Char) : Attribute where
  key := (cs.takeWhile isKeyChar).map Text.asciiLower
  value := (readAssignment ((cs.dropWhile isKeyChar).dropWhile isBlank)).1

/-- The text behind the attribute at the start of a text. -/
def behindAttribute (cs : List Char) : List Char :=
  (readAssignment ((cs.dropWhile isKeyChar).dropWhile isBlank)).2.dropWhile isGap

theorem length_dropWhile_le {α : Type} (p : α → Bool) (l : List α) :
    (l.dropWhile p).length ≤ l.length :=
  (List.dropWhile_sublist p).length_le

theorem length_readValue_le (cs : List Char) : (readValue cs).2.length ≤ cs.length := by
  unfold readValue
  split
  · rename_i body
    have := length_dropWhile_le (· ≠ '\'') body
    simp only [List.length_drop, List.length_cons]
    omega
  · rename_i body
    have := length_dropWhile_le (· ≠ '"') body
    simp only [List.length_drop, List.length_cons]
    omega
  · exact length_dropWhile_le _ _

theorem length_readAssignment_le (cs : List Char) : (readAssignment cs).2.length ≤ cs.length := by
  unfold readAssignment
  split
  · rename_i rest
    have := length_readValue_le (rest.dropWhile isBlank)
    have := length_dropWhile_le isBlank rest
    simp only [List.length_cons]
    omega
  · exact Nat.le_refl _

/-- Every attribute takes at least one character. -/
theorem length_behindAttribute_lt (c : Char) (cs : List Char) :
    (behindAttribute (c :: cs)).length < (c :: cs).length := by
  have keys := length_dropWhile_le isKeyChar cs
  have blanks := length_dropWhile_le isBlank
  have assigned := length_readAssignment_le
  have gaps := length_dropWhile_le isGap
  unfold behindAttribute
  by_cases key : isKeyChar c
  · rw [List.dropWhile_cons_of_pos key]
    have h1 := blanks (cs.dropWhile isKeyChar)
    have h2 := assigned ((cs.dropWhile isKeyChar).dropWhile isBlank)
    have h3 := gaps (readAssignment ((cs.dropWhile isKeyChar).dropWhile isBlank)).2
    simp only [List.length_cons]
    omega
  · rw [List.dropWhile_cons_of_neg key]
    by_cases blank : isBlank c
    · rw [List.dropWhile_cons_of_pos blank]
      have h1 := blanks cs
      have h2 := assigned (cs.dropWhile isBlank)
      have h3 := gaps (readAssignment (cs.dropWhile isBlank)).2
      simp only [List.length_cons]
      omega
    · rw [List.dropWhile_cons_of_neg blank]
      by_cases equal : c = '='
      · subst equal
        have h1 := length_readValue_le (cs.dropWhile isBlank)
        have h2 := blanks cs
        have h3 := gaps (readValue (cs.dropWhile isBlank)).2
        simp only [readAssignment, List.length_cons]
        omega
      · have slash : c = '/' := by
          simp only [isKeyChar] at key
          simpa [blank, equal] using key
        subst slash
        have h1 := gaps cs
        have h2 : readAssignment ('/' :: cs) = ([], '/' :: cs) := rfl
        rw [h2, List.dropWhile_cons_of_pos (by simp [isGap])]
        simp only [List.length_cons]
        omega

/-- All attributes that have a name. -/
def attributesFrom : List Char → List Attribute
  | [] => []
  | c :: cs =>
    let first := attributeAt (c :: cs)
    let rest := attributesFrom (behindAttribute (c :: cs))
    if first.key.isEmpty then rest else first :: rest
termination_by cs => cs.length
decreasing_by exact length_behindAttribute_lt c cs

def attributes (tag : List Char) : List Attribute :=
  attributesFrom (tag.dropWhile isBlank)

/-- What follows a pattern in small letters when a text starts with it, in letters of either
size. -/
def dropFolded? : (pattern cs : List Char) → Option (List Char)
  | [], cs => some cs
  | _ :: _, [] => none
  | p :: ps, c :: cs => if p = Text.asciiLower c then dropFolded? ps cs else none

/-- The text behind the next `<meta`. -/
def behindMeta? : List Char → Option (List Char)
  | [] => none
  | c :: cs =>
    match dropFolded? "<meta".toList (c :: cs) with
    | some rest => some rest
    | none => behindMeta? cs

/-- The content of a tag, if it is the one that leads back to the project. -/
def contentOf? (tag : List Char) : Option String :=
  let found := attributes tag
  if found.any fun a => a.key = "name".toList && a.value = metaName.toList then
    (found.find? fun a => a.key = "content".toList).map fun a => String.ofList (unescape a.value)
  else none

theorem length_dropFolded_le {pattern cs rest : List Char}
    (h : dropFolded? pattern cs = some rest) : rest.length + pattern.length ≤ cs.length := by
  induction pattern generalizing cs with
  | nil =>
    simp only [dropFolded?, Option.some.injEq] at h
    simp [h]
  | cons p ps ih =>
    cases cs with
    | nil => simp [dropFolded?] at h
    | cons c cs =>
      simp only [dropFolded?] at h
      split at h
      · have := ih h
        simp only [List.length_cons]
        omega
      · simp at h

theorem length_behindMeta_lt {cs rest : List Char} (h : behindMeta? cs = some rest) :
    rest.length < cs.length := by
  induction cs with
  | nil => simp [behindMeta?] at h
  | cons c cs ih =>
    simp only [behindMeta?] at h
    split at h
    · rename_i found
      have := length_dropFolded_le found
      have five : "<meta".toList.length = 5 := rfl
      simp only [Option.some.injEq] at h
      subst h
      omega
    · have := ih h
      simp only [List.length_cons]
      omega

/-- Goes over all `meta` tags. A tag without an end goes on to the end of the document. -/
def findFrom (cs : List Char) : Option String :=
  match _found : behindMeta? cs with
  | none => none
  | some rest =>
    match contentOf? (rest.takeWhile (· ≠ '>')) with
    | some content => some content
    | none => findFrom (rest.dropWhile (· ≠ '>'))
termination_by cs.length
decreasing_by
  exact Nat.lt_of_le_of_lt (length_dropWhile_le _ _) (length_behindMeta_lt _found)

/-- The project that a document names. -/
def findProject? (document : String) : Option String :=
  findFrom document.toList

end SceneExport.Html
