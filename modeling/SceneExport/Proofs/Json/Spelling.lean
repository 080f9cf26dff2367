import Mathlib
import SceneExport.Json.Value

/-!
# How JSON values are spelled

The writer of values puts characters behind those that are there. The characters themselves depend
on the value, the style and the depth only.
-/
namespace SceneExport.Json

/-- A text in quotes. -/
def quoted (s : String) : List Char :=
  '"' :: s.toList.flatMap escapeChar ++ ['"']

/-- The start of a line at the given depth; nothing in compact form. -/
def Style.line (style : Style) (depth : Nat) : List Char :=
  match style with
  | .compact => []
  | .wide => '\n' :: List.replicate (2 * depth) ' '

mutual

/-- The characters of a value inside `depth` containers. -/
def spell (style : Style) (depth : Nat) : Json → List Char
  | .null => ['n', 'u', 'l', 'l']
  | .bool b => if b then ['t', 'r', 'u', 'e'] else ['f', 'a', 'l', 's', 'e']
  | .number n => n.toText.toList
  | .text s => quoted s
  | .list [] => ['[', ']']
  | .list (item :: items) =>
    '[' :: spellItems style (depth + 1) true (item :: items) ++ style.line depth ++ [']']
  | .object [] => ['{', '}']
  | .object (m :: ms) =>
    '{' :: spellMembers style (depth + 1) true (m :: ms) ++ style.line depth ++ ['}']

def spellItems (style : Style) (depth : Nat) (first : Bool) : List Json → List Char
  | [] => []
  | item :: items =>
    (if first then [] else [',']) ++ style.line depth ++ spell style depth item ++
      spellItems style depth false items

def spellMembers (style : Style) (depth : Nat) (first : Bool) : List (String × Json) → List Char
  | [] => []
  | (key, value) :: members =>
    (if first then [] else [',']) ++ style.line depth ++ quoted key ++ style.colon.toList ++
      spell style depth value ++ spellMembers style depth false members

end

lemma toList_pushAll (out : String) (cs : List Char) :
    (pushAll out cs).toList = out.toList ++ cs := by
  unfold pushAll
  induction cs generalizing out with
  | nil => simp
  | cons c cs ih => simp [ih]

lemma toList_writeText (out s : String) : (writeText out s).toList = out.toList ++ quoted s := by
  have hfold : ∀ (cs : List Char) (out : String),
      (cs.foldl (fun out c => pushAll out (escapeChar c)) out).toList =
        out.toList ++ cs.flatMap escapeChar := by
    intro cs
    induction cs with
    | nil => simp
    | cons c cs ih =>
      intro out
      rw [List.foldl_cons, ih, toList_pushAll, List.flatMap_cons, List.append_assoc]
  simp [writeText, quoted, hfold]

lemma toList_newLine (style : Style) (depth : Nat) (out : String) :
    (style.newLine depth out).toList = out.toList ++ style.line depth := by
  cases style with
  | compact => simp [Style.newLine, Style.line]
  | wide => simp [Style.newLine, Style.line, toList_pushAll]

lemma toList_separate (style : Style) (depth : Nat) (first : Bool) (out : String) :
    (style.separate depth first out).toList =
      out.toList ++ (if first then [] else [',']) ++ style.line depth := by
  cases first <;> simp [Style.separate, toList_newLine]

mutual

/-- The writer puts the spelling of a value behind what is there. -/
theorem toList_write (style : Style) (depth : Nat) (out : String) :
    (v : Json) → (write style depth out v).toList = out.toList ++ spell style depth v
  | .null => by simp [write, spell]
  | .bool b => by cases b <;> simp [write, spell]
  | .number n => by simp [write, spell]
  | .text s => by rw [write, spell, toList_writeText]
  | .list [] => by simp [write, spell]
  | .list (item :: items) => by
    rw [write, spell, String.toList_push, toList_newLine,
      toList_writeItems style _ _ _ (item :: items)]
    simp
  | .object [] => by simp [write, spell]
  | .object (m :: ms) => by
    rw [write, spell, String.toList_push, toList_newLine, toList_writeMembers style _ _ _ (m :: ms)]
    simp

theorem toList_writeItems (style : Style) (depth : Nat) (out : String) (first : Bool) :
    (items : List Json) → (writeItems style depth out first items).toList =
      out.toList ++ spellItems style depth first items
  | [] => by simp [writeItems, spellItems]
  | item :: items => by
    rw [writeItems, spellItems, toList_writeItems style _ _ _ items, toList_write style _ _ item,
      toList_separate]
    simp

theorem toList_writeMembers (style : Style) (depth : Nat) (out : String) (first : Bool) :
    (members : List (String × Json)) → (writeMembers style depth out first members).toList =
      out.toList ++ spellMembers style depth first members
  | [] => by simp [writeMembers, spellMembers]
  | (key, value) :: members => by
    rw [writeMembers, spellMembers, toList_writeMembers style _ _ _ members,
      toList_write style _ _ value, String.toList_append, toList_writeText, toList_separate]
    simp

end

theorem toList_render (style : Style) (v : Json) : (v.render style).toList = spell style 0 v := by
  rw [render, toList_write]
  rfl

/-- Objects start with a brace. -/
lemma head?_render_object (style : Style) (members : List (String × Json)) :
    ((Json.object members).render style).toList.head? = some '{' := by
  rw [toList_render]
  cases members <;> simp [spell]

end SceneExport.Json
