import Mathlib
import SceneExport.Proofs.Basics
import SceneExport.Text.Basic

/-!
# Where a pattern stands

A pattern is found in a text if and only if the text has it as consecutive characters. A pattern
without a certain character is found in a text that has this character if and only if it is found
before or behind it. The last character of a kind is the one that no other of the kind stands
behind.
-/
namespace SceneExport.Text

lemma isSome_dropPattern? (pattern cs : List Char) :
    (dropPattern? pattern cs).isSome = true ↔ pattern <+: cs := by
  induction pattern, cs using dropPattern?.induct with
  | case1 cs => simp [dropPattern?]
  | case2 p ps => simp [dropPattern?]
  | case3 p ps cs ih => simp [dropPattern?, List.prefix_cons_iff, ih]
  | case4 p ps c cs hne => simp [dropPattern?, List.prefix_cons_iff, hne]

lemma isSome_cutAt? (pattern cs : List Char) :
    (cutAt? pattern cs).isSome = true ↔ pattern <:+: cs := by
  induction cs with
  | nil => cases pattern <;> simp [cutAt?]
  | cons c cs ih =>
    have hhere := isSome_dropPattern? pattern (c :: cs)
    rw [List.infix_cons_iff, ← hhere, ← ih, cutAt?]
    cases dropPattern? pattern (c :: cs) <;> simp

theorem contains_iff {text pattern : String} :
    contains text pattern = true ↔ pattern.toList <:+: text.toList :=
  isSome_cutAt? _ _

variable {p : Char → Bool} {cs xs ys : List Char} {c : Char}

lemma lastIndex?_eq_none (h : ∀ d ∈ cs, p d = false) : lastIndex? p cs = none := by
  induction cs with
  | nil => rfl
  | cons c cs ih =>
    obtain ⟨hc, hcs⟩ := List.forall_mem_cons.1 h
    rw [lastIndex?, ih hcs]
    simp [hc]

lemma lastIndex?_append_cons (xs : List Char) (hc : p c = true) (hys : ∀ d ∈ ys, p d = false) :
    lastIndex? p (xs ++ c :: ys) = some xs.length := by
  induction xs with
  | nil => simp [lastIndex?, lastIndex?_eq_none hys, hc]
  | cons x xs ih => rw [List.cons_append, lastIndex?, ih, List.length_cons]

end SceneExport.Text
