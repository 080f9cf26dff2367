import Mathlib
import SceneExport.Proofs.Path.Places

/-!
# Normal spellings

The normal spelling of a path is that of the place it is read as. It names the same place, and is
its own normal spelling, unless the place is a relative one that is spelled like one on a drive:
`./c:/x` becomes `c:/x`. Such a spelling is read as a path on that drive, and spelled again it has a
capital letter.
-/
namespace SceneExport.Path

namespace Place

variable {p : Place} {name rest : Name} {names : List Name} {letter : Char}

/-- Behind a name there is no way up. -/
lemma Regular.parentName_notMem (hp : p.Regular) (hnames : p.names = name :: names)
    (hname : name ≠ parentName) : parentName ∉ names := by
  obtain ⟨n, down, hpassed, hdown, -⟩ := hp.normal.exists_up
  have hsplit : name :: names = List.replicate n parentName ++ down.reverse := by
    rw [← hnames, ← List.reverse_reverse p.names, hpassed, List.reverse_append,
      List.reverse_replicate]
  cases n with
  | zero =>
    intro hin
    rw [List.replicate_zero, List.nil_append] at hsplit
    exact hdown (List.mem_reverse.mp (hsplit ▸ List.mem_cons_of_mem _ hin))
  | succ n =>
    rw [List.replicate_succ, List.cons_append] at hsplit
    exact absurd (List.cons.inj hsplit).1 hname

lemma length_joinNames_lt (name : Name) (names : List Name) (hne : name ≠ []) :
    (joinNames names).length < (joinNames (name :: names)).length := by
  have hpos := List.length_pos_iff.mpr hne
  by_cases hnil : names = []
  · subst hnil
    exact hpos
  · rw [joinNames_cons name hnil, List.length_append, List.length_cons]
    omega

/-- What stands behind the letter is the spelling of a place on the drive, unless it starts with a
dot. -/
lemma exists_behind_letter (hslash : '/' ∉ rest) (hback : '\\' ∉ rest) (hdot : rest ≠ ['.'])
    (hproper : ∀ name ∈ names, Proper name) (hdown : parentName ∉ names) :
    ∃ absolute names', Normal absolute names'.reverse ∧
      joinNames (rest :: names) = if absolute then '/' :: joinNames names'
      else joinNames names' := by
  have hproper' : ∀ name ∈ names.reverse, Proper name := fun name hname =>
    hproper name (List.mem_reverse.mp hname)
  have hdown' : parentName ∉ names.reverse := by simpa using hdown
  by_cases hrest : rest = []
  · subst hrest
    by_cases hnil : names = []
    · subst hnil
      exact ⟨false, [], .nil, rfl⟩
    · refine ⟨true, names, ?_, by rw [joinNames_cons [] hnil]; rfl⟩
      simpa using Normal.nil.append hproper' hdown'
  · have hname : Proper rest := ⟨hrest, hdot, hslash, hback⟩
    have hfirst : Normal false [rest] := by
      by_cases hparent : rest = parentName
      · subst hparent
        exact .up 1 (by simp)
      · exact .down hname hparent .nil
    refine ⟨false, rest :: names, ?_, rfl⟩
    rw [List.reverse_cons]
    exact hfirst.append hproper' hdown'

/-- What stands behind the letter is read as a place again, and spelled as before unless it starts
with a dot. -/
lemma SpelledLikeDrive.toList_again (h : p.SpelledLikeDrive letter rest) (hp : p.Regular) :
    ∃ behind again, p.toText.toList = letter :: ':' :: behind ∧
      (ofText p.toText).toText.toList = letter.toUpper :: ':' :: again ∧
      (again = behind ↔ rest ≠ ['.']) := by
  obtain ⟨names, hnames, htext, hread⟩ := h.ofText_toText hp
  have hfirst : Proper (letter :: ':' :: rest) := hp.proper _ (by simp [hnames])
  have hslash : '/' ∉ rest := fun hin => hfirst.slash (by simp [hin])
  have hback : '\\' ∉ rest := fun hin => hfirst.backslash (by simp [hin])
  have hproper : ∀ name ∈ names, Proper name :=
    fun name hname => hp.proper name (by simp [hnames, hname])
  have hdown : parentName ∉ names := hp.parentName_notMem hnames fun heq => by
    simp [parentName] at heq
  have hagain := toList_toText_of_some (congrArg Place.drive hread)
  refine ⟨_, _, htext, hagain, ?_⟩
  by_cases hdot : rest = ['.']
  · subst hdot
    have hsplit : namesOf (joinNames (['.'] :: names)) = ['.'] :: names :=
      namesOf_joinNames (by simp)
        (List.forall_mem_cons.mpr ⟨hslash, fun name hname => (hproper name hname).slash⟩)
        (List.forall_mem_cons.mpr ⟨hback, fun name hname => (hproper name hname).backslash⟩)
    have hplace : ofText p.toText = ⟨some letter.toUpper, false, names⟩ := by
      rw [hread, hsplit, joinNames_cons_cons]
      simp [enter, follow_skip, foldl_follow_down hproper hdown]
    rw [hplace]
    refine iff_of_false (fun heq => ?_) (by simp)
    have hlt := length_joinNames_lt ['.'] names (by simp)
    rw [← heq] at hlt
    exact absurd hlt (lt_irrefl _)
  · obtain ⟨absolute, names', hnormal, hbehind⟩ :=
      exists_behind_letter hslash hback hdot hproper hdown
    rw [hread, hbehind, enter_joinNames _ hnormal]
    exact iff_of_true rfl hdot

end Place

open Place

/-- A normal spelling names the same place as the path if and only if the place is not spelled like
one on a drive. Where it is, it is still its own normal spelling if the letter is a capital and no
lone dot stands behind the colon. -/
theorem normalize_keeps_iff (path : String) :
    (normalize (normalize path) = normalize path ↔ ∀ letter rest,
      (ofText path).SpelledLikeDrive letter rest → letter.toUpper = letter ∧ rest ≠ ['.']) ∧
    (ofText (normalize path) = ofText path ↔ ∀ letter rest,
      ¬ (ofText path).SpelledLikeDrive letter rest) := by
  have hp := regular_ofText path
  have hkept := ofText_toText_iff hp
  refine ⟨?_, hkept⟩
  by_cases hspelled : ∃ letter rest, (ofText path).SpelledLikeDrive letter rest
  · obtain ⟨letter, rest, h⟩ := hspelled
    obtain ⟨behind, again, htext, hagain, hsame⟩ := h.toList_again hp
    have hiff : normalize (normalize path) = normalize path ↔
        letter.toUpper = letter ∧ rest ≠ ['.'] := by
      rw [← String.toList_inj, normalize, normalize, hagain, htext, List.cons.injEq,
        List.cons.injEq, hsame]
      simp
    rw [hiff]
    refine ⟨fun hkeeps letter' rest' h' => ?_, fun hall => hall letter rest h⟩
    obtain ⟨rfl, rfl⟩ : letter = letter' ∧ rest = rest' := by simpa using h.head.symm.trans h'.head
    exact hkeeps
  · simp only [not_exists] at hspelled
    have hsame := congrArg toText (hkept.mpr hspelled)
    exact iff_of_true hsame fun letter rest h => absurd h (hspelled letter rest)

/-- A directory whose name is a letter and a colon is lost, and the second spelling differs from the
first. -/
theorem lettered_not_kept :
    normalize "./c:/x" = "c:/x" ∧ normalize (normalize "./c:/x") ≠ normalize "./c:/x" ∧
      ofText (normalize "./c:/x") ≠ ofText "./c:/x" := by
  have hspelled : (ofText "./c:/x").SpelledLikeDrive 'c' [] :=
    ⟨by decide +kernel, by decide +kernel, by decide +kernel, by decide +kernel⟩
  obtain ⟨hagain, hkept⟩ := normalize_keeps_iff "./c:/x"
  refine ⟨by decide +kernel, fun hsame => ?_, fun hsame => hkept.mp hsame 'c' [] hspelled⟩
  exact absurd (hagain.mp hsame 'c' [] hspelled).1 (by decide)

end SceneExport.Path
