import Mathlib
import SceneExport.Proofs.Path.Lookup

/-!
# Relative paths between relative places

A relative place may lie above where it starts from, and nothing is known about the names up there.
From a directory that lies higher up than the target no path leads to it, for following names never
takes back a way up. From all others the way leads there. A relative path is written in any case.
-/
namespace SceneExport.Path

variable {name : Name} {names passed : List Name} {path base : String}

namespace Place

variable {p source target : Place}

/-- How far a relative place lies above where it starts from. -/
def rise (p : Place) : Nat :=
  p.names.count parentName

lemma count_le_count_follow (passed : List Name) (name : Name) :
    passed.count parentName ≤ (follow false passed name).count parentName := by
  unfold follow
  split
  · exact le_rfl
  split
  · cases passed with
    | nil => simp
    | cons last before =>
      by_cases hlast : last = parentName
      · simp only [hlast, ne_eq, not_true_eq_false, Bool.false_eq_true, if_false]
        exact List.count_le_count_cons
      · simp [hlast]
  · exact List.count_le_count_cons

/-- Following names never takes back a way up. -/
lemma rise_le_rise_enter (habs : p.absolute = false) (names : List Name) :
    p.rise ≤ (p.enter names).rise := by
  simp only [rise, enter, habs, List.count_reverse]
  rw [← List.count_reverse]
  generalize p.names.reverse = passed
  induction names generalizing passed with
  | nil => exact le_rfl
  | cons name names ih => exact (count_le_count_follow passed name).trans (ih _)

/-- The names of a place are its way up and a way down. -/
lemma Plain.exists_down (hp : p.Plain) :
    ∃ down, p.names = List.replicate p.rise parentName ++ down ∧ parentName ∉ down := by
  obtain ⟨n, down, hpassed, hdown, -⟩ := hp.normal.exists_up
  have hdown' : parentName ∉ down.reverse := by simpa using hdown
  have hnames : p.names = List.replicate n parentName ++ down.reverse := by
    rw [← List.reverse_reverse p.names, hpassed, List.reverse_append, List.reverse_replicate]
  have hrise : p.rise = n := by
    rw [rise, hnames, List.count_append, List.count_replicate_self,
      List.count_eq_zero_of_not_mem hdown', Nat.add_zero]
  exact ⟨down.reverse, by rw [hrise, hnames], hdown'⟩

lemma commonLength_append (xs ys zs : List Name) :
    commonLength (xs ++ ys) (xs ++ zs) = xs.length + commonLength ys zs := by
  induction xs with
  | nil => simp
  | cons x xs ih =>
    rw [List.cons_append, List.cons_append, commonLength, if_pos rfl, ih, List.length_cons]
    omega

/-- A directory that lies no higher than the target is left by names that can be left. -/
lemma parentName_notMem_drop (hsource : source.Plain) (htarget : target.Plain)
    (hrise : source.rise ≤ target.rise) :
    parentName ∉ source.names.drop (commonLength target.names source.names) := by
  obtain ⟨down, hdown, hnone⟩ := hsource.exists_down
  obtain ⟨down', hdown', -⟩ := htarget.exists_down
  have hshared : target.names = List.replicate source.rise parentName ++
      (List.replicate (target.rise - source.rise) parentName ++ down') := by
    rw [← List.append_assoc, List.replicate_append_replicate, Nat.add_sub_cancel' hrise, hdown']
  rw [hshared, hdown, commonLength_append, ← List.drop_drop, List.drop_left]
  exact fun hin => hnone (List.mem_of_mem_drop hin)

/-- A path with the normal spelling of a plain place names this place. -/
lemma ofText_eq_of_normalize_eq {other : String} (hpath : ':' ∉ path.toList)
    (h : normalize other = normalize path) : ofText other = ofText path := by
  have hplain := plain_ofText hpath
  have hother := regular_ofText other
  have hread : ofText (ofText other).toText = ofText path :=
    (congrArg ofText h).trans (ofText_toText hplain)
  by_cases hspelled : ∃ letter rest, (ofText other).SpelledLikeDrive letter rest
  · obtain ⟨letter, rest, hspelled⟩ := hspelled
    obtain ⟨names, -, -, hdrive⟩ := hspelled.ofText_toText hother
    have hnone := congrArg Place.drive (hdrive.symm.trans hread)
    rw [hplain.drive] at hnone
    cases hnone
  · simp only [not_exists] at hspelled
    rw [← hread, (ofText_toText_iff hother).mpr hspelled]

/-- Following a relative place from a directory or from where the directory starts itself. -/
lemma ofText_join_relative (hbase : ':' ∉ base.toList) (hp : p.Plain) (hrel : p.absolute = false) :
    ofText (join base p.toText) = (ofText base).enter p.names := by
  by_cases hne : base = ""
  · subst hne
    have hfold := hp.normal.foldl_reverse
    rw [List.reverse_reverse, hrel] at hfold
    have hstart : ofText "" = ⟨none, false, []⟩ := rfl
    have hjoin : join "" p.toText = p.toText := by simp [join]
    rw [hjoin, ofText_toText hp, hstart, enter, List.reverse_nil, hfold,
      List.reverse_reverse, ← hp.drive, ← hrel]
  · exact ofText_join_toText hp hrel hne hbase

/-- No path leads down to where a directory starts that lies above it. -/
lemma rise_le_of_normalize_eq {other : String} (hpath : ':' ∉ path.toList)
    (hrel : isAbsolute path = false) (hbase : ':' ∉ base.toList)
    (hbaseRel : isAbsolute base = false) (h : normalize (join base other) = normalize path) :
    (ofText base).rise ≤ (ofText path).rise := by
  have hplace := ofText_eq_of_normalize_eq hpath h
  by_cases hne : base = ""
  · subst hne
    exact Nat.zero_le _
  cases hother : isAbsolute other with
  | true =>
    have hjoin : join base other = other := by simp [join, hother]
    rw [hjoin] at hplace
    rw [isAbsolute, hplace] at hother
    rw [isAbsolute, hother] at hrel
    cases hrel
  | false =>
    rw [← hplace, ofText_join hne hbase hother]
    exact rise_le_rise_enter hbaseRel _

end Place

open Place

/-- A relative path is written between any two relative paths. It leads to the target if and only if
any path does, which is the case exactly when the directory does not lie further up. -/
theorem relativeTo_leads_iff (hpath : ':' ∉ path.toList) (hrel : isAbsolute path = false)
    (hbase : ':' ∉ base.toList) (hbaseRel : isAbsolute base = false) :
    ∃ written, relativeTo path base = .ok written ∧
      (normalize (join base written) = normalize path ↔ (ofText base).rise ≤ (ofText path).rise) ∧
      ((∃ other, normalize (join base other) = normalize path) ↔
        (ofText base).rise ≤ (ofText path).rise) := by
  have htarget := plain_ofText hpath
  have hsource := plain_ofText hbase
  have hsame : isAbsolute path = isAbsolute base := hrel.trans hbaseRel.symm
  have hleads : (ofText base).rise ≤ (ofText path).rise →
      normalize (join base (toText ⟨none, false, (ofText base).way (ofText path)⟩)) =
        normalize path := by
    intro hrise
    rw [normalize, ofText_join_relative hbase (plain_way _ htarget) rfl,
      enter_way (htarget.drive.trans hsource.drive.symm) hsame htarget.normal
        (parentName_notMem_drop hsource htarget hrise), normalize]
  refine ⟨_, relativeTo_eq hpath hbase hsame, ⟨?_, hleads⟩, ⟨?_, fun hrise => ⟨_, hleads hrise⟩⟩⟩
  · exact rise_le_of_normalize_eq hpath hrel hbase hbaseRel
  · rintro ⟨other, h⟩
    exact rise_le_of_normalize_eq hpath hrel hbase hbaseRel h

/-- From the parent directory no path leads to `x`, but one is written. The other way round it is
right. -/
theorem parent_not_left :
    (isAbsolute "x" = false ∧ isAbsolute ".." = false) ∧
      (relativeTo "x" ".." = .ok "../x" ∧ normalize (join ".." "../x") ≠ normalize "x" ∧
        ¬ ∃ other, normalize (join ".." other) = normalize "x") ∧
      ∃ written, relativeTo ".." "x" = .ok written ∧
      normalize (join "x" written) = normalize ".." := by
  have hx : isAbsolute "x" = false := by decide +kernel
  have hparent : isAbsolute ".." = false := by decide +kernel
  refine ⟨⟨hx, hparent⟩, ?_, ?_⟩
  · have hrise : ¬ (ofText "..").rise ≤ (ofText "x").rise := by decide +kernel
    have hwritten : relativeTo "x" ".." = .ok "../x" := by rfl
    obtain ⟨written, hok, hleads, hany⟩ :=
      relativeTo_leads_iff (by decide +kernel) hx (by decide +kernel) hparent
    obtain rfl : "../x" = written := Except.ok.inj (hwritten.symm.trans hok)
    exact ⟨hwritten, mt hleads.mp hrise, mt hany.mp hrise⟩
  · obtain ⟨written, hok, hleads, -⟩ :=
      relativeTo_leads_iff (by decide +kernel) hparent (by decide +kernel) hx
    exact ⟨written, hok, hleads.mpr (by decide +kernel)⟩

end SceneExport.Path
