import Mathlib
import SceneExport.Export.Context
import SceneExport.Proofs.Path.Places

/-!
# Relative paths lead back

A relative path goes up from a directory as far as the target shares its names and then down to the
target. Following it from the directory therefore ends at the target, whatever the separators, dots
and repeated slashes in the texts that both are given by. So a resource of a project and the path
that an export writes for it name the same file.
-/
namespace SceneExport.Path

variable {absolute : Bool} {names passed : List Name} {base path : String}

namespace Place

lemma enter_append (p : Place) (xs ys : List Name) :
    p.enter (xs ++ ys) = (p.enter xs).enter ys := by
  simp [enter, List.foldl_append]

lemma foldl_follow_blank (h : ∀ name ∈ names, name = []) :
    names.foldl (follow absolute) passed = passed := by
  induction names with
  | nil => rfl
  | cons name names ih =>
    rw [List.foldl_cons, follow_skip (.inl (h name List.mem_cons_self))]
    exact ih fun other hother => h other (List.mem_cons_of_mem _ hother)

lemma namesOf_append_cons (xs ys : List Char) {c : Char} (hc : isSlash c = true) :
    namesOf (xs ++ c :: ys) = namesOf xs ++ namesOf ys := by
  have hslash : slashed (c :: ys) = '/' :: slashed ys := by
    rcases (by simpa [isSlash] using hc : c = '/' ∨ c = '\\') with rfl | rfl <;> rfl
  rw [namesOf, slashed_append, hslash, Text.pieces_append_cons _ _ (by decide), namesOf, namesOf]

lemma head?_slashed_cons {c : Char} (cs : List Char) :
    (slashed (c :: cs)).head? = some '/' ↔ isSlash c = true := by
  by_cases hback : c = '\\'
  · simp [slashed, isSlash, hback]
  · simp [slashed, isSlash, hback]

/-- Separators at the end lead nowhere. -/
lemma foldl_namesOf_append_slashes (cs : List Char) {slashes : List Char}
    (h : ∀ c ∈ slashes, isSlash c = true) :
    (namesOf (cs ++ slashes)).foldl (follow absolute) passed =
      (namesOf cs).foldl (follow absolute) passed := by
  cases slashes with
  | nil => rw [List.append_nil]
  | cons c slashes =>
    rw [namesOf_append_cons cs slashes (h c List.mem_cons_self), List.foldl_append]
    refine foldl_follow_blank fun name hname => List.eq_nil_iff_forall_not_mem.mpr fun d hd => ?_
    obtain ⟨hin, hcut⟩ := Text.mem_of_mem_pieces hname hd
    obtain ⟨e, he, rfl⟩ := List.mem_map.mp hin
    have hslash := h e (List.mem_cons_of_mem _ he)
    simp only [isSlash, Bool.or_eq_true, decide_eq_true_eq] at hslash
    rcases hslash with rfl | rfl <;> simp at hcut

lemma exists_trimSlashes (base : String) :
    ∃ slashes, base.toList = (trimSlashes base).toList ++ slashes ∧ ∀ c ∈ slashes,
    isSlash c = true := by
  refine ⟨(base.toList.reverse.takeWhile isSlash).reverse, ?_, fun c hc => ?_⟩
  · rw [trimSlashes, String.toList_ofList, ← List.reverse_append, List.takeWhile_append_dropWhile,
      List.reverse_reverse]
  · exact List.mem_takeWhile_imp (List.mem_reverse.mp hc)

lemma toList_join (hne : base ≠ "") (hrel : isAbsolute path = false) :
    (join base path).toList = (trimSlashes base).toList ++ '/' :: path.toList := by
  simp [join, hne, hrel]

lemma colon_notMem_join (hbase : ':' ∉ base.toList) (hpath : ':' ∉ path.toList) :
    ':' ∉ (join base path).toList := by
  unfold join
  split
  · exact hpath
  · obtain ⟨slashes, hsplit, -⟩ := exists_trimSlashes base
    rw [hsplit, List.mem_append, not_or] at hbase
    simp [hbase.1, hpath]

/-- A path behind a directory names no drive. -/
lemma splitDrive_join (hne : base ≠ "") (hbase : ':' ∉ base.toList)
    (hrel : isAbsolute path = false) :
    splitDrive (slashed (join base path).toList) = (none, slashed (join base path).toList) := by
  obtain ⟨slashes, hsplit, -⟩ := exists_trimSlashes base
  have hcolon : ':' ∉ slashed (trimSlashes base).toList :=
    colon_notMem_slashed fun hin => hbase (by rw [hsplit]; exact List.mem_append_left _ hin)
  have hslash : slashed ('/' :: path.toList) = '/' :: slashed path.toList := rfl
  rw [toList_join hne hrel, slashed_append, hslash]
  refine splitDrive_none fun c rest hcs => ?_
  generalize slashed (trimSlashes base).toList = ds at hcs hcolon
  -- the second character is one of the directory or the separator behind it
  rcases ds with _ | ⟨d, _ | ⟨e, ds⟩⟩
  · rw [← (List.cons.inj hcs).1]
    decide
  · exact absurd (List.cons.inj (List.cons.inj hcs).2).1 (by decide)
  · obtain rfl : e = ':' := (List.cons.inj (List.cons.inj hcs).2).1
    simp at hcolon

/-- A relative path behind a directory is followed from there. -/
theorem ofText_join (hne : base ≠ "") (hbase : ':' ∉ base.toList) (hrel : isAbsolute path = false) :
    ofText (join base path) = (ofText base).enter (namesOf path.toList) := by
  obtain ⟨slashes, hsplit, hslashes⟩ := exists_trimSlashes base
  have hjoin := toList_join hne hrel
  have hhead : (slashed (join base path).toList).head? = some '/' ↔
      (slashed base.toList).head? = some '/' := by
    rw [hjoin, hsplit]
    cases htrim : (trimSlashes base).toList with
    | nil =>
      cases slashes with
      | nil =>
        rw [htrim, List.append_nil] at hsplit
        exact absurd (String.toList_eq_nil_iff.mp hsplit) hne
      | cons c slashes =>
        simp only [List.nil_append, head?_slashed_cons]
        exact iff_of_true rfl (hslashes c List.mem_cons_self)
    | cons c rest => simp only [List.cons_append, head?_slashed_cons]
  rw [ofText_eq_of_split (splitDrive_join hne hbase hrel), ofText_eq hbase, ← namesOf]
  simp only [hhead]
  rw [hjoin, namesOf_append_cons _ _ rfl, enter_append, hsplit]
  simp only [enter, foldl_namesOf_append_slashes _ hslashes]

lemma isAbsolute_iff (h : ':' ∉ path.toList) :
    isAbsolute path = true ↔ ∃ c rest, path.toList = c :: rest ∧ isSlash c = true := by
  rw [isAbsolute_eq h, decide_eq_true_iff]
  cases path.toList with
  | nil => simp [slashed]
  | cons c rest => simp [head?_slashed_cons]

/-- The directory of a path that starts with a separator starts with it too. -/
lemma toList_directory {c : Char} {rest : List Char} (h : path.toList = c :: rest)
    (hc : isSlash c = true) : ∃ n, (directory path).toList = c :: rest.take n := by
  cases hlast : Text.lastIndex? isSlash rest with
  | none => exact ⟨0, by simp [directory, h, Text.lastIndex?, hlast, hc]⟩
  | some i => exact ⟨i, by simp [directory, h, Text.lastIndex?, hlast]⟩

lemma directory_absolute (h : ':' ∉ path.toList) (habs : isAbsolute path = true) :
    directory path ≠ "" ∧ ':' ∉ (directory path).toList ∧ isAbsolute (directory path) = true := by
  obtain ⟨c, rest, hpath, hc⟩ := (isAbsolute_iff h).mp habs
  obtain ⟨n, hdir⟩ := toList_directory hpath hc
  have hcolon : ':' ∉ (directory path).toList := by
    rw [hdir]
    rw [hpath] at h
    exact fun hin => h (List.cons_subset_cons c (List.take_subset n rest) hin)
  refine ⟨fun hempty => ?_, hcolon, (isAbsolute_iff hcolon).mpr ⟨c, _, hdir, hc⟩⟩
  simp [hempty] at hdir

lemma take_commonLength (xs ys : List Name) :
    xs.take (commonLength xs ys) = ys.take (commonLength xs ys) ∧
    commonLength xs ys ≤ ys.length := by
  induction xs, ys using commonLength.induct with
  | case1 x xs ys ih => simp [commonLength, ih]
  | case2 x xs y ys hne => simp [commonLength, hne]
  | case3 xs ys _ => simp_all [commonLength]

/-- The names that lead from a directory to a place: up to what they share, then down. -/
def way (base target : Place) : List Name :=
  let common := commonLength target.names base.names
  List.replicate (base.names.length - common) parentName ++ target.names.drop common

variable {base target : Place}

lemma from_eq (hdrive : target.drive = base.drive) (habs : target.absolute = base.absolute) :
    target.from base = .ok (base.way target) := by
  simp [«from», way, hdrive, habs]

lemma Plain.parentName_notMem (h : target.Plain) (habs : target.absolute = true) :
    parentName ∉ target.names := by
  have hnormal := h.normal
  rw [habs] at hnormal
  exact fun hin => hnormal.parentName_notMem (List.mem_reverse.mpr hin)

/-- The way from a directory to a place ends there, if it leads up by names that can be left. -/
theorem enter_way (hdrive : target.drive = base.drive) (habs : target.absolute = base.absolute)
    (htarget : Normal target.absolute target.names.reverse)
    (hleave : parentName ∉ base.names.drop (commonLength target.names base.names)) :
    base.enter (base.way target) = target := by
  obtain ⟨hshared, hle⟩ := take_commonLength target.names base.names
  set k := commonLength target.names base.names
  -- going up leaves the names that both share
  have hup : (List.replicate (base.names.length - k) parentName).foldl (follow target.absolute)
      base.names.reverse = (target.names.take k).reverse := by
    rw [foldl_follow_up (by simp), List.drop_reverse, hshared]
    · congr 2
      omega
    · rw [List.take_reverse, List.mem_reverse]
      rwa [Nat.sub_sub_self hle]
  -- and going down from there passes the rest of the target
  have hpassed : (target.names.take k).foldl (follow target.absolute) [] =
      (target.names.take k).reverse := by
    have hnormal := (htarget.drop (target.names.length - k)).foldl_reverse
    rwa [← List.reverse_take, List.reverse_reverse] at hnormal
  have hdown : (target.names.drop k).foldl (follow target.absolute) (target.names.take k).reverse =
      target.names.reverse := by
    have hall := htarget.foldl_reverse
    rw [List.reverse_reverse] at hall
    rw [← hpassed, ← List.foldl_append, List.take_append_drop, hall]
  have hnames : (base.way target).foldl (follow base.absolute) base.names.reverse =
      target.names.reverse := by
    rw [← habs, way, List.foldl_append, hup, hdown]
  rw [enter, hnames, List.reverse_reverse, ← hdrive, ← habs]

/-- The way is a normal relative place. -/
lemma plain_way (base : Place) (htarget : target.Plain) : Plain ⟨none, false, base.way target⟩ := by
  refine ⟨rfl, ?_, fun name hname => ?_⟩
  · rw [way, List.reverse_append, List.reverse_replicate, List.reverse_drop]
    exact (htarget.normal.take _).append_up _
  · rcases List.mem_append.mp hname with hname | hname
    · rw [List.eq_of_mem_replicate hname]
      decide
    · exact htarget.colon name (List.mem_of_mem_drop hname)

lemma normalize_toText {p : Place} (hp : p.Plain) : normalize p.toText = p.toText := by
  rw [normalize, ofText_toText hp]

lemma forwardSlashes_toText {p : Place} (hp : p.Plain) : forwardSlashes p.toText = p.toText := by
  rw [forwardSlashes, slashed_eq_self (backslash_notMem_toText hp), String.ofList_toList]

lemma toText_relative {p : Place} (hp : p.Plain) (hrel : p.absolute = false) :
    p.toText = if p.names.isEmpty then "." else String.ofList (joinNames p.names) := by
  rw [← String.toList_inj, toList_toText hp, hrel, if_neg (by decide), relativeChars]
  cases p.names <;> simp

/-- Following a relative place from a directory, given by their texts. -/
lemma ofText_join_toText {directory : String} {p : Place} (hp : p.Plain) (hrel : p.absolute = false)
    (hne : directory ≠ "") (hcolon : ':' ∉ directory.toList) :
    ofText (join directory p.toText) = (ofText directory).enter p.names := by
  have habs : isAbsolute p.toText = false := by rw [isAbsolute, ofText_toText hp, hrel]
  rw [ofText_join hne hcolon habs, toList_toText hp, hrel]
  simp only [enter, Bool.false_eq_true, if_false, foldl_namesOf_relativeChars hp.proper]

/-- A relative path is the spelling of the way. -/
lemma relativeTo_eq {directory : String} (hpath : ':' ∉ path.toList)
    (hcolon : ':' ∉ directory.toList) (habs : isAbsolute path = isAbsolute directory) :
    relativeTo path directory =
      .ok (toText ⟨none, false, (ofText directory).way (ofText path)⟩) := by
  have htarget := plain_ofText hpath
  have hfrom := from_eq (htarget.drive.trans (plain_ofText hcolon).drive.symm) habs
  rw [relativeTo, hfrom, toText_relative (plain_way _ htarget) rfl]
  rfl

/-- A path has a form relative to a directory, and that form seen from the directory names its
place. -/
theorem exists_relativeTo {directory : String} (hpath : ':' ∉ path.toList)
    (habs : isAbsolute path = true) (hne : directory ≠ "") (hcolon : ':' ∉ directory.toList)
    (hdirAbs : isAbsolute directory = true) :
    ∃ p : Place, p.Plain ∧ relativeTo path directory = .ok p.toText ∧
      normalize (join directory p.toText) = normalize path := by
  have htarget := plain_ofText hpath
  have hbase := plain_ofText hcolon
  have hway := plain_way (ofText directory) htarget
  have hsame : isAbsolute path = isAbsolute directory := habs.trans hdirAbs.symm
  refine ⟨_, hway, relativeTo_eq hpath hcolon hsame, ?_⟩
  rw [normalize, ofText_join_toText hway rfl hne hcolon,
    enter_way (htarget.drive.trans hbase.drive.symm) hsame htarget.normal, normalize]
  exact fun hin => hbase.parentName_notMem hdirAbs (List.mem_of_mem_drop hin)

end Place

open Place

variable {source exported resource : String}

lemma colon_notMem_withoutSourceMark (h : ':' ∉ resource.toList) :
    ':' ∉ (withoutSourceMark resource).toList := by
  unfold withoutSourceMark
  split
  · next rest hmark =>
    rw [hmark] at h
    simp only [String.toList_ofList]
    exact fun hin => h (List.mem_cons_of_mem _ (List.mem_cons_of_mem _ hin))
  · exact h

/-- What stands behind an absolute directory is absolute. -/
lemma isAbsolute_join (hne : base ≠ "") (hbase : ':' ∉ base.toList)
    (habs : isAbsolute base = true) : isAbsolute (join base path) = true := by
  cases hrel : isAbsolute path with
  | false =>
    rw [isAbsolute, ofText_join hne hbase hrel]
    exact habs
  | true => simp [join, hrel]

/-- A resource, seen from the project, is the file that is opened for the path that an export writes
for it, seen from the export. The source file, as the export names it, is found from there too. -/
theorem resourceFromExport_opens_resource (hsource : ':' ∉ source.toList)
    (hsourceAbs : isAbsolute source = true) (hexported : ':' ∉ exported.toList)
    (hexportedAbs : isAbsolute exported = true) (hresource : ':' ∉ resource.toList) :
    (∃ written, resourceFromExport resource source exported = .ok written ∧
      Export.Media.diskPath written (directory exported) =
        normalize (join (directory source) (withoutSourceMark resource))) ∧
      ∃ written, sourceFromExport source exported = .ok written ∧
        normalize (join (directory exported) written) = normalize source := by
  obtain ⟨hne, hcolon, hdir⟩ := directory_absolute hexported hexportedAbs
  constructor
  · obtain ⟨hsne, hscolon, hsdir⟩ := directory_absolute hsource hsourceAbs
    have hmark := colon_notMem_withoutSourceMark hresource
    have hplain := plain_ofText (colon_notMem_join hscolon hmark)
    set place := join (directory source) (withoutSourceMark resource) with hplace
    have habs : isAbsolute place = true := isAbsolute_join hsne hscolon hsdir
    -- the normal spelling of the place names the same place
    have hnormal : ':' ∉ (normalize place).toList := colon_notMem_toText hplain
    have hnormalAbs : isAbsolute (normalize place) = true := by
      rw [isAbsolute, normalize, ofText_toText hplain]
      exact habs
    obtain ⟨p, hp, hrelative, hopen⟩ := exists_relativeTo hnormal hnormalAbs hne hcolon hdir
    refine ⟨p.toText, ?_, ?_⟩
    · rw [resourceFromExport, ← hplace, hrelative]
      change Except.ok (forwardSlashes (normalize p.toText)) = _
      rw [normalize_toText hp, forwardSlashes_toText hp]
    · rw [Export.Media.diskPath, hopen]
      exact normalize_toText hplain
  · obtain ⟨p, -, hrelative, hopen⟩ := exists_relativeTo hsource hsourceAbs hne hcolon hdir
    obtain ⟨c, rest, hchars, -⟩ := (isAbsolute_iff hsource).mp hsourceAbs
    have hnonempty : source.isEmpty = false := by
      have hsne : source ≠ "" := by
        rintro rfl
        simp at hchars
      simpa using hsne
    refine ⟨p.toText, ?_, hopen⟩
    simp [sourceFromExport, hnonempty, hrelative]

/-- Backslashes, dots and a way up beyond the directory of the project. -/
theorem wood_opens_resource :
    (isAbsolute "\\work/.\\bench//chair.blend" = true ∧
      isAbsolute "//work/out/../web/chair.json" = true) ∧
      (∃ written, resourceFromExport "//../tex\\wood.png" "\\work/.\\bench//chair.blend"
          "//work/out/../web/chair.json" = .ok written ∧
        Export.Media.diskPath written (directory "//work/out/../web/chair.json") =
          normalize (join (directory "\\work/.\\bench//chair.blend")
            (withoutSourceMark "//../tex\\wood.png"))) ∧
      ∃ written, sourceFromExport "\\work/.\\bench//chair.blend" "//work/out/../web/chair.json" =
          .ok written ∧
        normalize (join (directory "//work/out/../web/chair.json") written) =
          normalize "\\work/.\\bench//chair.blend" := by
  have hsource : isAbsolute "\\work/.\\bench//chair.blend" = true := by decide +kernel
  have hexported : isAbsolute "//work/out/../web/chair.json" = true := by decide +kernel
  exact ⟨⟨hsource, hexported⟩, resourceFromExport_opens_resource (by decide +kernel) hsource
    (by decide +kernel) hexported (by decide +kernel)⟩

end SceneExport.Path
