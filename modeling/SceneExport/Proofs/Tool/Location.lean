import Mathlib
import SceneExport.Files.Basic
import SceneExport.Proofs.Path.Lookup
import SceneExport.Proofs.Text.Search
import SceneExport.Tool.Location

/-!
# Places of files

The tool makes paths absolute by their slashes alone, while the paths of an export are read with
backslashes and with `..` resolved. Both agree on the names that lead from the root to a file:
making a path absolute drops only what leads nowhere. The names that a path leads through, from
those passed before, are told by `reach`, and every step that the tool takes on texts is a step on
these names.
-/
namespace SceneExport

lemma endsWith_iff {s t : String} : s.endsWith t = true ↔ t.toList <:+ s.toList := by
  rw [← String.endsWith_toSlice, String.Slice.endsWith_string_iff, String.copy_toSlice]

namespace Path

/-- The names passed after a text is followed from the root or from names passed before, the last
first. -/
def reach (passed : List Name) (cs : List Char) : List Name :=
  (namesOf cs).foldl (follow true) passed

variable {passed : List Name} {cs xs ys : List Char} {c : Char} {path : String}

@[simp] lemma reach_nil (passed : List Name) : reach passed [] = passed :=
  @follow_skip true [] passed (.inl rfl)

lemma reach_append_cons (passed : List Name) (xs ys : List Char) (hc : isSlash c = true) :
    reach passed (xs ++ c :: ys) = reach (reach passed xs) ys := by
  rw [reach, Place.namesOf_append_cons xs ys hc, List.foldl_append]
  rfl

lemma reach_cons (passed : List Name) (ys : List Char) (hc : isSlash c = true) :
    reach passed (c :: ys) = reach passed ys := by
  rw [← List.nil_append (c :: ys), reach_append_cons passed [] ys hc, reach_nil]

lemma reach_proper (passed : List Name) {name : Name} (h : Proper name) (hne : name ≠ parentName) :
    reach passed name = name :: passed := by
  have hslash : ∀ d ∈ slashed name, decide (d = '/') = false := by
    rw [slashed_eq_self h.backslash]
    exact fun d hd => decide_eq_false fun hcut => h.slash (hcut ▸ hd)
  rw [reach, namesOf, Text.pieces_of_forall hslash, slashed_eq_self h.backslash]
  exact follow_down h hne

/-- A text that starts with a slash names a place by the names it leads through from the root. -/
lemma ofText_rooted (h : path.toList.head? = some '/') :
    Place.ofText path = ⟨none, true, (reach [] path.toList).reverse⟩ := by
  obtain ⟨rest, hpath⟩ : ∃ rest, path.toList = '/' :: rest := by
    cases hpath : path.toList with
    | nil => rw [hpath] at h; cases h
    | cons d rest => exact ⟨rest, by rw [hpath] at h; rw [Option.some.inj h]⟩
  have hsplit : splitDrive (slashed path.toList) = (none, slashed path.toList) := by
    rw [hpath]
    unfold splitDrive
    split
    · rename_i heq
      rw [← (List.cons.inj heq).1]
      rfl
    · rfl
  have hhead : (slashed path.toList).head? = some '/' := by rw [hpath]; rfl
  rw [Place.ofText, Place.ofChars, hsplit]
  simp only [hhead, decide_true]
  rfl

lemma reach_dot (passed : List Name) : reach passed ['.'] = passed :=
  @follow_skip true ['.'] passed (.inr rfl)

lemma reach_intercalate (passed : List Name) (parts : List (List Char)) :
    reach passed (['/'].intercalate parts) = parts.foldl reach passed := by
  induction parts generalizing passed with
  | nil => exact reach_nil passed
  | cons part parts ih =>
    cases parts with
    | nil => simp
    | cons next parts =>
      rw [List.intercalate_cons_cons, List.append_assoc, List.singleton_append,
        reach_append_cons passed part _ rfl, ih]
      rfl

lemma intercalate_pieces (cs : List Char) : ['/'].intercalate (Text.pieces (· = '/') cs) = cs := by
  have hcut : (fun c => decide (c = '/')) = (· == '/') := by
    funext c
    exact (beq_eq_decide c '/').symm
  rw [Text.pieces_eq_splitOnP, hcut]
  exact List.intercalate_splitOn '/'

lemma mem_intercalate_slash {parts : List (List Char)} (h : c ∈ ['/'].intercalate parts) :
    c = '/' ∨ ∃ part ∈ parts, c ∈ part := by
  induction parts with
  | nil => simp at h
  | cons part parts ih =>
    cases parts with
    | nil => exact .inr ⟨part, by simpa using h⟩
    | cons next parts =>
      rw [List.intercalate_cons_cons, List.mem_append, List.mem_append, List.mem_singleton] at h
      rcases h with (h | h) | h
      · exact .inr ⟨part, List.mem_cons_self, h⟩
      · exact .inl h
      · exact (ih h).imp_right fun ⟨part, hpart, hc⟩ => ⟨part, List.mem_cons_of_mem _ hpart, hc⟩

/-- The last piece of a joined text stands behind a slash if one stands before the first. -/
lemma exists_cons_intercalate (parts : List (List Char)) (last : List Char) :
    ∃ xs, '/' :: ['/'].intercalate (parts ++ [last]) = xs ++ '/' :: last := by
  induction parts with
  | nil => exact ⟨[], by simp⟩
  | cons part parts ih =>
    obtain ⟨xs, hxs⟩ := ih
    refine ⟨'/' :: part ++ xs, ?_⟩
    have hcons : ['/'].intercalate (part :: parts ++ [last]) =
        part ++ '/' :: ['/'].intercalate (parts ++ [last]) := by
      cases parts with
      | nil => simp [List.intercalate_cons_cons]
      | cons next parts => simp [List.intercalate_cons_cons]
    rw [hcons, hxs]
    simp

/-- The piece is no dot and not empty. -/
def leads (part : List Char) : Bool := part ≠ [] && part ≠ ['.']

/-- Pieces that lead nowhere can be left out. -/
lemma reach_filter (passed : List Name) (cs : List Char) :
    ((Text.pieces (· = '/') cs).filter leads).foldl reach passed =
      reach passed cs := by
  have hfilter : ∀ (parts : List (List Char)) (passed : List Name),
      (parts.filter leads).foldl reach passed = parts.foldl reach passed := by
    intro parts
    induction parts with
    | nil => exact fun _ => rfl
    | cons part parts ih =>
      intro passed
      by_cases hnil : part = []
      · rw [List.filter_cons_of_neg (by simp [leads, hnil]), ih, List.foldl_cons, hnil, reach_nil]
      · by_cases hdot : part = ['.']
        · rw [List.filter_cons_of_neg (by simp [leads, hdot]), ih, List.foldl_cons, hdot, reach_dot]
        · rw [List.filter_cons_of_pos (by simp [leads, hnil, hdot]), List.foldl_cons, ih,
            List.foldl_cons]
  rw [hfilter, ← reach_intercalate, intercalate_pieces]

lemma reach_of_forall (passed : List Name) (h : ∀ d ∈ cs, isSlash d = false)
    (hlast : cs.getLast? = some c) (hc : c ≠ '.') : reach passed cs = cs :: passed := by
  have hproper : Proper cs := by
    refine ⟨?_, ?_, fun hslash => absurd (h _ hslash) (by decide),
      fun hback => absurd (h _ hback) (by decide)⟩
    · rintro rfl
      cases hlast
    · rintro rfl
      exact hc (Option.some.inj hlast).symm
  refine reach_proper passed hproper ?_
  rintro rfl
  exact hc (Option.some.inj hlast).symm

/-- A text leads to a name that ends as the text does, unless it ends with a separator or a dot. -/
lemma exists_reach_getLast? (passed : List Name) (hlast : cs.getLast? = some c)
    (hslash : isSlash c = false) (hc : c ≠ '.') :
    ∃ name rest, reach passed cs = name :: rest ∧ name.getLast? = some c := by
  by_cases hcs : ∃ d ∈ cs, isSlash d = true
  · obtain ⟨us, d, vs, rfl, hd, hvs⟩ := exists_last hcs
    have hvs' : vs.getLast? = some c := by
      cases vs with
      | nil =>
        obtain rfl : d = c := by simpa using hlast
        rw [hd] at hslash
        cases hslash
      | cons v vs => simpa [List.getLast?_append, List.getLast?_cons_cons] using hlast
    exact ⟨vs, _, (reach_append_cons passed us vs hd).trans (reach_of_forall _ hvs hvs' hc), hvs'⟩
  · have hcs : ∀ d ∈ cs, isSlash d = false :=
      fun d hd => by_contra fun hp => hcs ⟨d, hd, by simpa using hp⟩
    exact ⟨cs, passed, reach_of_forall passed hcs hlast hc, hlast⟩

lemma toList_fileName (hc : isSlash c = true) (hys : ∀ d ∈ ys, isSlash d = false)
    (h : path.toList = xs ++ c :: ys) : (fileName path).toList = ys := by
  simp [fileName, nameStart, h, Text.lastIndex?_append_cons xs hc hys]

/-- A text from the root on ends with its last name. -/
lemma exists_fileName (hroot : path.toList.head? = some '/') :
    ∃ xs c, path.toList = xs ++ c :: (fileName path).toList ∧ isSlash c = true ∧
      (∀ d ∈ (fileName path).toList, isSlash d = false) ∧
      (directory path).toList = if xs = [] then [c] else xs := by
  obtain ⟨xs, c, ys, hpath, hc, hys⟩ : ∃ xs c ys, path.toList = xs ++ c :: ys ∧ isSlash c = true ∧
      ∀ d ∈ ys, isSlash d = false := exists_last ⟨'/', List.mem_of_mem_head? hroot, rfl⟩
  have hname := toList_fileName hc hys hpath
  refine ⟨xs, c, by rw [hname, hpath], hc, hname ▸ hys, ?_⟩
  simp only [directory, hpath, Text.lastIndex?_append_cons xs hc hys]
  cases xs with
  | nil => simp
  | cons x xs => simp

lemma ne_empty_of_rooted (hroot : path.toList.head? = some '/') : path ≠ "" := by
  rintro rfl
  cases hroot

lemma head?_directory (hroot : path.toList.head? = some '/') :
    (directory path).toList.head? = some '/' := by
  obtain ⟨xs, c, hpath, -, -, hdirectory⟩ := exists_fileName hroot
  rw [hdirectory]
  rw [hpath] at hroot
  cases xs with
  | nil => simpa using hroot
  | cons x xs => simpa using hroot

/-- From the root to a file, or to one beside it with a longer name: through its directory, then by
its name. -/
lemma reach_append (hroot : path.toList.head? = some '/') (tail : String) :
    reach [] (path ++ tail).toList =
    reach (reach [] (directory path).toList) (fileName path ++ tail).toList := by
  obtain ⟨xs, c, hpath, hc, -, hdirectory⟩ := exists_fileName hroot
  have hup : reach [] (directory path).toList = reach [] xs := by
    rw [hdirectory]
    split
    · rename_i hxs
      rw [hxs, reach_cons [] [] hc]
    · rfl
  have htext : (path ++ tail).toList = xs ++ c :: (fileName path ++ tail).toList := by
    rw [String.toList_append, String.toList_append]
    nth_rewrite 1 [hpath]
    rw [List.append_assoc, List.cons_append]
  rw [hup, htext, reach_append_cons [] xs _ hc]

theorem reach_fileName (hroot : path.toList.head? = some '/')
    (hname : Proper (fileName path).toList) (hne : (fileName path).toList ≠ parentName) :
    reach [] path.toList = (fileName path).toList :: reach [] (directory path).toList := by
  have hreach := reach_append hroot ""
  rwa [String.append_empty, String.append_empty, reach_proper _ hname hne] at hreach

lemma fileName_append_cons (hc : isSlash c = true) {path' : String}
    (h : path.toList = xs ++ c :: ys) (h' : path'.toList = ys) :
    fileName path = fileName path' := by
  rw [← String.toList_inj]
  by_cases hys : ∃ d ∈ ys, isSlash d = true
  · obtain ⟨us, d, vs, rfl, hd, hvs⟩ := exists_last hys
    have hpath : path.toList = (xs ++ c :: us) ++ d :: vs := by
      rw [h, List.append_assoc, List.cons_append]
    rw [toList_fileName hd hvs hpath, toList_fileName hd hvs h']
  · have hys : ∀ d ∈ ys, isSlash d = false :=
      fun d hd => by_contra fun hp => hys ⟨d, hd, by simpa using hp⟩
    rw [toList_fileName hc hys h]
    simp [fileName, nameStart, h', Text.lastIndex?_eq_none hys]

/-- A name with an extension has something before it. -/
lemma exists_stem {tail : List Char} (h : extension path = String.ofList ('.' :: tail)) :
    ∃ stem, stem ≠ [] ∧ (fileName path).toList = stem ++ '.' :: tail := by
  have hname : (fileName path).toList = path.toList.drop (nameStart path.toList) := by
    rw [fileName, String.toList_ofList]
  simp only [extension, splitExtension] at h
  split at h
  · exact absurd (congrArg String.toList h) (by simp)
  · exact absurd (congrArg String.toList h) (by simp)
  · rename_i i hzero hlast
    have hdrop : (fileName path).toList.drop i = '.' :: tail := by
      rw [hname, List.drop_drop]
      simpa using congrArg String.toList h
    refine ⟨(fileName path).toList.take i, fun hnil => ?_, by rw [← hdrop, List.take_append_drop]⟩
    rcases List.take_eq_nil_iff.1 hnil with hi | hempty
    · exact hzero hi
    · rw [hempty, List.drop_nil] at hdrop
      cases hdrop

lemma normal_reach (h : Normal true passed) (cs : List Char) : Normal true (reach passed cs) :=
  h.foldl_follow (fun _ hname => (mem_namesOf hname).1) fun _ hname => (mem_namesOf hname).2.1

lemma joinNames_eq_intercalate (names : List Name) : joinNames names = ['/'].intercalate names := by
  induction names with
  | nil => rfl
  | cons name names ih =>
    cases names with
    | nil => simp [joinNames]
    | cons next names =>
      rw [Place.joinNames_cons name (by simp), ih, List.intercalate_cons_cons, List.append_assoc,
        List.singleton_append]

lemma toText_ne_empty (p : Place) : p.toText ≠ "" := by
  intro h
  have hchars : p.toChars = [] := by simpa [Place.toText] using congrArg String.toList h
  have hor : ∀ cs : List Char, (if cs.isEmpty then ['.'] else cs) ≠ [] := by
    intro cs
    cases cs <;> simp
  exact hor _ hchars

lemma normalize_ne_empty (path : String) : normalize path ≠ "" :=
  toText_ne_empty _

section Normalize

variable (hroot : path.toList.head? = some '/') (hcolon : ':' ∉ path.toList)
include hroot hcolon

lemma normalize_rooted : (normalize path).toList = '/' :: joinNames (reach [] path.toList).reverse ∧
    Place.ofText (normalize path) = Place.ofText path := by
  have hplain := Place.plain_ofText hcolon
  refine ⟨?_, Place.ofText_toText hplain⟩
  rw [normalize, Place.toList_toText hplain, ofText_rooted hroot]
  rfl

/-- The normal form of a path has the same last name, in the same directory. -/
theorem fileName_normalize (hname : Proper (fileName path).toList)
    (hne : (fileName path).toList ≠ parentName) :
    fileName (normalize path) = fileName path ∧
      reach [] (directory (normalize path)).toList = reach [] (directory path).toList := by
  obtain ⟨htext, hplace⟩ := normalize_rooted hroot hcolon
  have hroot' : (normalize path).toList.head? = some '/' := by rw [htext]; rfl
  have hreach : reach [] (normalize path).toList = reach [] path.toList := by
    rw [ofText_rooted hroot, ofText_rooted hroot'] at hplace
    exact List.reverse_injective (Place.mk.inj hplace).2.2
  have hlast : fileName (normalize path) = fileName path := by
    rw [reach_fileName hroot hname hne, List.reverse_cons, joinNames_eq_intercalate] at htext
    obtain ⟨xs, hxs⟩ :=
      exists_cons_intercalate (reach [] (directory path).toList).reverse (fileName path).toList
    rw [← String.toList_inj]
    refine toList_fileName (c := '/') rfl (fun d hd => ?_) (htext.trans hxs)
    have hslash : d ≠ '/' := fun h => hname.slash (h ▸ hd)
    have hback : d ≠ '\\' := fun h => hname.backslash (h ▸ hd)
    simp [isSlash, hslash, hback]
  refine ⟨hlast, ?_⟩
  rw [← hlast] at hname hne
  have hboth := (reach_fileName hroot' hname hne).symm.trans hreach
  rw [hlast] at hname hne
  rw [reach_fileName hroot hname hne] at hboth
  exact (List.cons.inj hboth).2

end Normalize

lemma reach_trimSlashes (passed : List Name) (base : String) :
    reach passed (trimSlashes base).toList = reach passed base.toList := by
  obtain ⟨slashes, hbase, hslashes⟩ := Place.exists_trimSlashes base
  rw [hbase]
  exact (Place.foldl_namesOf_append_slashes _ hslashes).symm

/-- A name behind a directory from the root on: either it is from the root on itself, or it is
followed from the directory. -/
lemma join_cases {base : String} (hroot : base.toList.head? = some '/') (name tail : String) :
    (isAbsolute name = true ∧ join base name = name) ∨ (isAbsolute name = false ∧
      (join base name ++ tail).toList.head? = some '/' ∧ ∀ passed,
      reach passed (join base name ++ tail).toList =
        reach (reach passed base.toList) (name ++ tail).toList) := by
  have hne : base ≠ "" := ne_empty_of_rooted hroot
  cases habs : isAbsolute name with
  | true => exact .inl ⟨rfl, by simp [join, habs]⟩
  | false =>
    have hjoin := Place.toList_join hne habs
    refine .inr ⟨rfl, ?_, fun passed => ?_⟩
    · obtain ⟨slashes, hbase, hslashes⟩ := Place.exists_trimSlashes base
      rw [String.toList_append, hjoin]
      cases htrim : (trimSlashes base).toList with
      | nil => rfl
      | cons d rest =>
        rw [hbase, htrim] at hroot
        simpa using hroot
    · rw [String.toList_append, hjoin, List.append_assoc, List.cons_append,
        reach_append_cons passed _ _ rfl, reach_trimSlashes, String.toList_append]

end Path

namespace Tool

open SceneExport.Path

variable {workingDirectory path : String}

lemma toList_stepNames (path : String) : (stepNames path).map String.toList =
    (Text.pieces (· = '/') path.toList).filter leads := by
  have hname : ∀ part : List Char, (String.ofList part ≠ "" && String.ofList part ≠ ".") =
      leads part := by
    intro part
    have hempty : String.ofList part = "" ↔ part = [] := by
      rw [← String.toList_inj, String.toList_ofList]
      rfl
    have hdot : String.ofList part = "." ↔ part = ['.'] := by
      rw [← String.toList_inj, String.toList_ofList]
      rfl
    simp only [leads, ne_eq, hempty, hdot]
  rw [stepNames, List.filter_map, List.map_map]
  simp only [Function.comp_def, hname, String.toList_ofList, List.map_id_fun', id_eq]

/-- The steps of a path, joined, lead through the same names. -/
lemma reach_joined (passed : List Name) (path : String) :
    reach passed ("/".intercalate (stepNames path)).toList = reach passed path.toList := by
  rw [String.toList_intercalate, toList_stepNames]
  exact (reach_intercalate passed _).trans (reach_filter passed path.toList)

/-- The names passed before a path is followed. -/
def start (workingDirectory path : String) : List Name :=
  if path.startsWith "/" then [] else reach [] workingDirectory.toList

lemma startsWith_slash : path.startsWith "/" = true ↔ path.toList.head? = some '/' := by
  rw [String.startsWith_string_iff]
  cases path.toList with
  | nil => simp
  | cons c cs => simp [eq_comm]

lemma reach_rootOf (path : String) (passed : List Name) (cs : List Char) :
    reach passed ((rootOf path).toList ++ cs) = reach passed cs := by
  unfold rootOf
  split
  · exact (reach_cons passed _ rfl).trans (reach_cons passed cs rfl)
  · exact reach_cons passed cs rfl

/-- A path that is made absolute starts at the root and leads through the same names. -/
theorem exists_absolute? (hworking : workingDirectory.toList.head? = some '/') (hpath : path ≠ "") :
    ∃ full, absolute? workingDirectory path = some full ∧ full.toList.head? = some '/' ∧
      reach [] full.toList = reach (start workingDirectory path) path.toList := by
  have hend : ∀ full : String, full.toList.head? = some '/' →
      reach [] full.toList = reach (start workingDirectory path) path.toList →
      (if path.endsWith "/" && !full.endsWith "/" then full ++ "/" else full).toList.head? =
        some '/' ∧
        reach [] (if path.endsWith "/" && !full.endsWith "/" then full ++ "/" else full).toList =
          reach (start workingDirectory path) path.toList := by
    intro full hhead hreach
    split
    · refine ⟨by simp [hhead], ?_⟩
      rw [String.toList_append]
      exact (reach_append_cons [] full.toList [] rfl).trans ((reach_nil _).trans hreach)
    · exact ⟨hhead, hreach⟩
  -- the path behind the root, or behind the working directory
  have hfull : ∀ full,
      full = (if path.startsWith "/" then rootOf path ++ "/".intercalate (stepNames path)
      else if (stepNames path).isEmpty then workingDirectory
      else if workingDirectory.endsWith "/" then workingDirectory ++ "/".intercalate
      (stepNames path) else workingDirectory ++ "/" ++ "/".intercalate (stepNames path)) →
      full.toList.head? = some '/' ∧
      reach [] full.toList = reach (start workingDirectory path) path.toList := by
    rintro full rfl
    rw [← reach_joined _ path]
    unfold start
    split
    · refine ⟨?_, by rw [String.toList_append, reach_rootOf]⟩
      unfold rootOf
      split <;> simp
    · split
      · rename_i hempty
        exact ⟨hworking, by simp [List.isEmpty_iff.1 hempty]⟩
      · split
        · rename_i hslash
          obtain ⟨xs, hxs⟩ := endsWith_iff.1 hslash
          have hxs : workingDirectory.toList = xs ++ ['/'] := hxs.symm
          refine ⟨by simp [hworking], ?_⟩
          rw [String.toList_append, hxs, List.append_assoc, List.singleton_append,
            reach_append_cons [] xs _ rfl, reach_append_cons [] xs [] rfl, reach_nil]
        · refine ⟨by simp [hworking], ?_⟩
          rw [String.toList_append, String.toList_append, List.append_assoc]
          exact reach_append_cons [] _ _ rfl
  obtain ⟨hhead, hreach⟩ := hfull _ rfl
  exact ⟨_, by rw [absolute?, if_neg (by simpa using hpath)], hend _ hhead hreach⟩

/-- The names that lead from the root to what a path names. -/
def namesAt (workingDirectory path : String) : List Name :=
  (reach (start workingDirectory path) path.toList).reverse

lemma ofText_absolute? (hworking : workingDirectory.toList.head? = some '/') (hpath : path ≠ "") :
    Place.ofText ((absolute? workingDirectory path).getD path) =
      ⟨none, true, namesAt workingDirectory path⟩ := by
  obtain ⟨full, hfull, hhead, hreach⟩ := exists_absolute? hworking hpath
  rw [hfull, Option.getD_some, ofText_rooted hhead, hreach]
  rfl

lemma absolutePlace_eq (hworking : workingDirectory.toList.head? = some '/') (hpath : path ≠ "") :
    absolutePlace workingDirectory path =
      Place.toText ⟨none, true, namesAt workingDirectory path⟩ := by
  unfold absolutePlace Path.normalize
  rw [ofText_absolute? hworking hpath]

lemma namesAt_rooted (hroot : path.toList.head? = some '/') :
    namesAt workingDirectory path = (Place.ofText path).names := by
  rw [namesAt, start, if_pos (startsWith_slash.2 hroot), ofText_rooted hroot]

lemma start_congr {path' : String} (h : path'.toList.head? = path.toList.head?) :
    start workingDirectory path' = start workingDirectory path := by
  unfold start
  simp only [startsWith_slash, h]

lemma start_append {tail : String} (hpath : path ≠ "") :
    start workingDirectory (path ++ tail) = start workingDirectory path := by
  refine start_congr ?_
  rw [String.toList_append, List.head?_append_of_ne_nil _ (by simpa using hpath)]

lemma exists_child (hpath : path ≠ "") (name : String) :
    ∃ xs, (Files.child path name).toList = xs ++ '/' :: name.toList ∧
      (∀ passed, reach passed path.toList = reach passed xs) ∧
      (path.toList = xs ∨ path.toList = xs ++ ['/']) ∧
      ∀ workingDirectory, start workingDirectory (Files.child path name) =
        start workingDirectory path := by
  unfold Files.child
  split
  · rename_i hslash
    obtain ⟨xs, hxs⟩ := endsWith_iff.1 hslash
    have hxs : path.toList = xs ++ ['/'] := hxs.symm
    refine ⟨xs, by rw [String.toList_append, hxs]; simp, fun passed => ?_, .inr hxs,
      fun _ => start_append hpath⟩
    rw [hxs, reach_append_cons passed xs [] rfl, reach_nil]
  · refine ⟨path.toList, by simp, fun _ => rfl, .inl rfl, fun _ => ?_⟩
    rw [String.append_assoc, start_append hpath]

/-- The file of a name in a directory. -/
lemma namesAt_child (hpath : path ≠ "") {name : String} (hname : Proper name.toList)
    (hne : name.toList ≠ parentName) :
    namesAt workingDirectory (Files.child path name) =
      namesAt workingDirectory path ++ [name.toList] := by
  obtain ⟨xs, hchild, hreach, -, hstart⟩ := exists_child hpath name
  have hstart := hstart workingDirectory
  rw [namesAt, namesAt, hstart, hchild, reach_append_cons _ xs _ rfl, ← hreach,
    reach_proper _ hname hne, List.reverse_cons]

/-- The directory that a file of a name was found in. -/
lemma namesAt_parentOf_child (hpath : path ≠ "") {name : String} (hname : '/' ∉ name.toList) :
    parentOf (Files.child path name) ≠ "" ∧
      namesAt workingDirectory (parentOf (Files.child path name)) =
        namesAt workingDirectory path := by
  obtain ⟨xs, hchild, hreach, hxs, -⟩ := exists_child hpath name
  have hlast := Text.lastIndex?_append_cons (p := (· = '/')) (c := '/') xs rfl
    (fun d hd => decide_eq_false fun hslash => hname (hslash ▸ hd))
  have hparent : parentOf (Files.child path name) = if xs = [] then "/" else String.ofList xs := by
    simp only [parentOf, hchild, hlast]
    cases xs with
    | nil => rfl
    | cons x xs => exact congrArg String.ofList List.take_left
  rw [hparent]
  cases xs with
  | nil =>
    obtain rfl : path = "/" := by
      rcases hxs with hxs | hxs
      · exact absurd (String.toList_eq_nil_iff.1 hxs) hpath
      · rw [← String.toList_inj, hxs]
        rfl
    exact ⟨by decide, rfl⟩
  | cons x xs =>
    have hhead : path.toList.head? = some x := by
      rcases hxs with hxs | hxs <;> rw [hxs] <;> rfl
    have hstart : start workingDirectory (String.ofList (x :: xs)) =
        start workingDirectory path := by
      refine start_congr ?_
      rw [hhead, String.toList_ofList, List.head?_cons]
    refine ⟨by simp, ?_⟩
    rw [if_neg (by simp), namesAt, namesAt, hstart, hreach, String.toList_ofList]

/-- Two texts for one directory give every name in it one place. -/
lemma namesAt_join {base base' : String} (hroot : base.toList.head? = some '/')
    (hroot' : base'.toList.head? = some '/') (h : reach [] base'.toList = reach [] base.toList)
    (name tail : String) :
    namesAt workingDirectory (join base' name ++ tail) =
      namesAt workingDirectory (join base name ++ tail) := by
  rcases join_cases hroot name tail with ⟨habs, hjoin⟩ | ⟨habs, hhead, hreach⟩
  · rcases join_cases hroot' name tail with ⟨-, hjoin'⟩ | ⟨habs', -⟩
    · rw [hjoin, hjoin']
    · rw [habs] at habs'
      cases habs'
  · rcases join_cases hroot' name tail with ⟨habs', -⟩ | ⟨-, hhead', hreach'⟩
    · rw [habs] at habs'
      cases habs'
    · rw [namesAt_rooted hhead, namesAt_rooted hhead', ofText_rooted hhead, ofText_rooted hhead',
        hreach, hreach', h]

section Rooted

variable (hroot : path.toList.head? = some '/')
include hroot

lemma absolute?_rooted :
    absolute? workingDirectory path = some
      (if path.endsWith "/" && !(rootOf path ++ "/".intercalate (stepNames path)).endsWith "/" then
        rootOf path ++ "/".intercalate (stepNames path) ++ "/"
      else rootOf path ++ "/".intercalate (stepNames path)) := by
  have hne : path.isEmpty = false := by
    have hpath : path ≠ "" := ne_empty_of_rooted hroot
    simpa using hpath
  simp only [absolute?, hne, startsWith_slash.2 hroot]
  rfl

/-- The absolute form of a path from the root on names the same place, with no other characters. -/
theorem exists_absolute?_rooted (hworking : workingDirectory.toList.head? = some '/') :
    ∃ full, absolute? workingDirectory path = some full ∧ full.toList.head? = some '/' ∧
      Place.ofText full = Place.ofText path ∧ ∀ c ∈ full.toList, c = '/' ∨ c ∈ path.toList := by
  have hpath : path ≠ "" := ne_empty_of_rooted hroot
  obtain ⟨full, hfull, hhead, hreach⟩ := exists_absolute? hworking hpath
  have hstart : start workingDirectory path = [] := if_pos (startsWith_slash.2 hroot)
  refine ⟨full, hfull, hhead, ?_, fun c hc => ?_⟩
  · rw [ofText_rooted hhead, hreach, hstart, ofText_rooted hroot]
  -- only pieces of the path and slashes are put together
  · have hjoined : ∀ c ∈ ("/".intercalate (stepNames path)).toList, c = '/' ∨ c ∈ path.toList := by
      intro c hc
      rw [String.toList_intercalate, toList_stepNames] at hc
      rcases mem_intercalate_slash hc with hc | ⟨part, hpart, hc⟩
      · exact .inl hc
      · exact .inr (Text.mem_of_mem_pieces (List.mem_of_mem_filter hpart) hc).1
    have hslashes : ∀ c ∈ (rootOf path).toList, c = '/' := by
      unfold rootOf
      split <;> simp
    rw [absolute?_rooted hroot] at hfull
    rw [← Option.some.inj hfull] at hc
    have hbody : ∀ c ∈ (rootOf path ++ "/".intercalate (stepNames path)).toList, c = '/' ∨
        c ∈ path.toList := by
      intro c hc
      rw [String.toList_append, List.mem_append] at hc
      exact hc.elim (fun hc => .inl (hslashes c hc)) (hjoined c)
    split at hc
    · rw [String.toList_append, List.mem_append] at hc
      exact hc.elim (hbody c) fun hc => .inl (List.mem_singleton.1 hc)
    · exact hbody c hc

/-- The absolute form of a path keeps its last name, if that has an extension. -/
theorem fileName_absolute? {tail : List Char}
    (hextension : extension path = String.ofList ('.' :: tail)) {full : String}
    (h : absolute? workingDirectory path = some full) : fileName full = fileName path := by
  obtain ⟨stem, hstem, hname⟩ := exists_stem hextension
  obtain ⟨xs, c, piece, hpath, hc, hpiece⟩ : ∃ xs c ys, path.toList = xs ++ c :: ys ∧
      decide (c = '/') = true ∧
      ∀ d ∈ ys, decide (d = '/') = false := exists_last ⟨'/', List.mem_of_mem_head? hroot, rfl⟩
  obtain rfl : c = '/' := of_decide_eq_true hc
  have hlast : fileName path = fileName (String.ofList piece) :=
    fileName_append_cons rfl hpath (String.toList_ofList)
  -- the last piece holds the name, so it is not one of those that are dropped
  have hlength : 2 ≤ piece.length := by
    have hle : (fileName (String.ofList piece)).toList.length ≤ piece.length := by
      rw [fileName, String.toList_ofList, String.toList_ofList, List.length_drop]
      exact Nat.sub_le _ _
    rw [← hlast, hname, List.length_append, List.length_cons] at hle
    have hpos := List.length_pos_of_ne_nil hstem
    omega
  have hkept : leads piece = true := by
    have hnil : piece ≠ [] := fun hnil => by simp [hnil] at hlength
    have hdot : piece ≠ ['.'] := fun hdot => by simp [hdot] at hlength
    simp [leads, hnil, hdot]
  have hsteps : ((stepNames path).map String.toList) =
      ((Text.pieces (· = '/') xs).filter leads) ++ [piece] := by
    rw [toList_stepNames, hpath, Text.pieces_append_cons xs piece (by decide),
      Text.pieces_of_forall hpiece, List.filter_append, List.filter_cons_of_pos hkept,
      List.filter_nil]
  have hend : path.endsWith "/" = false := by
    rw [Bool.eq_false_iff]
    intro hslash
    obtain ⟨ys, hys⟩ := endsWith_iff.1 hslash
    have hys : path.toList = ys ++ '/' :: [] := hys.symm
    have hempty := toList_fileName rfl (by simp) hys
    rw [hname] at hempty
    simp at hempty
  rw [absolute?_rooted hroot, hend] at h
  obtain ⟨ys, hys⟩ := exists_cons_intercalate
    ((Text.pieces (· = '/') xs).filter leads) piece
  have hfull : ∃ zs, full.toList = zs ++ '/' :: piece := by
    rw [← Option.some.inj h]
    simp only [Bool.false_and, Bool.false_eq_true, if_false, String.toList_append,
      String.toList_intercalate, hsteps]
    unfold rootOf
    split
    · exact ⟨'/' :: ys, congrArg ('/' :: ·) hys⟩
    · exact ⟨ys, hys⟩
  obtain ⟨zs, hzs⟩ := hfull
  rw [hlast]
  exact fileName_append_cons rfl hzs String.toList_ofList

end Rooted

end Tool

end SceneExport
