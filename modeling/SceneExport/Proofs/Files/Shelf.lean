import Mathlib
import SceneExport.Proofs.Files.Complete
import SceneExport.Proofs.Files.Keeping
import SceneExport.Proofs.Tool.Location

/-!
# Files by their normalized paths

A shelf holds files and nothing else: a map from places to contents, where the place of a path is
what its absolute form is normalized to. There are no links on a shelf, and no directories of their
own. So every path but the empty one can be written to, and an export always comes to an end there.
-/
namespace SceneExport

open Tool (namesAt namesAt_rooted absolutePlace absolutePlace_eq)

structure Shelf where
  files : AList fun _ : List String => Bytes
  /-- The path where relative paths start. -/
  workingDirectory : String
  rooted : workingDirectory.toList.head? = some '/'
  /-- The names that lead to a file are normal. -/
  normal : ∀ place ∈ files, Path.Normal true (place.map String.toList).reverse

namespace Shelf

variable {s : Shelf} {path : String} {bytes : Bytes}

/-- The names that are left of a path when it is made absolute and normalized. -/
def place (s : Shelf) (path : String) : List String :=
  (Path.Place.ofText ((Tool.absolute? s.workingDirectory path).getD path)).names.map String.ofList

lemma place_eq (s : Shelf) (hpath : path ≠ "") :
    s.place path = (namesAt s.workingDirectory path).map String.ofList := by
  rw [place, Tool.ofText_absolute? s.rooted hpath]

lemma map_toList_ofList (names : List Path.Name) :
    (names.map String.ofList).map String.toList = names := by
  simp [Function.comp_def]

lemma place_eq_iff {path' : String} (hpath : path ≠ "") (hpath' : path' ≠ "") :
    s.place path' = s.place path ↔
      namesAt s.workingDirectory path' = namesAt s.workingDirectory path := by
  rw [s.place_eq hpath, s.place_eq hpath']
  exact (List.map_injective_iff.2 fun _ _ => String.ofList_injective).eq_iff

lemma place_congr {s' : Shelf} (h : s'.workingDirectory = s.workingDirectory) :
    s'.place = s.place := by
  funext path
  rw [place, place, h]

lemma place_eq_of_ofText {path' : String} (hroot : path.toList.head? = some '/')
    (hroot' : path'.toList.head? = some '/')
    (h : Path.Place.ofText path' = Path.Place.ofText path) :
    s.place path' = s.place path := by
  rw [place_eq_iff (Path.ne_empty_of_rooted hroot) (Path.ne_empty_of_rooted hroot'),
    namesAt_rooted hroot, namesAt_rooted hroot', h]

/-- A path to the same place has the same normal form. -/
lemma absolutePlace_eq_normalize {text : String} (hroot : path.toList.head? = some '/')
    (hne : text ≠ "") (h : s.place text = s.place path) :
    absolutePlace s.workingDirectory text = Path.normalize path := by
  rw [absolutePlace_eq s.rooted hne, (place_eq_iff (Path.ne_empty_of_rooted hroot) hne).1 h,
    namesAt_rooted hroot, Path.normalize, Path.ofText_rooted hroot]

lemma place_normalize_rooted {text : String} (hroot : text.toList.head? = some '/')
    (hcolon : ':' ∉ text.toList) : s.place (Path.normalize text) = s.place text := by
  obtain ⟨hnormal, hplace⟩ := Path.normalize_rooted hroot hcolon
  exact place_eq_of_ofText hroot (by rw [hnormal]; rfl) hplace

lemma normal_place (s : Shelf) (path : String) :
    Path.Normal true ((s.place path).map String.toList).reverse := by
  by_cases hpath : path = ""
  · subst hpath
    exact .nil
  · rw [s.place_eq hpath, map_toList_ofList, namesAt, List.reverse_reverse]
    refine Path.normal_reach ?_ _
    unfold Tool.start
    split
    · exact .nil
    · exact Path.normal_reach .nil _

/-- The content of the file at each place. -/
def content (s : Shelf) : Contents := fun place => s.files.lookup place

def find? (s : Shelf) (path : String) : Option Bytes :=
  if path = "" then none else s.content (s.place path)

def put (s : Shelf) (path : String) (bytes : Bytes) : Shelf :=
  { s with
    files := s.files.insert (s.place path) bytes
    normal :=
      fun place hplace => (AList.mem_insert _ |>.1 hplace).elim (fun h => h ▸ s.normal_place path)
      (s.normal place) }

def erase (s : Shelf) (path : String) : Shelf :=
  { s with
    files := s.files.erase (s.place path)
    normal := fun place hplace => s.normal place (AList.mem_erase.1 hplace).2 }

/-- The files at and below a path, by the names behind it. -/
def filesBelow (s : Shelf) (path : String) : List (List String) :=
  if path = "" then [] else s.files.keys.filterMap (Disk.behind? (s.place path))

def missing : String := "No such file or directory"

def read (s : Shelf) (path : String) : Except String Bytes :=
  (s.find? path).elim (.error missing) .ok

/-- Runs an operation that may fail and then changes nothing. -/
def attempt (f : Shelf → Option Shelf) : StateM Shelf (Except String Unit) := fun s =>
  match f s with
  | some s' => (.ok (), s')
  | none => (.error missing, s)

instance : Files (StateM Shelf) where
  isFile path := return ((← get).find? path).isSome
  isDirectory path := return ((← get).filesBelow path).any (· ≠ [])
  read path := return (← get).read path
  write path content := attempt fun s => if path = "" then none else some (s.put path content)
  rename source target := attempt fun s =>
    if target = "" then none else (s.find? source).map ((s.erase source).put target)
  remove path := attempt fun s => (s.find? path).map fun _ => s.erase path
  makeDirectories path := return if path = "" then .error missing else .ok ()
  filesBelow path := return (← get).filesBelow path
  workingDirectory := return (← get).workingDirectory

instance : Export.LooksOnly Shelf := ⟨fun _ _ => rfl, fun _ _ => rfl⟩

lemma content_put (s : Shelf) (path : String) (bytes : Bytes) :
    (s.put path bytes).content = s.content.set (some (s.place path)) (some bytes) := by
  funext place
  rw [Contents.set]
  split
  · rename_i h
    rw [← Option.some.inj h]
    exact AList.lookup_insert _
  · rename_i h
    exact AList.lookup_insert_ne fun heq => h (congrArg some heq.symm)

lemma content_erase (s : Shelf) (path : String) :
    (s.erase path).content = s.content.set (some (s.place path)) none := by
  funext place
  rw [Contents.set]
  split
  · rename_i h
    rw [← Option.some.inj h]
    exact AList.lookup_erase _ _
  · rename_i h
    exact AList.lookup_erase_ne fun heq => h (congrArg some heq.symm)

lemma find?_eq (hpath : path ≠ "") : s.find? path = s.content (s.place path) :=
  if_neg hpath

lemma find?_put_self (hpath : path ≠ "") : (s.put path bytes).find? path = some bytes := by
  rw [find?, if_neg hpath, content_put]
  exact if_pos rfl

lemma run_attempt {f : Shelf → Option Shelf} {s' : Shelf} (h : f s = some s') :
    (attempt f).run s = (.ok (), s') := by
  simp only [attempt, StateT.run, h]

lemma run_write (hpath : path ≠ "") :
    (Files.write path bytes : StateM Shelf (Except String Unit)).run s =
      (.ok (), s.put path bytes) :=
  run_attempt (if_neg hpath)

lemma behind?_eq_some_iff {front place rest : List String} :
    Disk.behind? front place = some rest ↔ place = front ++ rest := by
  induction front generalizing place with
  | nil => simp [Disk.behind?]
  | cons f front ih =>
    cases place with
    | nil => simp [Disk.behind?]
    | cons p place =>
      by_cases h : f = p
      · simp [Disk.behind?, h, ih]
      · simp [Disk.behind?, h, Ne.symm h]

variable {names : List String}

lemma mem_filesBelow (hpath : path ≠ "") :
    names ∈ s.filesBelow path ↔ s.place path ++ names ∈ s.files := by
  rw [filesBelow, if_neg hpath, List.mem_filterMap]
  simp only [behind?_eq_some_iff, exists_eq_right]
  exact AList.mem_keys.symm

lemma nodup_filesBelow (s : Shelf) (path : String) : (s.filesBelow path).Nodup := by
  unfold filesBelow
  split
  · exact List.nodup_nil
  · refine s.files.keys_nodup.filterMap fun a b rest ha hb => ?_
    rw [behind?_eq_some_iff.1 ha, behind?_eq_some_iff.1 hb]

/-- The place of a path, with normal names behind it. -/
lemma place_foldl_child (hpath : path ≠ "")
    (h : ∀ name ∈ names, Path.Proper name.toList ∧ name.toList ≠ Path.parentName) :
    names.foldl Files.child path ≠ "" ∧
    s.place (names.foldl Files.child path) = s.place path ++ names := by
  induction names generalizing path with
  | nil => exact ⟨hpath, (List.append_nil _).symm⟩
  | cons name names ih =>
    obtain ⟨⟨hname, hne⟩, hnames⟩ := List.forall_mem_cons.1 h
    have hchild : Files.child path name ≠ "" := by
      intro hempty
      obtain ⟨xs, hxs, -⟩ := Tool.exists_child hpath name
      simp [hempty] at hxs
    obtain ⟨hfold, hplace⟩ := ih hchild hnames
    refine ⟨hfold, ?_⟩
    rw [List.foldl_cons, hplace, s.place_eq hchild, s.place_eq hpath,
      Tool.namesAt_child hpath hname hne]
    simp

/-- The names behind a path that lead to a file are normal. -/
lemma forall_mem_of_mem_filesBelow (hpath : path ≠ "") (h : names ∈ s.filesBelow path) :
    ∀ name ∈ names, Path.Proper name.toList ∧ name.toList ≠ Path.parentName := by
  intro name hname
  have hnormal := s.normal _ ((mem_filesBelow hpath).1 h)
  have hmem : name.toList ∈ ((s.place path ++ names).map String.toList).reverse :=
    List.mem_reverse.2 (List.mem_map_of_mem (List.mem_append_right _ hname))
  exact ⟨hnormal.proper _ hmem, fun hparent => hnormal.parentName_notMem (hparent ▸ hmem)⟩

/-- Files found below a path have paths of their own. -/
lemma foldl_child_injOn {s' : Shelf} (hworking : s'.workingDirectory = s.workingDirectory)
    {names' : List String} (hpath : path ≠ "") (h : names ∈ s.filesBelow path)
    (h' : names' ∈ s'.filesBelow path)
    (heq : names'.foldl Files.child path = names.foldl Files.child path) : names' = names := by
  have hplace := (place_foldl_child (s := s) hpath (forall_mem_of_mem_filesBelow hpath h)).2
  have hplace' := (place_foldl_child (s := s') hpath (forall_mem_of_mem_filesBelow hpath h')).2
  rw [place_congr hworking, heq, hplace] at hplace'
  exact (List.append_cancel_left hplace').symm

end Shelf

namespace Export

variable {spot? : String → Option (List String)} {files files' : List (String × Bytes)}

/-- Two files with one content that come to one place, and pass one place on their way. -/
def SameSpots (spot? : String → Option (List String)) (a b : String × Bytes) : Prop :=
  spot? b.1 = spot? a.1 ∧ spot? (partOf b.1) = spot? (partOf a.1) ∧ b.2 = a.2

lemma sameSpots_mk {path path' : String} (h : ∀ tail, spot? (path' ++ tail) = spot? (path ++ tail))
    (bytes : Bytes) : SameSpots spot? (path, bytes) (path', bytes) := by
  have hself := h ""
  rw [String.append_empty, String.append_empty] at hself
  exact ⟨hself, h ".part", rfl⟩

/-- Only the places of the files count, and those of their second files. -/
lemma afterFiles_congr (h : List.Forall₂ (SameSpots spot?) files files') (f : Contents) :
    afterFiles spot? files' f = afterFiles spot? files f := by
  induction h generalizing f with
  | nil => rfl
  | cons hfile _ ih =>
    obtain ⟨hspot, hpart, hcontent⟩ := hfile
    rw [afterFiles_cons, afterFiles_cons, hspot, hpart, hcontent, ih]

/-- A place that files come to, or pass, is in the end as they leave it. -/
lemma afterFiles_of_touched {place : List String}
    (h : ∃ file ∈ files, spot? file.1 = some place ∨ spot? (partOf file.1) = some place)
    (f g : Contents) : afterFiles spot? files f place = afterFiles spot? files g place := by
  induction files generalizing f g with
  | nil => simp at h
  | cons file files ih =>
    rw [afterFiles_cons, afterFiles_cons]
    by_cases hlater : ∃ other ∈ files, spot? other.1 = some place ∨
      spot? (partOf other.1) = some place
    · exact ih hlater _ _
    · have huntouched : ∀ other ∈ files, spot? other.1 ≠ some place ∧
          spot? (partOf other.1) ≠ some place := by
        simpa only [not_exists, not_and, not_or] using hlater
      obtain ⟨other, hother, htouched⟩ := h
      have hfile : spot? file.1 = some place ∨ spot? (partOf file.1) = some place := by
        rcases List.mem_cons.1 hother with rfl | hother
        · exact htouched
        · exact absurd ⟨other, hother, htouched⟩ hlater
      rw [afterFiles_of_untouched _ huntouched, afterFiles_of_untouched _ huntouched]
      simp only [Contents.set]
      split_ifs
      · rfl
      · rfl
      · exact absurd hfile (not_or.2 ⟨‹_›, ‹_›⟩)

/-- A place that no second file passes holds one of the files in the end, or what was there
before. -/
lemma afterFiles_cases {place : List String}
    (hpart : ∀ file ∈ files, spot? (partOf file.1) ≠ some place) (f : Contents) :
    (∃ file ∈ files, spot? file.1 = some place ∧ afterFiles spot? files f place = some file.2) ∨
      afterFiles spot? files f place = f place := by
  induction files generalizing f with
  | nil => exact .inr rfl
  | cons file files ih =>
    obtain ⟨hfile, hrest⟩ := List.forall_mem_cons.1 hpart
    rw [afterFiles_cons]
    rcases ih hrest _ with ⟨other, hother, hspot, hcontent⟩ | hsame
    · exact .inl ⟨other, List.mem_cons_of_mem _ hother, hspot, hcontent⟩
    · rw [hsame]
      by_cases hspot : spot? file.1 = some place
      · exact .inl ⟨file, List.mem_cons_self, hspot, if_pos hspot⟩
      · refine .inr ?_
        rw [Contents.set, if_neg hspot, Contents.set, if_neg hfile]

/-- Writing the files of an export once more changes nothing, unless something else came to a place
of theirs. -/
theorem afterFiles_again (f : Contents) {changed place : List String} {content : Option Bytes}
    (h : place = changed →
      ∀ file ∈ files, spot? file.1 ≠ some place ∧ spot? (partOf file.1) ≠ some place) :
    afterFiles spot? files ((afterFiles spot? files f).set (some changed) content) place =
      (afterFiles spot? files f).set (some changed) content place := by
  by_cases htouched : ∃ file ∈ files, spot? file.1 = some place ∨ spot? (partOf file.1) = some place
  · have hne : some changed ≠ some place := by
      intro heq
      obtain ⟨file, hfile, hspot⟩ := htouched
      obtain ⟨hpath, hpart⟩ := h (Option.some.inj heq).symm file hfile
      exact hspot.elim hpath hpart
    rw [afterFiles_of_touched htouched _ f, Contents.set, if_neg hne]
  · refine afterFiles_of_untouched _ fun file hfile => ?_
    exact not_or.1 fun hspot => htouched ⟨file, hfile, hspot⟩

end Export

namespace Shelf

open Export (afterFiles partOf writeAll writeWhole)

variable {s : Shelf} {path : String} {bytes : Bytes} {files : List (String × Bytes)}

/-- The shelf with a file that was written through a second one. -/
def store (s : Shelf) (path : String) (bytes : Bytes) : Shelf :=
  ((s.put (partOf path) bytes).erase (partOf path)).put path bytes

def storeAll (s : Shelf) (files : List (String × Bytes)) : Shelf :=
  files.foldl (fun s file => s.store file.1 file.2) s

lemma content_store (s : Shelf) (path : String) (bytes : Bytes) : (s.store path bytes).content =
    (s.content.set (some (s.place (partOf path))) none).set (some (s.place path)) (some bytes) := by
  rw [store, content_put, content_erase, content_put]
  exact congrArg (fun f => Contents.set f _ _) (Contents.set_set ..)

lemma partOf_ne_empty (path : String) : partOf path ≠ "" := by
  intro h
  simpa [partOf] using congrArg String.toList h

lemma run_writeWhole (hpath : path ≠ "") :
    (writeWhole path bytes : StateM Shelf (Except Export.Error Unit)).run s =
      (.ok (), s.store path bytes) := by
  have hrename : (Files.rename (partOf path) path : StateM Shelf (Except String Unit)).run
      (s.put (partOf path) bytes) = (.ok (), s.store path bytes) := by
    refine run_attempt ((if_neg hpath).trans ?_)
    rw [find?_put_self (partOf_ne_empty path)]
    rfl
  rw [Export.run_writeWhole, run_write (partOf_ne_empty path)]
  dsimp only
  rw [hrename]

/-- On a shelf all files are written. -/
theorem run_writeAll (h : ∀ file ∈ files, file.1 ≠ "") (written : List String) :
    (writeAll written files : StateM Shelf (Except Export.Error Unit)).run s =
      (.ok (), s.storeAll files) := by
  induction files generalizing s written with
  | nil => rfl
  | cons file files ih =>
    obtain ⟨hfile, hfiles⟩ := List.forall_mem_cons.1 h
    obtain ⟨path, bytes⟩ := file
    rw [Export.run_writeAll_cons, run_writeWhole hfile]
    exact ih hfiles _

lemma workingDirectory_storeAll (s : Shelf) (files : List (String × Bytes)) :
    (s.storeAll files).workingDirectory = s.workingDirectory := by
  induction files generalizing s with
  | nil => rfl
  | cons file files ih => exact ih _

lemma content_storeAll (s : Shelf) (files : List (String × Bytes)) :
    (s.storeAll files).content = afterFiles (fun path => some (s.place path)) files s.content := by
  induction files generalizing s with
  | nil => rfl
  | cons file files ih =>
    rw [Export.afterFiles_cons, ← content_store]
    exact ih _

/-- The last name of the place ends with the character. -/
def EndsIn (c : Char) (place : List String) : Prop :=
  ∃ name, place.getLast? = some name ∧ name.toList.getLast? = some c

lemma EndsIn.unique {c d : Char} {place : List String} (hc : EndsIn c place) (hd : EndsIn d place) :
    c = d := by
  obtain ⟨name, hname, hc⟩ := hc
  obtain ⟨name', hname', hd⟩ := hd
  obtain rfl : name = name' := Option.some.inj (hname.symm.trans hname')
  exact Option.some.inj (hc.symm.trans hd)

lemma endsIn_of_reach {c : Char} (hpath : path ≠ "")
    (h : ∃ name rest, Path.reach (Tool.start s.workingDirectory path) path.toList = name :: rest ∧
      name.getLast? = some c) :
    EndsIn c (s.place path) := by
  obtain ⟨name, rest, hreach, hname⟩ := h
  refine ⟨String.ofList name, ?_, by rw [String.toList_ofList, hname]⟩
  rw [s.place_eq hpath, namesAt, hreach]
  simp

lemma endsIn_place (s : Shelf) {c : Char} (hlast : path.toList.getLast? = some c)
    (hslash : Path.isSlash c = false) (hdot : c ≠ '.') : EndsIn c (s.place path) := by
  have hpath : path ≠ "" := by
    rintro rfl
    cases hlast
  exact endsIn_of_reach hpath (Path.exists_reach_getLast? _ hlast hslash hdot)

/-- The same files where the last name ends as that of a manifest does, and of the binary file
beside it. -/
structure Spares (s s' : Shelf) : Prop where
  working : s'.workingDirectory = s.workingDirectory
  content : ∀ place, EndsIn 'n' place → s'.content place = s.content place

instance : IsPreorder Shelf Spares where
  refl _ := ⟨rfl, fun _ _ => rfl⟩
  trans _ _ _ h h' :=
    ⟨h'.working.trans h.working, fun place hplace => (h'.content place hplace).trans
      (h.content place hplace)⟩

lemma spares_store {c : Char} (hlast : path.toList.getLast? = some c)
    (hslash : Path.isSlash c = false) (hdot : c ≠ '.') (hn : c ≠ 'n') :
    Spares s (s.store path bytes) := by
  refine ⟨rfl, fun place hplace => ?_⟩
  have hpart : (partOf path).toList.getLast? = some 't' := by simp [partOf]
  have hne : some (s.place path) ≠ some place := by
    intro heq
    rw [← Option.some.inj heq] at hplace
    exact hn ((s.endsIn_place hlast hslash hdot).unique hplace)
  have hne' : some (s.place (partOf path)) ≠ some place := by
    intro heq
    rw [← Option.some.inj heq] at hplace
    exact absurd ((s.endsIn_place hpart rfl (by decide)).unique hplace) (by decide)
  rw [content_store, Contents.set, if_neg hne, Contents.set, if_neg hne']

lemma getLast?_documentPath (path : String) :
    ∃ c, (Html.documentPath path).toList.getLast? = some c ∧ Text.asciiLower c = 'l' := by
  unfold Html.documentPath
  split
  · rename_i hend
    obtain ⟨front, hfront⟩ := endsWith_iff.1 hend
    have hlast : (path.toList.map Text.asciiLower).getLast? = some 'l' := by
      rw [← hfront.trans String.toList_ofList, List.getLast?_append_of_ne_nil _ (by decide)]
      rfl
    rw [List.getLast?_map, Option.map_eq_some_iff] at hlast
    exact hlast
  · exact ⟨'l', by simp, rfl⟩

/-- A document and its second file come to other places. -/
theorem keeps_writeWhole_document (path : String) (bytes : Bytes) :
    Keeps Spares (writeWhole (Html.documentPath path) bytes : StateM Shelf _) := by
  intro s
  obtain ⟨c, hlast, hc⟩ := getLast?_documentPath path
  have hother : ∀ d, Text.asciiLower d ≠ 'l' → c ≠ d := fun d hd heq => hd (heq ▸ hc)
  have hpath : Html.documentPath path ≠ "" := by
    intro hempty
    rw [hempty] at hlast
    cases hlast
  have hslash : Path.isSlash c = false := by
    simp [Path.isSlash, hother '/' (by decide), hother '\\' (by decide)]
  rw [run_writeWhole hpath]
  exact spares_store hlast hslash (hother '.' (by decide)) (hother 'n' (by decide))

end Shelf

end SceneExport
