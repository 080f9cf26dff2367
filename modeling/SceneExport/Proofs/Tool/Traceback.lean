import Mathlib
import SceneExport.Proofs.Manifest.Header
import SceneExport.Proofs.Project.Roundtrip
import SceneExport.Proofs.Tool.SavedPath
import SceneExport.Proofs.Walk.Elsewhere

/-!
# Back from a manifest to its project

A manifest names its project by a relative path, and the project remembers where it was exported to.
When the path was saved by the export itself, both lead back: the path in the header to the project,
and the path in the project to the manifest. The project is then exported once more, to the normal
form of the same path, and the files that this writes are those that are there.
-/
namespace SceneExport

open Tool

namespace Shelf

variable {s : Shelf} {path relative : String} {options : ReexportOptions}

/-- The header in a manifest file. -/
def header? (s : Shelf) (path : String) : Option Manifest.Header :=
  (s.text? path).bind fun text => (Manifest.Header.ofText text).toOption

/-- The file is a manifest. -/
def HasManifest (s : Shelf) (path : String) : Prop :=
  ∃ header, s.header? path = some header ∧
    (header.version?.map Version.isPositive).getD false = true

/-- The bytes are those of a manifest. -/
def HoldsManifest (bytes : Bytes) : Prop :=
  ∃ text header, Bytes.toText? bytes = some text ∧
    (Manifest.Header.ofText text).toOption = some header ∧
    (header.version?.map Version.isPositive).getD false = true

lemma hasManifest_iff (hpath : path ≠ "") :
    s.HasManifest path ↔ ∃ bytes, s.content (s.place path) = some bytes ∧ HoldsManifest bytes := by
  simp only [HasManifest, HoldsManifest, header?, text?, find?_eq hpath, Option.bind_eq_some_iff]
  constructor
  · rintro ⟨header, ⟨text, ⟨bytes, hbytes, htext⟩, hheader⟩, hpositive⟩
    exact ⟨bytes, hbytes, text, header, htext, hheader, hpositive⟩
  · rintro ⟨bytes, hbytes, text, header, htext, hheader, hpositive⟩
    exact ⟨header, ⟨text, ⟨bytes, hbytes, htext⟩, hheader⟩, hpositive⟩

lemma run_readHeader? (s : Shelf) (path : String) :
    (readHeader? path : StateM Shelf (Option Manifest.Header)).run s = (s.header? path, s) := by
  rw [readHeader?, StateT.run_bind, header?]
  cases htext : s.text? path with
  | none =>
    obtain ⟨reason, hread⟩ := run_readText_none htext
    rw [hread]
    rfl
  | some text =>
    rw [run_readText htext]
    rfl

/-- What is no manifest is passed over, or reported as unreadable. -/
lemma run_reexportJson_idle (options : ReexportOptions) (assets : Option (List String))
    (h : ¬ s.HasManifest path) :
    ∃ reports, (reexportJson options assets path : StateM Shelf (List Report)).run s =
      (reports, s) := by
  rw [reexportJson, StateT.run_bind, run_readHeader?]
  cases hheader : s.header? path with
  | none => exact ⟨[⟨path, .badJson, none⟩], rfl⟩
  | some header =>
    have hidle : (header.version?.map Version.isPositive).getD false = false := by
      rw [Bool.eq_false_iff]
      exact fun hpositive => h ⟨header, hheader, hpositive⟩
    refine ⟨[], ?_⟩
    dsimp only [bind]
    rw [hidle]
    rfl

/-- The project file that a relative path leads to, from the directory of a file. -/
def sceneOf (s : Shelf) (path relative : String) : String :=
  Path.normalize (Path.join (absolutePlace s.workingDirectory (parentOf path)) relative)

lemma run_sourceScene? (h : (s.find? (s.sceneOf path relative)).isSome = true) :
    (sourceScene? path relative : StateM Shelf (Option String)).run s =
      (some (s.sceneOf path relative), s) := by
  have hrun : (sourceScene? path relative : StateM Shelf (Option String)).run s =
      (if (s.find? (s.sceneOf path relative)).isSome then some (s.sceneOf path relative)
        else none, s) := rfl
  rw [hrun, if_pos h]

lemma run_traceBack {p : Project} {saved : Project → Option String}
    (hproject : s.project? (s.sceneOf path relative) = some p) (hsaved : p.isSaved = true)
    (hown : (saved p).map Path.normalize = some (absolutePlace s.workingDirectory path)) :
    (traceBack path relative saved : StateM Shelf
      (Except Report (String × Project × String))).run s =
      (.ok (s.sceneOf path relative, p, absolutePlace s.workingDirectory path), s) := by
  have hfind : (s.find? (s.sceneOf path relative)).isSome = true := by
    obtain ⟨text, htext, -⟩ := Option.bind_eq_some_iff.1 hproject
    obtain ⟨bytes, hbytes, -⟩ := Option.bind_eq_some_iff.1 htext
    rw [hbytes]
    rfl
  have hne : s.sceneOf path relative ≠ "" := Path.normalize_ne_empty _
  obtain ⟨full, hfull, -⟩ := exists_absolute? s.rooted hne
  have hload := run_loadScene hproject hfull
  rw [if_pos hsaved] at hload
  have hplace : (workingPlace path : StateM Shelf String).run s =
      (absolutePlace s.workingDirectory path, s) := rfl
  rw [traceBack, StateT.run_bind, run_sourceScene? hfind]
  dsimp only [bind]
  change StateT.run (_ >>= _ : StateM Shelf _) s = _
  rw [StateT.run_bind, hload]
  dsimp only [bind]
  change StateT.run (_ >>= _ : StateM Shelf _) s = _
  rw [StateT.run_bind, hplace]
  dsimp only [bind]
  rw [if_pos hown]
  rfl

/-- A manifest that is traced back to its project is exported again. -/
lemma run_reexportJson {header : Manifest.Header} {scene own : String} {p : Project}
    (hheader : s.header? path = some header)
    (hpositive : (header.version?.map Version.isPositive).getD false = true)
    (hsource : header.source = some relative) (hrelative : relative ≠ "")
    (htrace : (traceBack path relative Project.exportPathJson :
      StateM Shelf (Except Report (String × Project × String))).run s = (.ok (scene, p, own), s))
    (hreport : options.reportOnly = false) {result : Except Export.Error Export.Output} {s' : Shelf}
    (hexport : (runExport options.config.output (Export.writeJson p own) :
      StateM Shelf (Except Export.Error Export.Output)).run s = (result, s')) :
    (reexportJson options none path : StateM Shelf (List Report)).run s =
      ([outcomeOf path scene result], s') := by
  rw [reexportJson, StateT.run_bind, run_readHeader?, hheader]
  dsimp only [bind]
  rw [hpositive, if_neg (by decide), hsource]
  split
  · cases ‹_›
  · exact absurd (Option.some.inj ‹_›) hrelative
  · obtain rfl := Option.some.inj ‹_›
    change StateT.run (_ >>= _ : StateM Shelf _) s = _
    rw [StateT.run_bind, htrace]
    dsimp only [bind]
    rw [hreport, if_neg (by decide)]
    change StateT.run (_ >>= _ : StateM Shelf _) s = _
    rw [StateT.run_bind, hexport]
    rfl

end Shelf

namespace Tool

variable {workingDirectory output path : String}

/-- A path from the root on, without a drive, that ends with the name of a file. -/
structure NamesFile (path : String) : Prop where
  rooted : path.toList.head? = some '/'
  colon : ':' ∉ path.toList
  proper : Path.Proper (Path.fileName path).toList
  ne_parent : (Path.fileName path).toList ≠ Path.parentName

/-- A name with an extension is that of a file. -/
lemma NamesFile.of_extension {tail : List Char} (hroot : path.toList.head? = some '/')
    (hcolon : ':' ∉ path.toList) (htail : tail ≠ [])
    (h : Path.extension path = String.ofList ('.' :: tail)) : NamesFile path := by
  obtain ⟨stem, hstem, hname⟩ := Path.exists_stem h
  obtain ⟨-, -, -, -, hslash, -⟩ := Path.exists_fileName hroot
  have hlength : 2 < (Path.fileName path).toList.length := by
    have hstem := List.length_pos_of_ne_nil hstem
    have htail := List.length_pos_of_ne_nil htail
    rw [hname, List.length_append, List.length_cons]
    omega
  refine ⟨hroot, hcolon, ⟨?_, ?_, fun hd => ?_, fun hd => ?_⟩, ?_⟩
  · intro hnil
    simp [hnil] at hlength
  · intro hdot
    simp [hdot] at hlength
  · exact absurd (hslash _ hd) (by decide)
  · exact absurd (hslash _ hd) (by decide)
  · intro hparent
    simp [hparent, Path.parentName] at hlength

lemma NamesFile.names_ofText (h : NamesFile path) : (Path.Place.ofText path).names =
    (Path.reach [] (Path.directory path).toList).reverse ++ [(Path.fileName path).toList] := by
  rw [Path.ofText_rooted h.rooted, Path.reach_fileName h.rooted h.proper h.ne_parent,
    List.reverse_cons]

/-- The absolute form of an export path names the same file. -/
lemma exists_target (hworking : workingDirectory.toList.head? = some '/') {tail : List Char}
    (hroot : output.toList.head? = some '/') (hcolon : ':' ∉ output.toList) (htail : tail ≠ [])
    (h : Path.extension output = String.ofList ('.' :: tail)) :
    ∃ path, absolute? workingDirectory output = some path ∧ NamesFile path ∧
      Path.fileName path = Path.fileName output ∧
      Path.Place.ofText path = Path.Place.ofText output := by
  obtain ⟨path, hpath, hrooted, hplace, hchars⟩ := exists_absolute?_rooted hroot hworking
  have hname := fileName_absolute? hroot h hpath
  have hfile := NamesFile.of_extension hroot hcolon htail h
  refine ⟨path, hpath, ⟨hrooted, fun hc => ?_, hname ▸ hfile.proper, hname ▸ hfile.ne_parent⟩,
    hname, hplace⟩
  rcases hchars _ hc with hc | hc
  · exact absurd hc (by decide)
  · exact hcolon hc

/-- The path that an export writes for its project leads back to the project, from any spelling of
the directory. -/
lemma exists_sourceFromExport {source : String} (hpath : NamesFile path)
    (hroot : source.toList.head? = some '/') (hcolon : ':' ∉ source.toList) :
    ∃ relative, relative ≠ "" ∧ Path.sourceFromExport source path = .ok relative ∧
      Path.normalize (Path.join (Path.normalize (Path.directory path)) relative) =
        Path.normalize source := by
  have habsolute : ∀ text : String, text.toList.head? = some '/' → Path.isAbsolute text = true := by
    intro text htext
    rw [Path.isAbsolute, Path.ofText_rooted htext]
  obtain ⟨-, hdirColon, -⟩ := Path.Place.directory_absolute hpath.colon (habsolute _ hpath.rooted)
  have hdirRoot := Path.head?_directory hpath.rooted
  obtain ⟨htext, hplace⟩ := Path.normalize_rooted hdirRoot hdirColon
  have hnormalColon : ':' ∉ (Path.normalize (Path.directory path)).toList :=
    Path.Place.colon_notMem_toText (Path.Place.plain_ofText hdirColon)
  obtain ⟨p, -, hrelative, hback⟩ := Path.Place.exists_relativeTo hcolon (habsolute _ hroot)
    (Path.normalize_ne_empty _) hnormalColon (habsolute _ (by rw [htext]; rfl))
  have hsource : source.isEmpty = false := by
    simpa using Path.ne_empty_of_rooted hroot
  refine ⟨p.toText, Path.toText_ne_empty p, ?_, hback⟩
  unfold Path.relativeTo at hrelative
  rw [hplace] at hrelative
  unfold Path.sourceFromExport Path.relativeTo
  rw [hsource, hrelative]
  rfl

end Tool

namespace Shelf

variable {s : Shelf} {directory output path : String} {names : List String}

/-- A file that was found below a directory: its path there names its place, and the directory of
this path names the place of the directory it is in. -/
lemma place_found (hdirectory : directory ≠ "") (hnames : names ≠ [])
    (hplace : s.place output = s.place directory ++ names) :
    names.foldl Files.child directory ≠ "" ∧
    s.place (names.foldl Files.child directory) = s.place output ∧
      parentOf (names.foldl Files.child directory) ≠ "" ∧
      s.place output = s.place (parentOf (names.foldl Files.child directory)) ++
        [names.getLast hnames] := by
  have hnormal : ∀ name ∈ names, Path.Proper name.toList ∧ name.toList ≠ Path.parentName := by
    intro name hname
    have hmem : name.toList ∈ ((s.place output).map String.toList).reverse := by
      rw [hplace]
      exact List.mem_reverse.2 (List.mem_map_of_mem (List.mem_append_right _ hname))
    exact ⟨(s.normal_place output).proper _ hmem,
      fun hparent => (s.normal_place output).parentName_notMem (hparent ▸ hmem)⟩
  obtain ⟨hne, hfound⟩ := place_foldl_child (s := s) hdirectory hnormal
  refine ⟨hne, hfound.trans hplace.symm, ?_⟩
  have hfront : ∀ name ∈ names.dropLast, Path.Proper name.toList ∧ name.toList ≠ Path.parentName :=
    fun name hname => hnormal name (List.mem_of_mem_dropLast hname)
  obtain ⟨hne', hplace'⟩ := place_foldl_child (s := s) hdirectory hfront
  have hchild : names.foldl Files.child directory =
      Files.child (names.dropLast.foldl Files.child directory) (names.getLast hnames) := by
    nth_rewrite 1 [← List.dropLast_append_getLast hnames]
    rw [List.foldl_append]
    rfl
  have hslash := (hnormal _ (List.getLast_mem hnames)).1.slash
  have hparent := fun wd => @namesAt_parentOf_child wd _ hne' _ hslash
  rw [hchild]
  refine ⟨(hparent "").1, ?_⟩
  rw [s.place_eq (hparent "").1, (hparent _).2, ← s.place_eq hne', hplace', hplace,
    List.append_assoc, List.dropLast_append_getLast]

open Export (Runs afterFiles exportScene outputFiles partOf)

variable {p : Project} {scene full : String} {c c' : Export.Context} {out : Export.Output}

/-- The shelf after files were exported and a project was saved with the path of its export. -/
def exported (s : Shelf) (files : List (String × Bytes)) (scene : String) (p : Project) : Shelf :=
  (s.storeAll files).put scene (Bytes.ofText (Project.codec.toText .wide p))

lemma workingDirectory_exported (s : Shelf) (files : List (String × Bytes)) (scene : String)
    (p : Project) : (s.exported files scene p).workingDirectory = s.workingDirectory :=
  workingDirectory_storeAll ..

lemma place_exported (s : Shelf) (files : List (String × Bytes)) (scene : String) (p : Project) :
    (s.exported files scene p).place = s.place :=
  place_congr (workingDirectory_exported ..)

lemma content_exported (s : Shelf) (files : List (String × Bytes)) (scene : String) (p : Project) :
    (s.exported files scene p).content =
      (afterFiles (fun path => some (s.place path)) files s.content).set
      (some (s.place scene)) (some (Bytes.ofText (Project.codec.toText .wide p))) := by
  rw [exported, content_put, content_storeAll, place_congr (workingDirectory_storeAll ..)]

lemma text?_eq {bytes : Bytes} {text : String} (hpath : path ≠ "")
    (h : s.content (s.place path) = some bytes) (htext : Bytes.toText? bytes = some text) :
    s.text? path = some text := by
  rw [text?, find?_eq hpath, h, Option.bind_some, htext]

/-- The manifest is written last, so it is there in the end. -/
lemma afterFiles_outputFiles {spot? : String → Option (List String)} {place : List String}
    (h : spot? path = some place) (f : Contents) :
    afterFiles spot? (outputFiles c out path) f place =
      some (Bytes.ofText (out.manifest.toText c.config.style)) := by
  rw [outputFiles, afterFiles, List.foldl_append]
  exact if_pos h

lemma content_manifest {saved : Project} (hapart : s.place path ≠ s.place scene) :
    (s.exported (outputFiles c out path) scene saved).content (s.place path) =
      some (Bytes.ofText (out.manifest.toText c.config.style)) := by
  rw [content_exported, Contents.set, if_neg (by simpa using hapart.symm)]
  exact afterFiles_outputFiles rfl _

/-- The header is found in the manifest, by any path to it. -/
lemma header?_exported (saved : Project) (hruns : Runs (exportScene p path false) c out c')
    {relative : String} (hsource : Path.sourceFromExport p.filepath path = .ok relative)
    (hapart : s.place path ≠ s.place scene) {found : String} (hfound : found ≠ "")
    (hplace : s.place found = s.place path) :
    (s.exported (outputFiles c' out path) scene saved).header? found =
      some ⟨some c.config.formatVersion, some relative⟩ := by
  obtain ⟨source, hsource', hheader⟩ := Export.header_exportScene hruns
  obtain rfl : source = relative := Except.ok.inj (hsource'.symm.trans hsource)
  have htext : (s.exported (outputFiles c' out path) scene saved).text? found =
      some (out.manifest.toText c'.config.style) := by
    refine text?_eq hfound ?_ (Bytes.toText?_ofText _)
    rw [place_exported, hplace, content_manifest hapart]
  rw [header?, htext, Option.bind_some, hheader]
  rfl

/-- The project is found in its file, by any path to it. -/
lemma project?_exported {files : List (String × Bytes)} {saved : Project} {found : String}
    (hread : Project.codec.ofText (Project.codec.toText .wide saved) = .ok saved)
    (hfound : found ≠ "") (hplace : s.place found = s.place scene) :
    (s.exported files scene saved).project? found = some saved := by
  have htext : (s.exported files scene saved).text? found =
      some (Project.codec.toText .wide saved) := by
    refine text?_eq hfound ?_ (Bytes.toText?_ofText _)
    rw [place_exported, hplace, content_exported, Contents.set, if_pos rfl]
  rw [project?, htext, Option.bind_some, hread]
  rfl

lemma place_join {base base' : String} (hroot : base.toList.head? = some '/')
    (hroot' : base'.toList.head? = some '/')
    (h : Path.reach [] base'.toList = Path.reach [] base.toList) (name tail : String) :
    s.place (Path.join base' name ++ tail) = s.place (Path.join base name ++ tail) := by
  have hne : ∀ base : String, base.toList.head? = some '/' → Path.join base name ++ tail ≠ "" :=
    fun base hbase hempty => join_ne_empty hbase name (String.append_eq_empty_iff.1 hempty).1
  rw [place_eq_iff (hne _ hroot) (hne _ hroot')]
  exact namesAt_join hroot hroot' h name tail

lemma place_directory (hpath : NamesFile path) :
    s.place path = s.place (Path.directory path) ++ [Path.fileName path] := by
  have hroot := Path.head?_directory hpath.rooted
  rw [s.place_eq (Path.ne_empty_of_rooted hpath.rooted), s.place_eq (Path.ne_empty_of_rooted hroot),
    namesAt_rooted hpath.rooted, namesAt_rooted hroot, hpath.names_ofText, Path.ofText_rooted hroot]
  simp

section Again

variable (hpath : NamesFile path)
include hpath

lemma rooted_normalize : (Path.normalize path).toList.head? = some '/' := by
  rw [(Path.normalize_rooted hpath.rooted hpath.colon).1]
  rfl

lemma place_normalize (tail : String) :
    s.place (Path.normalize path ++ tail) = s.place (path ++ tail) := by
  obtain ⟨hname, hdirectory⟩ :=
    Path.fileName_normalize hpath.rooted hpath.colon hpath.proper hpath.ne_parent
  have hhead : ∀ text : String, text.toList.head? = some '/' →
      (text ++ tail).toList.head? = some '/' := by
    intro text htext
    rw [String.toList_append, List.head?_append, htext]
    rfl
  have hroot' := rooted_normalize hpath
  refine place_eq_of_ofText (hhead _ hpath.rooted) (hhead _ hroot') ?_
  rw [Path.ofText_rooted (hhead _ hpath.rooted), Path.ofText_rooted (hhead _ hroot'),
    Path.reach_append hpath.rooted, Path.reach_append hroot', hname, hdirectory]

/-- The normal form of a path makes the same export. -/
lemma exportScene_normalize (hruns : Runs (exportScene p path false) c out c') :
    Runs (exportScene p (Path.normalize path) false) c out
      { c' with path := Path.normalize path } := by
  obtain ⟨hname, hdirectory⟩ :=
    Path.fileName_normalize hpath.rooted hpath.colon hpath.proper hpath.ne_parent
  refine Export.exportScene_elsewhere hruns ?_ ?_
  · rw [Path.ofText_rooted (Path.head?_directory hpath.rooted),
      Path.ofText_rooted (Path.head?_directory (rooted_normalize hpath)), hdirectory]
  · rw [Export.binaryName, Export.binaryName, hname]

/-- Both exports write the same files to the same places. -/
lemma sameSpots_outputFiles :
    List.Forall₂ (Export.SameSpots fun path => some (s.place path)) (outputFiles c out path)
    (outputFiles { c with path := Path.normalize path } out (Path.normalize path)) := by
  obtain ⟨-, hdirectory⟩ :=
    Path.fileName_normalize hpath.rooted hpath.colon hpath.proper hpath.ne_parent
  have hbeside : ∀ name bytes, Export.SameSpots (fun path => some (s.place path))
      (Path.join (Path.directory path) name, bytes)
      (Path.join (Path.directory (Path.normalize path)) name, bytes) :=
    fun name => Export.sameSpots_mk fun tail =>
      congrArg some (place_join (Path.head?_directory hpath.rooted)
      (Path.head?_directory (rooted_normalize hpath)) hdirectory name tail)
  have hmanifest : ∀ bytes, Export.SameSpots (fun path => some (s.place path)) (path, bytes)
      (Path.normalize path, bytes) :=
    Export.sameSpots_mk fun tail => congrArg some (place_normalize hpath tail)
  have hpacked : List.Forall₂ (Export.SameSpots fun path => some (s.place path))
      (c.media.packed.map fun media => (Path.join (Path.directory path) media.1, media.2))
      (c.media.packed.map fun media => (Path.join (Path.directory (Path.normalize path)) media.1,
        media.2)) := by
    rw [List.forall₂_map_left_iff, List.forall₂_map_right_iff]
    exact List.forall₂_same.2 fun media _ => hbeside media.1 media.2
  unfold outputFiles
  cases out.binary with
  | none => exact List.rel_append (List.rel_append hpacked .nil) (.cons (hmanifest _) .nil)
  | some content =>
    cases out.manifest.binaryFile? with
    | none => exact List.rel_append (List.rel_append hpacked .nil) (.cons (hmanifest _) .nil)
    | some name =>
      exact List.rel_append (List.rel_append hpacked (.cons (hbeside name content) .nil))
        (.cons (hmanifest _) .nil)

/-- The second export leaves a place that ends as a manifest does as it was, unless that is the
place of the project and a file comes there: then the place holds that file. -/
theorem content_storeAll_again (saved : Project) {place : List String} (hplace : EndsIn 'n' place) :
    (∃ file ∈ outputFiles c out path, s.place file.1 = place ∧ place = s.place scene ∧
      ((s.exported (outputFiles c out path) scene saved).storeAll
        (outputFiles { c with path := Path.normalize path } out (Path.normalize path))).content
          place = some file.2) ∨
    ((s.exported (outputFiles c out path) scene saved).storeAll
      (outputFiles { c with path := Path.normalize path } out (Path.normalize path))).content
        place = (s.exported (outputFiles c out path) scene saved).content place := by
  rw [content_storeAll, place_exported,
    Export.afterFiles_congr (sameSpots_outputFiles hpath), content_exported]
  have hpart : ∀ file ∈ outputFiles c out path, some (s.place (partOf file.1)) ≠ some place := by
    intro file _ hspot
    have hlast : (partOf file.1).toList.getLast? = some 't' := by simp [partOf]
    rw [← Option.some.inj hspot] at hplace
    exact absurd ((s.endsIn_place hlast rfl (by decide)).unique hplace) (by decide)
  by_cases hscene : place = s.place scene
  · refine (Export.afterFiles_cases hpart _).imp_left ?_
    rintro ⟨file, hfile, hspot, hcontent⟩
    exact ⟨file, hfile, Option.some.inj hspot, hscene, hcontent⟩
  · exact .inr (Export.afterFiles_again _ fun heq => absurd heq hscene)

/-- The second export makes no manifests but its own. -/
lemma not_hasManifest_again (saved : Project)
    (hapart : ∀ file ∈ outputFiles c out path, s.place file.1 = s.place scene →
      ¬ HoldsManifest file.2)
    {found : String} (hfound : found ≠ "") (hends : EndsIn 'n' (s.place found))
    (h : ¬ (s.exported (outputFiles c out path) scene saved).HasManifest found) :
    ¬ ((s.exported (outputFiles c out path) scene saved).storeAll
      (outputFiles { c with path := Path.normalize path } out (Path.normalize path))).HasManifest
        found := by
  rw [hasManifest_iff hfound, place_exported] at h
  rw [hasManifest_iff hfound, place_congr (workingDirectory_storeAll ..), place_exported]
  rintro ⟨bytes, hbytes, hholds⟩
  rcases content_storeAll_again hpath saved hends
    with ⟨file, hfile, hspot, hscene, hcontent⟩ | hsame
  · obtain rfl : file.2 = bytes := Option.some.inj (hcontent.symm.trans hbytes)
    exact hapart file hfile (hspot.trans hscene) hholds
  · exact h ⟨bytes, hsame.symm.trans hbytes, hholds⟩

end Again

section Trace

variable {options : ReexportOptions} {found : String}

lemma config_of_init {config : Config} (h : Export.Context.init config = .ok c) :
    c.config = config := by
  unfold Export.Context.init at h
  split at h
  · cases h
  · cases h
    rfl

/-- The manifest of an export is traced back to its project, and exported again to the same
files. -/
theorem run_reexportJson_exported (hpath : NamesFile path)
    (hroot : p.filepath.toList.head? = some '/') (hcolon : ':' ∉ p.filepath.toList)
    (hscene : s.place p.filepath = s.place scene) (hapart : s.place path ≠ s.place scene)
    (hinit : Export.Context.init options.config.output = .ok c)
    (hversion : (options.config.output.version?.map Version.isPositive).getD false = true)
    (hruns : Runs (exportScene p path false) c out c')
    (hread : Project.codec.ofText (Project.codec.toText .wide (p.remembering (some path))) =
      .ok (p.remembering (some path)))
    (hreport : options.reportOnly = false) (hne : found ≠ "")
    (hfound : s.place found = s.place path)
    (hown : absolutePlace s.workingDirectory found = Path.normalize path)
    (hparent : absolutePlace s.workingDirectory (parentOf found) =
      Path.normalize (Path.directory path)) :
    (reexportJson options none found : StateM Shelf (List Report)).run
        (s.exported (outputFiles c' out path) scene (p.remembering (some path))) =
      ([⟨found, .ok, none⟩],
        (s.exported (outputFiles c' out path) scene (p.remembering (some path))).storeAll
        (outputFiles { c' with path := Path.normalize path } out (Path.normalize path))) := by
  obtain ⟨relative, hrelative, hsource, hback⟩ := exists_sourceFromExport hpath hroot hcolon
  have hheader := header?_exported (p.remembering (some path)) hruns hsource hapart hne hfound
  have hproject : ∀ text, text ≠ "" → s.place text = s.place scene →
      (s.exported (outputFiles c' out path) scene (p.remembering (some path))).project? text =
        some (p.remembering (some path)) := fun text => project?_exported hread
  have hworking := s.workingDirectory_exported (outputFiles c' out path) scene
    (p.remembering (some path))
  generalize s.exported (outputFiles c' out path) scene (p.remembering (some path)) = s₁
    at hheader hproject hworking ⊢
  rw [← hworking] at hown hparent
  have hsaved : (p.remembering (some path)).isSaved = true := by
    simpa [Project.isSaved, Project.remembering] using Path.ne_empty_of_rooted hroot
  -- the path in the header leads back to the file of the project
  have hback' : s₁.sceneOf found relative = Path.normalize p.filepath := by
    rw [sceneOf, hparent, hback]
  have hfile : s₁.project? (s₁.sceneOf found relative) = some (p.remembering (some path)) := by
    rw [hback']
    exact hproject _ (Path.normalize_ne_empty _)
      ((place_normalize_rooted hroot hcolon).trans hscene)
  have hown' : (Project.exportPathJson (p.remembering (some path))).map Path.normalize =
    some (absolutePlace s₁.workingDirectory found) := congrArg some hown.symm
  have hpositive : ((⟨some c.config.formatVersion, some relative⟩ : Manifest.Header).version?.map
      Version.isPositive).getD false = true := by
    rw [config_of_init hinit]
    exact hversion
  -- the project is exported as before, to the normal form of the path
  have hruns' : Runs (exportScene (p.remembering (some path)) (Path.normalize path) false) c out
      { c' with path := Path.normalize path } := by
    rw [Export.exportScene_remembering]
    exact exportScene_normalize hpath hruns
  have hexport : (runExport options.config.output (Export.writeJson (p.remembering (some path))
      (absolutePlace s₁.workingDirectory found)) :
      StateM Shelf (Except Export.Error Export.Output)).run s₁ =
      (.ok out,
        s₁.storeAll
          (outputFiles { c' with path := Path.normalize path } out (Path.normalize path))) := by
    rw [run_runExport, hinit, hown]
    dsimp only
    rw [onFiles_writeJson hruns' (rooted_normalize hpath)]
  exact run_reexportJson hheader hpositive rfl hrelative (run_traceBack hfile hsaved hown')
    hreport hexport

end Trace

end Shelf

end SceneExport
