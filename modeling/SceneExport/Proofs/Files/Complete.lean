import Mathlib
import SceneExport.Proofs.Files.Rollback
import SceneExport.Proofs.Walk.Media

/-!
# When an export is complete on disk

The files of an export are written one after another: packed media, the binary file, the manifest.
Their names are made in three ways, and each file is written through a second one beside it. Nothing
keeps these names apart. A file is lost if a later one, or the second file of a later one, comes to
its place. An export that ends well is complete if and only if this does not happen.
-/
namespace SceneExport

namespace Disk

variable {d : Disk} {path : String} {place : List String}

/-- One name further, whatever there is. -/
def passName (place : List String) (name : String) : List String :=
  if name.isEmpty || name = "." then place
  else if name = ".." then place.dropLast
  else place ++ [name]

/-- The place that a path names, seen from a directory, whatever there is on the way. -/
def route (working : List String) (path : String) : List String :=
  (names path).foldl passName (if path.startsWith "/" then [] else working)

lemma step_eq_ok {name : String} {next : List String} (h : d.step place name = .ok next) :
    next = passName place name := by
  unfold step at h
  unfold passName
  split_ifs at h ⊢ <;> simp_all

lemma foldlM_step_eq_ok {names : List String} {last : List String}
    (h : names.foldlM d.step place = .ok last) : last = names.foldl passName place := by
  induction names generalizing place with
  | nil => exact (Except.ok.inj h).symm
  | cons name names ih =>
    rw [List.foldlM_cons] at h
    cases hstep : d.step place name with
    | error reason =>
      rw [hstep] at h
      cases h
    | ok next =>
      rw [hstep] at h
      rw [List.foldl_cons, ← step_eq_ok hstep]
      exact ih h

lemma locate_eq_ok (h : d.locate path = .ok place) : place = route d.workingDirectory path := by
  unfold locate at h
  split at h
  · cases h
  · cases hstart : d.start path with
    | error reason =>
      rw [hstart] at h
      cases h
    | ok first =>
      rw [hstart] at h
      have hfirst : first = if path.startsWith "/" then [] else d.workingDirectory := by
        unfold start at hstart
        split_ifs at hstart ⊢ <;> simp_all
      rw [route, ← hfirst]
      exact foldlM_step_eq_ok h

/-- Where a file can be, its place is the one that the path names. -/
lemma spot?_eq_route (h : (d.spot? path).isSome) :
    d.spot? path = some (route d.workingDirectory path) := by
  obtain ⟨place, hplace⟩ := Option.isSome_iff_exists.mp h
  have hlocate : d.locate path = .ok place := by
    rw [spot?_eq_some_iff, locateFile] at hplace
    cases hlocate : d.locate path with
    | error reason =>
      rw [hlocate] at hplace
      cases hplace
    | ok place' =>
      rw [hlocate] at hplace
      simp only [bind, Except.bind] at hplace
      split at hplace
      · cases hplace
      · exact hplace
  rw [hplace, locate_eq_ok hlocate]

/-- What is read is what there is at the place of the path. -/
lemma read_eq_ok_iff {content : Bytes} :
    d.read path = .ok content ↔ (d.spot? path).bind d.file? = some content := by
  unfold read spot? locateFile
  cases hlocate : d.locate path with
  | error reason => simp [bind, Except.bind, Except.toOption]
  | ok place =>
    simp only [bind, Except.bind]
    cases hnode : d.node? place with
    | none => simp [isDirectoryAt, hnode, Except.toOption, file?]
    | some node => cases node <;> simp [isDirectoryAt, hnode, Except.toOption, file?]

end Disk

namespace Export

open OnDisk (disk)
open Disk (SameDirectories)

section Files

variable {spot? : String → Option (List String)} {files : List (String × Bytes)}
    {place : List String}

/-- The contents after files are written, each through a second one. -/
def afterFiles (spot? : String → Option (List String)) (files : List (String × Bytes))
    (f : Contents) : Contents :=
  files.foldl
    (fun f file => (f.set (spot? (partOf file.1)) none).set (spot? file.1) (some file.2)) f

/-- The second file comes to another place than the first, both by its path and on its way there. -/
def Misses (spot? : String → Option (List String)) (first second : String × Bytes) : Prop :=
  spot? second.1 ≠ spot? first.1 ∧ spot? (partOf second.1) ≠ spot? first.1

lemma afterFiles_cons (file : String × Bytes) (f : Contents) :
    afterFiles spot? (file :: files) f = afterFiles spot? files
      ((f.set (spot? (partOf file.1)) none).set (spot? file.1) (some file.2)) := rfl

lemma afterFiles_of_untouched (f : Contents)
    (h : ∀ file ∈ files, spot? file.1 ≠ some place ∧ spot? (partOf file.1) ≠ some place) :
    afterFiles spot? files f place = f place := by
  induction files generalizing f with
  | nil => rfl
  | cons file files ih =>
    obtain ⟨hpath, hpart⟩ := h file List.mem_cons_self
    rw [afterFiles_cons, ih _ fun other hother => h other (List.mem_cons_of_mem _ hother)]
    rw [Contents.set, if_neg hpath, Contents.set, if_neg hpart]

/-- A place that a second file passes is empty in the end, if no file comes to stay there. -/
lemma afterFiles_of_passed (f : Contents)
    (hpassed : ∃ file ∈ files, spot? (partOf file.1) = some place)
    (h : ∀ file ∈ files, spot? file.1 ≠ some place) : afterFiles spot? files f place = none := by
  induction files generalizing f with
  | nil => simp at hpassed
  | cons file files ih =>
    have hrest : ∀ other ∈ files, spot? other.1 ≠ some place :=
      fun other hother => h other (List.mem_cons_of_mem _ hother)
    rw [afterFiles_cons]
    by_cases hlater : ∃ other ∈ files, spot? (partOf other.1) = some place
    · exact ih _ hlater hrest
    · push Not at hlater
      have hpart : spot? (partOf file.1) = some place := by
        obtain ⟨other, hother, hpart⟩ := hpassed
        rcases List.mem_cons.mp hother with rfl | hother
        · exact hpart
        · exact absurd hpart (hlater other hother)
      rw [afterFiles_of_untouched _ fun other hother => ⟨hrest other hother, hlater other hother⟩]
      rw [Contents.set, if_neg (h file List.mem_cons_self), Contents.set, if_pos hpart]

/-- All files are at their places in the end if and only if each is missed by those after it. -/
theorem pairwise_misses_iff (f : Contents) (hspots : ∀ file ∈ files, (spot? file.1).isSome) :
    files.Pairwise (Misses spot?) ↔ files.Pairwise (fun a b => spot? b.1 ≠ spot? a.1) ∧
      ∀ file ∈ files, (spot? file.1).bind (afterFiles spot? files f) = some file.2 := by
  induction files generalizing f with
  | nil => simp
  | cons file files ih =>
    obtain ⟨place, hplace⟩ := Option.isSome_iff_exists.mp (hspots file List.mem_cons_self)
    rw [List.pairwise_cons, List.pairwise_cons, List.forall_mem_cons, afterFiles_cons,
      ih _ fun other hother => hspots other (List.mem_cons_of_mem _ hother), hplace,
      Option.bind_some]
    constructor
    · rintro ⟨hmisses, hdistinct, hheld⟩
      refine ⟨⟨fun other hother => hplace ▸ (hmisses other hother).1, hdistinct⟩, ?_, hheld⟩
      rw [afterFiles_of_untouched _ fun other hother => hplace ▸ hmisses other hother,
        Contents.set, if_pos rfl]
    · rintro ⟨⟨hpaths, hdistinct⟩, hfirst, hheld⟩
      refine ⟨fun other hother => ⟨hplace ▸ hpaths other hother, fun hpart => ?_⟩, hdistinct, hheld⟩
      rw [afterFiles_of_passed _ ⟨other, hother, hpart.trans hplace⟩ hpaths] at hfirst
      cases hfirst

end Files

variable {σ : Type} [Files (StateM σ)] [OnDisk σ] {s s' : σ} {path : String}

theorem writeAll_ok {written : List String} {files : List (String × Bytes)}
    (h : (writeAll written files : StateM σ (Except Error Unit)).run s = (.ok (), s')) :
    SameDirectories (disk s) (disk s') ∧
      (∀ file ∈ files, ((disk s).spot? (partOf file.1)).isSome ∧ ((disk s).spot? file.1).isSome) ∧
      (disk s').file? = afterFiles (disk s).spot? files (disk s).file? := by
  induction files generalizing written s with
  | nil =>
    cases h
    exact ⟨.refl _, by simp, rfl⟩
  | cons file rest ih =>
    obtain ⟨path, content⟩ := file
    rw [run_writeAll_cons] at h
    rcases hwhole : (writeWhole path content : StateM σ (Except Error Unit)).run s with ⟨e | _, s₁⟩
    · rw [hwhole] at h
      cases h
    · rw [hwhole] at h
      obtain ⟨hsame, hspots, hfile⟩ := writeWhole_ok hwhole
      obtain ⟨hsame', hspots', hfile'⟩ := ih h
      rw [hsame.spot?_eq] at hspots' hfile'
      refine ⟨hsame.trans hsame', List.forall_mem_cons.mpr ⟨hspots, hspots'⟩, ?_⟩
      rw [hfile', hfile, afterFiles_cons]

/-- The files of an export stand beside each other as its manifest says. -/
structure Complete (p : Project) (path : String) (context : Context) (out : Output)
    (d : Disk) : Prop where
  manifest : d.read path = .ok (Bytes.ofText (out.manifest.toText context.config.style))
  binary : ∀ content, out.binary = some content → ∃ name, out.manifest.binaryFile? = some name ∧
    d.read (Path.join (Path.directory path) name) = .ok content
  images : ∀ e ∈ out.manifest.images, ∃ image, p.image? e.name = some image ∧
    ∀ content, image.packed = some content →
      d.read (Path.join (Path.directory path) e.filepath) = .ok content
  sounds : ∀ e ∈ out.manifest.sounds, ∃ sound, p.sound? e.name = some sound ∧
    ∀ content, sound.packed = some content →
      d.read (Path.join (Path.directory path) e.filepath) = .ok content
  /-- No two of the files are at one place. -/
  distinct : (outputFiles context out path).Pairwise fun a b => d.spot? b.1 ≠ d.spot? a.1

/-- No file of an export is named where a later one, or the second file of a later one, is. -/
def NamesApart (working : List String) (files : List (String × Bytes)) : Prop :=
  files.Pairwise fun a b => Disk.route working b.1 ≠ Disk.route working a.1 ∧
    Disk.route working (partOf b.1) ≠ Disk.route working a.1

instance (working : List String) (files : List (String × Bytes)) :
    Decidable (NamesApart working files) :=
  inferInstanceAs (Decidable (files.Pairwise _))

variable {p : Project} {c c' : Context} {out : Output}

omit [OnDisk σ] in
lemma writeJson_ok (h : onFiles (writeJson p path) c s = ((.ok out, c'), s')) :
    Runs (exportScene p path false) c out c' ∧
      ∃ s₁ : σ, (writeAll [] (outputFiles c' out path) : StateM σ (Except Error Unit)).run s₁ =
        (.ok (), s') := by
  rw [onFiles_writeJson] at h
  rcases hexport : after (exportScene p path false) c with ⟨_ | out', c₁⟩
  · rw [hexport] at h
    cases h
  rw [hexport] at h
  dsimp only at h
  rcases hensure : (ensureDirectory (Path.directory path) : StateM σ (Except Error Unit)).run s with
    ⟨_ | _, s₁⟩
  · rw [hensure] at h
    cases h
  rw [hensure] at h
  dsimp only at h
  rcases hall : (writeAll [] (outputFiles c₁ out' path) : StateM σ (Except Error Unit)).run s₁ with
    ⟨_ | _, s₂⟩
  · rw [hall] at h
    cases h
  · rw [hall] at h
    cases h
    exact ⟨hexport, s₁, hall⟩

/-- The files of an export are packed media, the binary file and the manifest. -/
lemma forall_mem_outputFiles {P : String × Bytes → Prop} :
    (∀ file ∈ outputFiles c out path, P file) ↔
    (∀ media ∈ c.media.packed, P (Path.join (Path.directory path) media.1, media.2)) ∧
    (∀ content name, out.binary = some content → out.manifest.binaryFile? = some name →
      P (Path.join (Path.directory path) name, content)) ∧
    P (path, Bytes.ofText (out.manifest.toText c.config.style)) := by
  unfold outputFiles
  rw [List.forall_mem_append, List.forall_mem_append, List.forall_mem_map,
    List.forall_mem_singleton, and_assoc]
  refine and_congr_right fun _ => and_congr_left fun _ => ?_
  cases out.binary with
  | none => simp
  | some content => cases out.manifest.binaryFile? <;> simp

/-- A complete export has all its files at places of their own. -/
lemma complete_iff {d : Disk} (hsupplied : Supplied p false c.media out.manifest)
    (hbinary : out.manifest.binaryFile? = out.binary.map fun _ => binaryName path) :
    Complete p path c out d ↔
      ((outputFiles c out path).Pairwise fun a b => d.spot? b.1 ≠ d.spot? a.1) ∧
      ∀ file ∈ outputFiles c out path, d.read file.1 = .ok file.2 := by
  rw [forall_mem_outputFiles]
  constructor
  · intro h
    refine ⟨h.distinct, fun media hmedia => ?_, fun content name hcontent hname => ?_, h.manifest⟩
    · -- a packed file is that of an image or of a sound
      rcases hsupplied.used media hmedia with ⟨e, he, hpath, hpacked⟩ | ⟨e, he, hpath, hpacked⟩
      · obtain ⟨image, hfound, hread⟩ := h.images e he
        rw [hfound] at hpacked
        exact hpath ▸ hread media.2 hpacked
      · obtain ⟨sound, hfound, hread⟩ := h.sounds e he
        rw [hfound] at hpacked
        exact hpath ▸ hread media.2 hpacked
    · obtain ⟨name', hname', hread⟩ := h.binary content hcontent
      rw [hname] at hname'
      rw [Option.some.inj hname']
      exact hread
  · rintro ⟨hdistinct, hpacked, hfile, hmanifest⟩
    have hmedia : ∀ name content, out.manifest.Mentions p name content →
        d.read (Path.join (Path.directory path) name) = .ok content := by
      intro name content hmentions
      obtain ⟨front, back, hsplit, -⟩ :=
        List.lookup_eq_some_iff.mp (hsupplied.held name content hmentions)
      refine hpacked (name, content) ?_
      rw [hsplit]
      simp
    refine ⟨hmanifest, fun content hcontent => ?_, fun e he => ?_, fun e he => ?_, hdistinct⟩
    · rw [hcontent, Option.map_some] at hbinary
      exact ⟨_, hbinary, hfile content _ hcontent hbinary⟩
    · obtain ⟨image, hfound⟩ := hsupplied.images e he
      refine ⟨image, hfound, fun content hcontent => hmedia _ _ (.inl ⟨e, he, rfl, ?_⟩)⟩
      rw [hfound]
      exact hcontent
    · obtain ⟨sound, hfound⟩ := hsupplied.sounds e he
      refine ⟨sound, hfound, fun content hcontent => hmedia _ _ (.inr ⟨e, he, rfl, ?_⟩)⟩
      rw [hfound]
      exact hcontent

/-- An export that ends well is complete on disk if and only if none of its files is named where a
later one, or the second file of a later one, is. -/
theorem writeJson_complete_iff (hdigest : p.ContentsApart false)
    (h : onFiles (writeJson p path) c s = ((.ok out, c'), s')) :
    Complete p path c' out (disk s') ↔
      NamesApart (disk s').workingDirectory (outputFiles c' out path) := by
  obtain ⟨hexport, s₁, hall⟩ := writeJson_ok h
  obtain ⟨hsame, hspots, hfile⟩ := writeAll_ok hall
  rw [← hsame.spot?_eq] at hspots hfile
  have hsupplied := supplied_exportScene hdigest hexport
  rw [complete_iff hsupplied (binaryFile?_exportScene hexport)]
  have hroutes : NamesApart (disk s').workingDirectory (outputFiles c' out path) ↔
      (outputFiles c' out path).Pairwise (Misses (disk s').spot?) := by
    refine List.Pairwise.iff_of_mem fun {a b} ha hb => ?_
    rw [Misses, Disk.spot?_eq_route (hspots a ha).2, Disk.spot?_eq_route (hspots b hb).2,
      Disk.spot?_eq_route (hspots b hb).1]
    simp
  rw [hroutes, pairwise_misses_iff (disk s₁).file? fun file hf => (hspots file hf).2]
  simp only [Disk.read_eq_ok_iff, hfile]

/-- The flag with a pattern of stripes and stars. The project holds the files of both. -/
def banner : Project :=
  { flag with
    meshes := flag.meshes.map fun mesh => { mesh with materials := ["dye"] }
    materials := [⟨"dye", none, .replicate 3 0, 1, false, ["stripes", "stars"]⟩]
    textures := [⟨"stripes", none, some "stripes.png"⟩, ⟨"stars", none, some "stars.png"⟩]
    images :=
      [⟨"stripes.png", none, "//stripes.png", .file, (1, 1), "PNG", false, "sRGB", some [1, 2]⟩,
        ⟨"stars.png", none, "//stars.png", .file, (1, 1), "PNG", true, "sRGB", some [3]⟩] }

/-- What the export of the banner to an empty disk comes to. -/
def hoisted (path : String) : (Except Error Output × Context) × Disk :=
  onFiles (writeJson banner path) blank ⟨[], []⟩

lemma exists_hoisted (path : String) (apart : Bool)
    (h : (hoisted path).1.1.toOption.map (fun out => ((hoisted path).1.2.media.packed.length,
      decide (NamesApart (hoisted path).2.workingDirectory
        (outputFiles (hoisted path).1.2 out path)))) = some (2, apart)) :
    ∃ out c' d, hoisted path = ((.ok out, c'), d) ∧ c'.media.packed.length = 2 ∧
      (NamesApart d.workingDirectory (outputFiles c' out path) ↔ apart = true) := by
  rcases hrun : hoisted path with ⟨⟨_ | out, c'⟩, d⟩
  · simp [hrun, Except.toOption] at h
  · rw [hrun] at h
    obtain ⟨hpacked, hnames⟩ := Prod.mk.inj (Option.some.inj h)
    refine ⟨out, c', d, rfl, hpacked, ?_⟩
    rw [← hnames, decide_eq_true_iff]

/-- The banner with its two packed files is complete on an empty disk, unless the manifest is to be
named like the binary file that belongs to it: then it takes the place of that file. -/
theorem banner_complete : banner.ContentsApart false ∧
    (∃ out c' d, onFiles (writeJson banner "/flag.json") blank (⟨[], []⟩ : Disk) =
      ((.ok out, c'), d) ∧ c'.media.packed.length = 2 ∧ Complete banner "/flag.json" c' out d) ∧
    ∃ out c' d, onFiles (writeJson banner "/flag.bin") blank (⟨[], []⟩ : Disk) =
      ((.ok out, c'), d) ∧ c'.media.packed.length = 2 ∧ ¬ Complete banner "/flag.bin" c' out d := by
  have hdigest : banner.ContentsApart false := by
    unfold Project.ContentsApart
    decide +kernel
  obtain ⟨out, c', d, hrun, hpacked, happart⟩ :=
    exists_hoisted "/flag.json" true (by decide +kernel)
  obtain ⟨out', c'', d', hrun', hpacked', happart'⟩ :=
    exists_hoisted "/flag.bin" false (by decide +kernel)
  refine ⟨hdigest, ⟨out, c', d, hrun, hpacked, ?_⟩, out', c'', d', hrun', hpacked', ?_⟩
  · exact (writeJson_complete_iff hdigest hrun).mpr (happart.mpr rfl)
  · intro hcomplete
    exact Bool.false_ne_true (happart'.mp ((writeJson_complete_iff hdigest hrun').mp hcomplete))

end Export

end SceneExport
