import Mathlib
import SceneExport.Export.Write
import SceneExport.Proofs.Files.Contents
import SceneExport.Proofs.Walk.Readback

/-!
# What a failed export leaves on disk

The files of an export are written one after another, each through a second file beside it. When one
of them fails, those before it are removed, and with them what was at their places before the
export. So an export that fails need not leave all files as they were: it does so if and only if
there was no file at any place that it cleared, and the write that failed left nothing new.
-/
namespace SceneExport

namespace Contents

lemma set_set (f : Contents) (spot : Option (List String)) (a b : Option Bytes) :
    (f.set spot a).set spot b = f.set spot b := by
  funext place
  unfold set
  by_cases h : spot = some place <;> simp [h]

/-- The contents without the files at some places. -/
def clear (f : Contents) (spots : List (Option (List String))) : Contents :=
  fun place => if some place ∈ spots then none else f place

lemma clear_nil (f : Contents) : f.clear [] = f := by
  funext place
  simp [clear]

lemma clear_cons (f : Contents) (spot : Option (List String))
    (spots : List (Option (List String))) :
    f.clear (spot :: spots) = (f.set spot none).clear spots := by
  funext place
  unfold clear set
  by_cases hspot : spot = some place
  · simp [hspot]
  · simp [hspot, Ne.symm hspot]

end Contents

namespace Export

open OnDisk (disk residue)
open Disk (SameDirectories)

variable {σ : Type} [Files (StateM σ)]

/-- The file that content is written to before it is moved. -/
def partOf (path : String) : String := path ++ ".part"

lemma run_writeWhole (path : String) (content : Bytes) (s : σ) :
    (writeWhole path content : StateM σ (Except Error Unit)).run s =
      match (Files.write (partOf path) content : StateM σ (Except String Unit)).run s with
      | (.error reason, s₁) => (.error (.file (partOf path) reason), s₁)
      | (.ok (), s₁) =>
        match (Files.rename (partOf path) path : StateM σ (Except String Unit)).run s₁ with
        | (.ok (), s₂) => (.ok (), s₂)
        | (.error reason, s₂) => (.error (.file path reason),
            ((Files.remove (partOf path) : StateM σ (Except String Unit)).run s₂).2) := by
  unfold writeWhole partOf
  rw [StateT.run_bind]
  rcases (Files.write (path ++ ".part") content : StateM σ (Except String Unit)).run s
    with ⟨_ | _, s₁⟩
  · rfl
  · change (StateT.run (_ >>= _) s₁) = _
    rw [StateT.run_bind]
    dsimp only
    rcases (Files.rename (path ++ ".part") path : StateM σ (Except String Unit)).run s₁
      with ⟨_ | _, s₂⟩
    · rfl
    · rfl

section Steps

variable {β γ : Type}

/-- Runs an export on files. -/
def onFiles (m : ExportM (StateM σ) β) (c : Context) (s : σ) : (Except Error β × Context) × σ :=
  (m.run.run c).run s

omit [Files (StateM σ)] in
lemma onFiles_bind (m : ExportM (StateM σ) β) (f : β → ExportM (StateM σ) γ) (c : Context) (s : σ) :
    onFiles (m >>= f) c s = match onFiles m c s with
      | ((.ok b, c'), s') => onFiles (f b) c' s'
      | ((.error e, c'), s') => ((.error e, c'), s') := by
  change (((ExceptT.run (m >>= f)).run c).run s) = _
  rw [ExceptT.run_bind, StateT.run_bind, StateT.run_bind]
  unfold onFiles
  rcases (m.run.run c).run s with ⟨⟨_ | b, c'⟩, s'⟩
  · rfl
  · rfl

omit [Files (StateM σ)] in
lemma onFiles_liftContext (step : ContextM β) (c : Context) (s : σ) :
    onFiles (liftContext step) c s = (after step c, s) := by
  have hstep : onFiles (liftContext step) c s =
      onFiles (liftExcept (after step c).1) (after step c).2 s := rfl
  rw [hstep]
  rcases after step c with ⟨_ | b, c'⟩
  · rfl
  · rfl

omit [Files (StateM σ)] in
lemma onFiles_liftM (m : StateM σ β) (c : Context) (s : σ) :
    onFiles (liftM m) c s = ((.ok (m.run s).1, c), (m.run s).2) := rfl

/-- An export is made, then the directory, then the files. -/
lemma onFiles_writeJson (p : Project) (path : String) (c : Context) (s : σ) :
    onFiles (writeJson p path) c s =
      match after (exportScene p path false) c with
      | (.error e, c') => ((.error e, c'), s)
      | (.ok out, c') =>
        match (ensureDirectory (Path.directory path) : StateM σ (Except Error Unit)).run s with
        | (.error e, s₁) => ((.error e, c'), s₁)
        | (.ok (), s₁) =>
          match (writeAll [] (outputFiles c' out path) : StateM σ (Except Error Unit)).run s₁ with
          | (.error e, s₂) => ((.error e, c'), s₂)
          | (.ok (), s₂) => ((.ok out, c'), s₂) := by
  unfold writeJson
  rw [onFiles_bind, onFiles_liftContext]
  rcases after (exportScene p path false) c with ⟨_ | out, c'⟩
  · rfl
  change onFiles
    (liftM (ensureDirectory (Path.directory path) : StateM σ (Except Error Unit)) >>= _) c' s = _
  rw [onFiles_bind, onFiles_liftM]
  rcases (ensureDirectory (Path.directory path) : StateM σ (Except Error Unit)).run s
    with ⟨_ | _, s₁⟩
  · rfl
  change onFiles (liftM (writeAll [] (outputFiles c' out path) : StateM σ (Except Error Unit)) >>=
    fun written => do
      liftExcept written
      return out) c' s₁ = _
  rw [onFiles_bind, onFiles_liftM]
  dsimp only
  rcases (writeAll [] (outputFiles c' out path) : StateM σ (Except Error Unit)).run s₁
    with ⟨_ | _, s₂⟩
  · rfl
  · rfl

end Steps

/-- Takes away the files that were written. -/
def removeAll (written : List String) : StateM σ PUnit :=
  written.forM fun path => do
    let _ ← Files.remove path

lemma run_writeAll_cons (written : List String) (path : String) (content : Bytes)
    (rest : List (String × Bytes)) (s : σ) :
    (writeAll written ((path, content) :: rest) : StateM σ (Except Error Unit)).run s =
      match (writeWhole path content : StateM σ (Except Error Unit)).run s with
      | (.ok (), s₁) => (writeAll (path :: written) rest : StateM σ (Except Error Unit)).run s₁
      | (.error e, s₁) => (.error e, ((removeAll written).run s₁).2) := by
  rw [writeAll, StateT.run_bind]
  rcases (writeWhole path content : StateM σ (Except Error Unit)).run s with ⟨_ | _, s₁⟩
  · rfl
  · rfl

variable [OnDisk σ] {s s' : σ} {path : String} {content : Bytes} {e : Error}

/-- A file that is written is at its place, and the second file is gone. -/
theorem writeWhole_ok
    (h : (writeWhole path content : StateM σ (Except Error Unit)).run s = (.ok (), s')) :
    SameDirectories (disk s) (disk s') ∧
      (((disk s).spot? (partOf path)).isSome ∧ ((disk s).spot? path).isSome) ∧ (disk s').file? =
      ((disk s).file?.set ((disk s).spot? (partOf path)) none).set ((disk s).spot? path)
        (some content) := by
  rw [run_writeWhole] at h
  have hwrite := OnDisk.write (partOf path) content s
  rcases hw : (Files.write (partOf path) content : StateM σ (Except String Unit)).run s with
    ⟨reason | _, s₁⟩
  · rw [hw] at h
    cases h
  rw [hw] at h hwrite
  have hrename := OnDisk.rename (partOf path) path s₁
  dsimp only at h
  rcases hr : (Files.rename (partOf path) path : StateM σ (Except String Unit)).run s₁ with
    ⟨reason | _, s₂⟩
  · rw [hr] at h
    cases h
  rw [hr] at h hrename
  obtain rfl : s₂ = s' := (Prod.mk.inj h).2
  cases hwrite with
  | done hwrite =>
    cases hrename with
    | done hrename =>
      obtain ⟨hsame, hfile, hspot⟩ := Disk.write_eq_ok hwrite
      obtain ⟨hsame', htarget, content', hcontent, hfile'⟩ := Disk.rename_eq_ok hrename
      rw [hsame.spot?_eq] at htarget
      refine ⟨hsame.trans hsame', ⟨hspot, htarget⟩, ?_⟩
      rw [hsame.spot?_eq, hfile] at hfile'
      -- what is moved is what was written
      obtain ⟨place, hplace⟩ := Option.isSome_iff_exists.mp hspot
      have hwritten : content' = content := by
        rw [hsame.spot?_eq, hplace, Option.bind_some, hfile, hplace, Contents.set,
          if_pos rfl] at hcontent
        exact (Option.some.inj hcontent).symm
      rw [hfile', hwritten, Contents.set_set]

/-- When a file fails, the second file may hold something, or be gone, or be as it was. -/
theorem writeWhole_error
    (h : (writeWhole path content : StateM σ (Except Error Unit)).run s = (.error e, s')) :
    SameDirectories (disk s) (disk s') ∧ ∃ held : Option (Option Bytes),
      (∀ left, held = some (some left) → residue σ left) ∧
      (disk s').file? =
        held.elim (disk s).file? ((disk s).file?.set ((disk s).spot? (partOf path))) := by
  rw [run_writeWhole] at h
  have hwrite := OnDisk.write (partOf path) content s
  rcases hw : (Files.write (partOf path) content : StateM σ (Except String Unit)).run s with
    ⟨reason | _, s₁⟩
  · rw [hw] at h hwrite
    obtain rfl : s₁ = s' := (Prod.mk.inj h).2
    generalize disk s₁ = d at hwrite ⊢
    cases hwrite with
    | refused => exact ⟨.refl _, none, nofun, rfl⟩
    | broken _ hleft hwrite =>
      obtain ⟨hsame, hfile, -⟩ := Disk.write_eq_ok hwrite
      refine ⟨hsame, some (some _), ?_, hfile⟩
      rintro left ⟨⟩
      exact hleft
  · rw [hw] at h hwrite
    have hrename := OnDisk.rename (partOf path) path s₁
    dsimp only at h
    rcases hr : (Files.rename (partOf path) path : StateM σ (Except String Unit)).run s₁ with
      ⟨reason | _, s₂⟩
    · rw [hr] at h hrename
      have hremove := OnDisk.remove (partOf path) s₂
      rw [(Prod.mk.inj h).2] at hremove
      have hunmoved : disk s₂ = disk s₁ := by
        generalize disk s₂ = d at hrename
        cases hrename
        rfl
      cases hwrite with
      | done hwrite =>
        obtain ⟨hsame, hfile, -⟩ := Disk.write_eq_ok hwrite
        obtain ⟨hsame', hfile'⟩ := (disk s₂).without_spec (partOf path)
        rw [← hremove, hunmoved] at hsame' hfile'
        refine ⟨hsame.trans hsame', some none, nofun, ?_⟩
        rw [hfile', hsame.spot?_eq, hfile, Contents.set_set]
        rfl
    · rw [hr] at h
      cases h

lemma removeAll_spec (written : List String) (s : σ) :
    SameDirectories (disk s) (disk ((removeAll written).run s).2) ∧
      (disk ((removeAll written).run s).2).file? =
        (disk s).file?.clear (written.map (disk s).spot?) := by
  induction written generalizing s with
  | nil =>
    rw [List.map_nil, Contents.clear_nil]
    exact ⟨.refl _, rfl⟩
  | cons path written ih =>
    have hrun : ((removeAll (path :: written)).run s).2 =
        ((removeAll written).run ((Files.remove path : StateM σ (Except String Unit)).run s).2).2 :=
          rfl
    have hremove := OnDisk.remove path s
    rw [hrun]
    generalize ((Files.remove path : StateM σ (Except String Unit)).run s).2 = s₁ at hremove ⊢
    obtain ⟨hsame, hfile⟩ := (disk s).without_spec path
    rw [← hremove] at hsame hfile
    obtain ⟨hsame', hfile'⟩ := ih s₁
    refine ⟨hsame.trans hsame', ?_⟩
    rw [hfile', hfile, hsame.spot?_eq, List.map_cons, Contents.clear_cons]

/-- Where the writing of files stopped. -/
structure Stop where
  /-- The files before the one that failed. -/
  done : List String
  failed : String
  /-- What there is in the second file of the one that failed; none if it was never touched. -/
  held : Option (Option Bytes)

namespace Stop

/-- The files were to be written in this order. -/
def In (stop : Stop) (files : List (String × Bytes)) : Prop :=
  stop.done ++ [stop.failed] <+: files.map Prod.fst

/-- What is left at a place after the files before the failure are taken away; none if the place was
never touched. -/
def left? (stop : Stop) (d : Disk) (place : List String) : Option (Option Bytes) :=
  if some place ∈ stop.done.map d.spot? then some none
  else if d.spot? (partOf stop.failed) = some place ∧ stop.held.isSome then stop.held
  else if some place ∈ stop.done.map fun path => d.spot? (partOf path) then some none
  else none

/-- The contents that a stop leaves. -/
def apply (stop : Stop) (d : Disk) : Contents :=
  fun place => (stop.left? d place).getD (d.file? place)

/-- The first file fails. -/
lemma apply_first (d : Disk) (path : String) (held : Option (Option Bytes)) :
    (⟨[], path, held⟩ : Stop).apply d =
      held.elim d.file? (d.file?.set (d.spot? (partOf path))) := by
  funext place
  unfold apply left?
  cases held with
  | none => simp
  | some content =>
    by_cases hspot : d.spot? (partOf path) = some place <;> simp [Contents.set, hspot]

/-- A file is written, and a later one fails. -/
lemma apply_later {d d₁ : Disk} {path : String} {content : Bytes} (hsame : SameDirectories d d₁)
    (hfile : d₁.file? = (d.file?.set (d.spot? (partOf path)) none).set (d.spot? path)
      (some content))
    (stop : Stop) (written : List String) :
    (stop.apply d₁).clear ((path :: written).map d₁.spot?) =
      (apply { stop with done := path :: stop.done } d).clear (written.map d.spot?) := by
  funext place
  unfold Contents.clear apply left?
  rw [hsame.spot?_eq, hfile]
  unfold Contents.set
  by_cases hwritten : some place ∈ written.map d.spot?
  · simp [hwritten]
  by_cases hpath : d.spot? path = some place
  · simp [hpath]
  by_cases hdone : some place ∈ stop.done.map d.spot?
  · simp [hdone, hpath, Ne.symm hpath, hwritten]
  rw [List.map_cons, List.map_cons, List.map_cons]
  simp only [List.mem_cons, Ne.symm hpath, hwritten, hdone, hpath, or_false, if_false]
  by_cases hfailed : d.spot? (partOf stop.failed) = some place ∧ stop.held.isSome
  · obtain ⟨held, hheld⟩ := Option.isSome_iff_exists.mp hfailed.2
    simp [hfailed.1, hheld]
  simp only [hfailed, if_false]
  by_cases hparts : some place ∈ stop.done.map fun path => d.spot? (partOf path)
  · simp only [hparts, or_true, if_true, Option.getD_some]
  by_cases hpart : d.spot? (partOf path) = some place
  · simp only [hpart, hparts, or_false, if_true, if_false, Option.getD_none, Option.getD_some]
  · simp only [hpart, Ne.symm hpart, hparts, or_false, if_false, Option.getD_none]

end Stop

theorem writeAll_error {written : List String} {files : List (String × Bytes)}
    (h : (writeAll written files : StateM σ (Except Error Unit)).run s = (.error e, s')) :
    SameDirectories (disk s) (disk s') ∧ ∃ stop : Stop, stop.In files ∧
      (∀ left, stop.held = some (some left) → residue σ left) ∧
      (disk s').file? = (stop.apply (disk s)).clear (written.map (disk s).spot?) := by
  induction files generalizing written s with
  | nil => cases h
  | cons file rest ih =>
    obtain ⟨path, content⟩ := file
    rw [run_writeAll_cons] at h
    rcases hwhole : (writeWhole path content : StateM σ (Except Error Unit)).run s with ⟨e' | _, s₁⟩
    · rw [hwhole] at h
      obtain ⟨hsame, held, hheld, hfile⟩ := writeWhole_error hwhole
      obtain ⟨hsame', hfile'⟩ := removeAll_spec written s₁
      have hs' := (Prod.mk.inj h).2
      rw [hs'] at hsame' hfile'
      refine ⟨hsame.trans hsame', ⟨[], path, held⟩, ?_, hheld, ?_⟩
      · simp [Stop.In]
      · rw [hfile', hfile, hsame.spot?_eq, Stop.apply_first]
    · rw [hwhole] at h
      obtain ⟨hsame, -, hfile⟩ := writeWhole_ok hwhole
      obtain ⟨hsame', stop, hin, hheld, hfile'⟩ := ih h
      refine ⟨hsame.trans hsame', ⟨path :: stop.done, stop.failed, stop.held⟩, ?_, hheld, ?_⟩
      · simpa [Stop.In] using hin
      · rw [hfile', Stop.apply_later hsame hfile]

lemma sameFiles_ensureDirectory (directory : String) (s : σ) :
    (disk s).SameFiles
      (disk ((ensureDirectory directory : StateM σ (Except Error Unit)).run s).2) := by
  unfold ensureDirectory
  split
  · exact fun _ => rfl
  · rw [StateT.run_bind]
    have hisDirectory := OnDisk.isDirectory directory s
    rcases hrun : (Files.isDirectory directory : StateM σ Bool).run s with ⟨_ | _, s₁⟩
    · rw [hrun] at hisDirectory
      have hmake := OnDisk.makeDirectories directory s₁
      rw [hisDirectory] at hmake
      change (disk s).SameFiles (disk (StateT.run
        (Files.makeDirectories directory >>= _ : StateM σ (Except Error Unit)) s₁).2)
      rw [StateT.run_bind]
      rcases hmade : (Files.makeDirectories directory : StateM σ (Except String Unit)).run s₁ with
        ⟨_ | _, s₂⟩
      · rw [hmade] at hmake
        exact hmake
      · rw [hmade] at hmake
        exact hmake
    · rw [hrun] at hisDirectory
      intro place
      rw [← hisDirectory]
      rfl

/-- An export that fails leaves all files as they were, or the writing of its files stopped at one
of them. Then the files before that one are gone, whatever there was at their places, and all files
are as they were if and only if each place that was touched held before what is left there. -/
theorem writeJson_failure {p : Project} {c c' : Context}
    (h : onFiles (writeJson p path) c s = ((.error e, c'), s')) :
    (disk s).SameFiles (disk s') ∨
    ∃ (out : Output) (stop : Stop), Runs (exportScene p path false) c out c' ∧
      stop.In (outputFiles c' out path) ∧
      (∀ left, stop.held = some (some left) → residue σ left) ∧
      (∀ place, (disk s').file? place = (stop.left? (disk s') place).getD ((disk s).file? place)) ∧
      ((disk s).SameFiles (disk s') ↔
        ∀ place content, stop.left? (disk s') place = some content →
        (disk s).file? place = content) := by
  rw [onFiles_writeJson] at h
  rcases hexport : after (exportScene p path false) c with ⟨_ | out, c₁⟩
  · rw [hexport] at h
    cases h
    exact .inl fun _ => rfl
  rw [hexport] at h
  dsimp only at h
  have hdirectory := sameFiles_ensureDirectory (Path.directory path) s
  rcases hensure : (ensureDirectory (Path.directory path) : StateM σ (Except Error Unit)).run s with
    ⟨_ | _, s₁⟩
  · rw [hensure] at h hdirectory
    cases h
    exact .inl hdirectory
  rw [hensure] at h hdirectory
  dsimp only at h hdirectory
  rcases hall : (writeAll [] (outputFiles c₁ out path) : StateM σ (Except Error Unit)).run s₁ with
    ⟨_ | _, s₂⟩
  · rw [hall] at h
    cases h
    obtain ⟨hsame, stop, hin, hheld, hfile⟩ := writeAll_error hall
    have hcontents : ∀ place, (disk s').file? place =
        (stop.left? (disk s') place).getD ((disk s).file? place) := by
      intro place
      rw [hfile, List.map_nil, Contents.clear_nil, Stop.apply, Stop.left?, Stop.left?,
        hsame.spot?_eq, hdirectory place]
    refine .inr ⟨out, stop, hexport, hin, hheld, hcontents, ?_⟩
    refine forall_congr' fun place => ?_
    rw [hcontents place]
    cases stop.left? (disk s') place with
    | none => simp
    | some content => simp [eq_comm]
  · rw [hall] at h
    cases h

/-- A directory in the place of the manifest makes the export fail, and the binary file of an
earlier export is lost. -/
example : (onFiles (writeJson flag "/shelf/flag.json") blank
    (⟨[(["shelf"], .directory), (["shelf", "flag.bin"], .file [1, 2, 3]),
      (["shelf", "flag.json"], .directory)], []⟩ : Disk)).2.file? ["shelf", "flag.bin"] = none := by
  decide +kernel

/-- A shelf with the binary file of an earlier export. The fourth write or move on it fails. -/
def shelf : Unreliable where
  disk := ⟨[(["shelf"], .directory), (["shelf", "flag.bin"], .file [1, 2, 3])], []⟩
  mishaps := [none, none, none, some ⟨"Input/output error", none⟩]

/-- The manifest cannot be moved to its place, and the binary file of the earlier export is lost. -/
theorem flag_not_sameFiles : ∃ e c' u,
    onFiles (writeJson flag "/shelf/flag.json") blank shelf = ((.error e, c'), u) ∧
      ¬ shelf.disk.SameFiles u.disk ∧
      ∃ (out : Output) (stop : Stop),
      Runs (exportScene flag "/shelf/flag.json" false) blank out c' ∧
        stop.In (outputFiles c' out "/shelf/flag.json") ∧
        ∃ place content, stop.left? u.disk place = some content ∧
        shelf.disk.file? place ≠ content := by
  have hend : ((onFiles (writeJson flag "/shelf/flag.json") blank shelf).1.1.isOk,
      (onFiles (writeJson flag "/shelf/flag.json") blank shelf).2.disk.file?
        ["shelf", "flag.bin"]) = (false, none) := by decide +kernel
  rcases hrun : onFiles (writeJson flag "/shelf/flag.json") blank shelf with ⟨⟨e | out, c'⟩, u⟩
  · rw [hrun] at hend
    have hchanged : ¬ shelf.disk.SameFiles u.disk := by
      intro hsame
      have hkept := (hsame ["shelf", "flag.bin"]).symm.trans (Prod.mk.inj hend).2
      exact absurd hkept (by decide +kernel)
    obtain ⟨out, stop, hexport, hin, -, -, hiff⟩ := (writeJson_failure hrun).resolve_left hchanged
    have hleft := mt hiff.mpr hchanged
    simp only [not_forall] at hleft
    obtain ⟨place, content, hleft, hother⟩ := hleft
    exact ⟨e, c', u, rfl, hchanged, out, stop, hexport, hin, place, content, hleft, hother⟩
  · simp [hrun, Except.isOk, Except.toBool] at hend

end Export

end SceneExport
