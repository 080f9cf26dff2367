import Mathlib
import SceneExport.Proofs.Walk.Ledger
import SceneExport.Proofs.Walk.Reach

/-!
# An export is read back through its own manifest

The walk of an export starts with empty sections and an empty manifest, and what it files stays
filed. The binary file is made of the sections, and the manifest says where each of them starts. So
whoever reads the ranges of the manifest in the file finds the numbers of the project there. Without
numbers there is no file, and then every range is empty.
-/
namespace SceneExport.Export

open Range (Laid)
open Sections (readFloats? readWords)

variable {p : Project} {path : String} {html : Bool} {c c' : Context} {out : Output}

lemma filed_empty (version source : String) : Filed p .empty (.empty version source) where
  whole := ⟨Nat.dvd_zero 4, Nat.dvd_zero 4⟩
  floats := .nil
  ints := .nil
  meshes := by simp [Manifest.empty]
  actions := by simp [Manifest.empty]

/-- What an export hands out: the manifest is filed in sections, and the file holds these
sections. -/
theorem filed_exportScene (h : Runs (exportScene p path html) c out c') :
    ∃ s v file, Filed p s out.manifest ∧ out.manifest.binaries = [s.table file] ∧
      out.binary = if s.isEmpty then none else some (s.blob v) := by
  unfold exportScene at h
  simp only [runs_bind, runs_modify] at h
  obtain ⟨_, c₀, rfl, h⟩ := h
  split at h
  · simp at h
  · simp only [runs_bind, runs_liftExcept, runs_get, runs_pure, runs_runWalk] at h
    obtain ⟨source, _, ⟨-, rfl⟩, _, _, ⟨rfl, rfl⟩, m, c₁, hwalk, _, _, ⟨rfl, rfl⟩, _, _, -,
        rfl, -⟩ := h
    exact ⟨_, _, _, (Walk.keeps_run _ hwalk (filed_empty _ _)).congr rfl rfl, rfl, rfl⟩

lemma length_eq_zero_of_laid {hi : Nat} {rs : List Range} (h : Laid 0 hi rs) (hhi : hi = 0)
    {r : Range} (hr : r ∈ rs) : r.length = 0 := by
  have hinside := (h.inside r hr).2
  omega

/-- Every export can be read back through its own manifest. The ranges of a section lie inside it,
and no two of them meet. At the ranges of a mesh stand its positions, normals and indices and the
frames of its vertex animations, and at those of an action the streams of its curves. Where there is
no file the ranges are empty. Positions in a file have 64 bits, so longer files are not spoken
of. -/
theorem exportScene_readable (h : Runs (exportScene p path html) c out c') :
    ∃ table, out.manifest.binaries = [table] ∧
      (out.manifest.floatRanges.Pairwise Range.Apart ∧
        ∀ r ∈ out.manifest.floatRanges, table.float + 4 * (r.offset + r.length) ≤ table.short) ∧
      (out.manifest.intRanges.Pairwise Range.Apart ∧
        ∀ r ∈ out.manifest.intRanges, table.int + 4 * (r.offset + r.length) ≤ table.float) ∧
      (∀ blob, out.binary = some blob → blob.length < 0x10000000000000000 →
        (∀ e ∈ out.manifest.meshes,
          p.HoldsMesh (fun r values => readFloats? blob table r = some values)
          (fun r values => readWords blob table r = values) e) ∧
        ∀ e ∈ out.manifest.actions,
          p.HoldsAction (fun r values => readFloats? blob table r = some values) e) ∧
      (out.binary = none → ∀ r ∈ out.manifest.floatRanges ++ out.manifest.intRanges,
        r.length = 0) := by
  obtain ⟨s, v, file, hfiled, htable, hbinary⟩ := filed_exportScene h
  refine ⟨s.table file, htable, ⟨hfiled.floats.apart, fun r hr => ?_⟩,
    ⟨hfiled.ints.apart, fun r hr => ?_⟩, fun blob hblob hsize => ?_, fun hnone r hr => ?_⟩
  · have hinside := (hfiled.floats.inside r hr).2
    change s.int.length + 4 * (r.offset + r.length) ≤ s.int.length + s.float.length
    omega
  · have hinside := (hfiled.ints.inside r hr).2
    change 0 + 4 * (r.offset + r.length) ≤ s.int.length
    omega
  · obtain rfl : s.blob v = blob := by
      rw [hbinary] at hblob
      split at hblob
      · cases hblob
      · exact Option.some.inj hblob
    refine ⟨fun e he => (hfiled.meshes e he).imp ?_ ?_, fun e he => (hfiled.actions e he).imp ?_⟩
    · exact fun r values hstored => Sections.readFloats?_blob v file hstored hsize
    · exact fun r values hstored => Sections.readWords_blob v file hstored
    · exact fun r values hstored => Sections.readFloats?_blob v file hstored hsize
  · have hempty : s.size = 0 := by
      rw [hbinary] at hnone
      split at hnone
      · next hempty => exact of_decide_eq_true hempty
      · cases hnone
    have hlengths : s.float.length / 4 = 0 ∧ s.int.length / 4 = 0 := by
      unfold Sections.size at hempty
      omega
    rcases List.mem_append.mp hr with hr | hr
    · exact length_eq_zero_of_laid hfiled.floats hlengths.1 hr
    · exact length_eq_zero_of_laid hfiled.ints hlengths.2 hr

/-- A flag that waves while it is moved: a mesh with a vertex animation, and an action with two
curves. -/
def flag : Project where
  filepath := "/flag.scene"
  exportPathJson := none
  exportPathHtml := none
  scenes := [⟨"yard", none, ["flag"], 1, 2, 24, none, false⟩]
  objects :=
    [⟨"flag", none, .mesh, some "cloth", none, .replicate 16 0, some ⟨some "wave"⟩, [], true,
      [⟨"flutter", 1, 2, false, 5, false, [⟨1, [.replicate 6 0, .replicate 6 1]⟩]⟩], false⟩]
  meshes := [⟨"cloth", none, [#v[0, 0, 0], #v[1, 0, 0]], [#v[0, 0, 1], #v[0, 0, 1]], [0, 1], []⟩]
  materials := []
  textures := []
  images := []
  sounds := []
  speakers := []
  armatures := []
  actions := ⟨[⟨"wave", .object, (1, 2), [⟨"", [⟨.location, 0, [.plain 1 0, .plain 2 1]⟩,
    ⟨.location, 1, [.plain 1 2]⟩]⟩]⟩]⟩

lemma flag_runs : ∃ out c' blob, Runs (exportScene flag "/flag.json" false) blank out c' ∧
    out.binary = some blob ∧ blob.length = 184 ∧ out.manifest.floatRanges.length = 5 ∧
    out.manifest.intRanges.length = 1 := by
  obtain ⟨out, c', h⟩ : ∃ out c', Runs (exportScene flag "/flag.json" false) blank out c' :=
    exists_runs (by decide +kernel)
  have hsizes : ((after (exportScene flag "/flag.json" false) blank).1.toOption.map fun out =>
      (out.binary.map List.length, out.manifest.floatRanges.length,
        out.manifest.intRanges.length)) =
      some (some 184, 5, 1) := by decide +kernel
  rw [h] at hsizes
  obtain ⟨⟨blob, hblob, hlength⟩, hranges⟩ : (∃ blob, out.binary = some blob ∧ blob.length = 184) ∧
      out.manifest.floatRanges.length = 5 ∧ out.manifest.intRanges.length = 1 := by
    simpa [Except.toOption] using hsizes
  exact ⟨out, c', blob, h, hblob, hlength, hranges⟩

theorem flag_readable :
    ∃ out c' blob table, Runs (exportScene flag "/flag.json" false) blank out c' ∧
      out.binary = some blob ∧ out.manifest.binaries = [table] ∧
      out.manifest.floatRanges.length = 5 ∧ out.manifest.floatRanges.Pairwise Range.Apart ∧
      out.manifest.intRanges.length = 1 ∧
      (∀ e ∈ out.manifest.meshes,
        flag.HoldsMesh (fun r values => readFloats? blob table r = some values)
        (fun r values => readWords blob table r = values) e) ∧
      ∀ e ∈ out.manifest.actions,
        flag.HoldsAction (fun r values => readFloats? blob table r = some values) e := by
  obtain ⟨out, c', blob, h, hblob, hlength, hfloats, hints⟩ := flag_runs
  obtain ⟨table, htable, ⟨hapart, -⟩, -, hread, -⟩ := exportScene_readable h
  obtain ⟨hmeshes, hactions⟩ := hread blob hblob (by omega)
  exact ⟨out, c', blob, table, h, hblob, htable, hfloats, hapart, hints, hmeshes, hactions⟩

end SceneExport.Export
