import Mathlib
import SceneExport.Manifest.Codec
import SceneExport.Proofs.Json.Roundtrip
import SceneExport.Proofs.Walk.Objects

/-!
# The header of an exported manifest

The two members by which a manifest is recognised come first in its text, and what follows them has
other names. An export writes the version of its options and the path of its project there, and
nothing it does on the way changes them.
-/
namespace SceneExport

namespace Manifest

open Json (Codec Shape)

/-- The written manifest starts with the members of its header; no later member has their names. -/
lemma exists_write {m : Manifest} (hextra : m.extra = []) :
    ∃ rest, codec.write m = .object (("b4w_format_version", .text m.formatVersion) ::
        ("b4w_filepath_blend", .text m.source) :: rest) ∧
      ∀ e ∈ rest, e.1 ∉ ["b4w_format_version", "b4w_filepath_blend"] := by
  have hothers : ∀ name ∈ shape.names.drop 2,
      name ∉ ["b4w_format_version", "b4w_filepath_blend"] := by decide
  refine ⟨(shape.writeMembers (m.formatVersion, m.source, m.actions, m.images, m.textures,
    m.materials, m.meshes, m.armatures, m.sounds, m.speakers, m.objects, m.scenes, m.binaries,
    m.warnings, m.errors, ())).drop 2, ?_, fun e he => hothers e.1 ?_⟩
  · simp only [codec, hextra, List.append_nil]
    rfl
  · rw [← Shape.names_writeMembers, ← List.map_drop]
    exact List.mem_map_of_mem he

/-- The header is found in the text of a manifest without extra members. -/
theorem header_toText {m : Manifest} (hextra : m.extra = []) (style : Json.Style) :
    Header.ofText (m.toText style) = .ok ⟨some m.formatVersion, some m.source⟩ := by
  obtain ⟨rest, hwrite, hrest⟩ := exists_write hextra
  have hread : Header.codec.read (codec.write m).reread =
      .ok ⟨some m.formatVersion, some m.source⟩ := by
    rw [hwrite]
    refine map_eq_ok.2 ⟨(some m.formatVersion, some m.source, ()), bind_eq_ok.2
      ⟨((some (some m.formatVersion), some (some m.source), ()), ()), Eq.trans ?_
        (Shape.readMembers_ignore (by exact hrest) _), rfl⟩, rfl⟩
    rfl
  rw [Header.ofText, toText, Codec.ofText, Codec.toText, Json.ofText_render]
  exact bind_eq_ok.2 ⟨_, hread, rfl⟩

end Manifest

namespace Export

/-- A tour adds entries and leaves the rest of the manifest as it is. -/
lemma Tour.header_eq {p : Project} {s t : Record} {bs ls : List Project.Block}
    (h : Tour p s bs ls t) :
    t.manifest.formatVersion = s.manifest.formatVersion ∧ t.manifest.source = s.manifest.source ∧
      t.manifest.extra = s.manifest.extra := by
  have hadd : ∀ (m : Manifest) e, (m.add e).formatVersion = m.formatVersion ∧
      (m.add e).source = m.source ∧ (m.add e).extra = m.extra := by
    intro m e
    cases e <;> exact ⟨rfl, rfl, rfl⟩
  induction h with
  | done => exact ⟨rfl, rfl, rfl⟩
  | known _ _ ih => exact ih
  | unheard _ _ _ ih => exact ih
  | @fresh _ r _ _ _ _ _ e _ _ _ _ _ ihin ih =>
    obtain ⟨hversion, hsource, hextra⟩ := hadd r.manifest e
    exact ⟨ih.1.trans (hversion.trans ihin.1), ih.2.1.trans (hsource.trans ihin.2.1),
      ih.2.2.trans (hextra.trans ihin.2.2)⟩

variable {p : Project} {path : String} {html : Bool} {c c' : Context} {out : Output}

/-- The header of an exported manifest holds the version and the path of the project. -/
theorem header_exportScene (h : Runs (exportScene p path html) c out c') :
    ∃ source, Path.sourceFromExport p.filepath path = .ok source ∧
      ∀ style, Manifest.Header.ofText (out.manifest.toText style) =
        .ok ⟨some c.config.formatVersion, some source⟩ := by
  obtain ⟨-, source, m, hsource, hwalk, -, rfl⟩ := runs_exportScene.mp h
  obtain ⟨hversion, hpath, hextra⟩ := (Walk.tour_run hwalk).header_eq
  refine ⟨source, hsource, fun style => ?_⟩
  refine (Manifest.header_toText (m := (Output.ofWalk path c' m).manifest) hextra style).trans ?_
  exact congrArg₂ (fun v s => Except.ok (Manifest.Header.mk (some v) (some s))) hversion hpath

end Export

end SceneExport
