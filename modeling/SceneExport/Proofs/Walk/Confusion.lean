import Mathlib
import SceneExport.Proofs.Walk.Closure

/-!
# Datablocks that are taken for each other

An identifier is the digest of one text: the word for the kind, the name, and the path of the
library or, for a datablock without one, of the project. Nothing stands between name and path. So
even a digest that keeps all texts apart gives one identifier to `hall` from `//set.blend` and to
`hall/` from `/set.blend`, and to a datablock of the project and its namesake that is linked from
the project's own file. Datablocks of one kind whose names and paths run together in this way are
the only ones that share an identifier.

The walk knows datablocks by their identifiers. It passes one over if it has entered another before
that this one is taken for, and what the one passed over refers to is then not visited on its
behalf.
-/
namespace SceneExport

namespace Project

/-- The datablocks agree in kind, name and library. -/
structure Block.Same (a b : Block) : Prop where
  kind : a.kind = b.kind
  name : a.name = b.name
  library : a.library = b.library

/-- The file that a datablock comes from. -/
def origin (p : Project) (b : Block) : String :=
  b.library.getD p.filepath

/-- The datablocks are of one kind, and their names run together with their origins into one
text. -/
def Confused (p : Project) (a b : Block) : Prop :=
  a.kind = b.kind ∧ a.name ++ p.origin a = b.name ++ p.origin b

lemma Block.Same.confused {a b : Block} (h : a.Same b) (p : Project) : p.Confused a b :=
  ⟨h.kind, by rw [origin, origin, h.name, h.library]⟩

lemma identityText_eq (p : Project) (b : Block) :
    p.identityText b = b.kind.label ++ (b.name ++ p.origin b) := by
  rw [identityText, String.append_empty, String.append_assoc, origin]

/-- A digest that keeps texts apart tells all datablocks apart but those that are confused. -/
theorem identifier_eq_iff {p : Project} (hdigest : p.DigestsApart) {a b : Block}
    (ha : a ∈ p.datablocks) (hb : b ∈ p.datablocks) :
    p.identifier a = p.identifier b ↔ p.Confused a b := by
  constructor
  · intro h
    have hkind := kind_eq_of_identifier_eq hdigest ha hb h
    rw [identifier_eq_digest, identifier_eq_digest] at h
    have htext := hdigest a ha b hb h
    rw [identityText_eq, identityText_eq, hkind] at htext
    exact ⟨hkind, String.append_right_inj _ |>.mp htext⟩
  · rintro ⟨hkind, htext⟩
    rw [identifier_eq_digest, identifier_eq_digest, identityText_eq, identityText_eq, hkind, htext]

end Project

namespace Export

open Project (Block)

/-- `Passage p R v bs w`: visiting the datablocks `bs` after `v` were entered ends with `w` entered,
the last one first. A datablock is passed over if it stands in the relation to one that was entered
before; else it is entered, and what it refers to is visited. -/
inductive Passage (p : Project) (R : Block → Block → Prop) :
    List Block → List Block → List Block → Prop
  | done (v : List Block) : Passage p R v [] v
  | passed {v w bs : List Block} {a b : Block} :
    a ∈ v → R a b → Passage p R v bs w → Passage p R v (b :: bs) w
  | entered {v u w bs : List Block} {b : Block} :
    (∀ a ∈ v, ¬ R a b) → Passage p R (b :: v) (p.references b) u → Passage p R u bs w →
    Passage p R v (b :: bs) w

/-- A tour passes over whatever has the identifier of a datablock that it has entered. Sounds that
are left out are entered as well, they refer to nothing. -/
theorem Tour.passage {p : Project} {s t : Record} {bs ls : List Block} (h : Tour p s bs ls t) :
    ∀ v, s.marks = v.map p.identifier →
      ∃ w, t.marks = w.map p.identifier ∧
        Passage p (fun a b => p.identifier a = p.identifier b) v bs w := by
  induction h with
  | done s => exact fun v hv => ⟨v, hv, .done v⟩
  | known hm _ ih =>
    intro v hv
    obtain ⟨w, hw, htail⟩ := ih v hv
    obtain ⟨a, ha, heq⟩ := List.mem_map.mp (hv ▸ hm)
    exact ⟨w, hw, .passed ha heq htail⟩
  | @unheard _ _ b _ _ hm hu _ ih =>
    intro v hv
    obtain ⟨w, hw, htail⟩ := ih (b :: v) (by simp [hv])
    refine ⟨w, hw, .entered (fun a ha heq => hm ?_) ?_ htail⟩
    · rw [hv]
      exact List.mem_map.mpr ⟨a, ha, heq⟩
    · rw [references_of_unheard hu]
      exact .done _
  | @fresh _ _ _ b _ _ _ _ hm _ _ _ _ ihin ih =>
    intro v hv
    obtain ⟨u, hu, hin⟩ := ihin (b :: v) (by simp [hv])
    obtain ⟨w, hw, htail⟩ := ih u hu
    refine ⟨w, hw, .entered (fun a ha heq => hm ?_) hin htail⟩
    rw [hv]
    exact List.mem_map.mpr ⟨a, ha, heq⟩

/-- Only the relation among the datablocks that come up matters. -/
theorem Passage.congr {p : Project} {R R' : Block → Block → Prop} {P : Block → Prop}
    (hP : ∀ b, P b → ∀ c ∈ p.references b, P c) (hR : ∀ a b, P a → P b → (R a b ↔ R' a b))
    {v bs w : List Block} (h : Passage p R v bs w) :
    (∀ a ∈ v, P a) → (∀ b ∈ bs, P b) → Passage p R' v bs w ∧ ∀ a ∈ w, P a := by
  induction h with
  | done v => exact fun hv _ => ⟨.done v, hv⟩
  | passed ha hab _ ih =>
    intro hv hbs
    rw [List.forall_mem_cons] at hbs
    obtain ⟨htail, hw⟩ := ih hv hbs.2
    exact ⟨.passed ha ((hR _ _ (hv _ ha) hbs.1).mp hab) htail, hw⟩
  | entered hnone _ _ ihin ih =>
    intro hv hbs
    rw [List.forall_mem_cons] at hbs
    obtain ⟨hin, hu⟩ := ihin (List.forall_mem_cons.mpr ⟨hbs.1, hv⟩) (hP _ hbs.1)
    obtain ⟨htail, hw⟩ := ih hu hbs.2
    exact ⟨.entered (fun a ha hab => hnone a ha ((hR _ _ (hv _ ha) hbs.1).mpr hab)) hin htail, hw⟩

/-- Two datablocks share an identifier exactly if they are confused, and an export passes over
exactly the datablocks that are confused with one it has entered. If only datablocks of the same
kind, name and library are confused, then nothing is passed over on account of another one. -/
theorem exportScene_passes_over_confused {p : Project} (hdigest : p.DigestsApart) :
    (∀ a ∈ p.datablocks, ∀ b ∈ p.datablocks, p.identifier a = p.identifier b ↔ p.Confused a b) ∧
      ∀ path html c out c', Runs (exportScene p path html) c out c' →
        ∃ entered, c'.exported = entered.map p.identifier ∧
          Passage p p.Confused [] (origins p) entered ∧
          ((∀ a b, p.Reachable a → p.Reachable b → p.Confused a b → a.Same b) →
            Passage p Block.Same [] (origins p) entered) := by
  refine ⟨fun a ha b hb => Project.identifier_eq_iff hdigest ha hb, fun path html c out c' h => ?_⟩
  obtain ⟨-, source, m, -, hwalk, -, -⟩ := runs_exportScene.mp h
  obtain ⟨entered, hmarks, hpassage⟩ := (Walk.tour_run hwalk).passage [] rfl
  have hstart : ∀ b ∈ origins p, p.Reachable b := fun _ => mem_origins
  obtain ⟨hconfused, -⟩ := hpassage.congr (fun _ hb _ => .step hb)
    (fun a b ha hb => Project.identifier_eq_iff hdigest ha.mem_datablocks hb.mem_datablocks)
    (by simp) hstart
  refine ⟨entered, hmarks, hconfused, fun hsame => ?_⟩
  exact (hconfused.congr (fun _ hb _ => .step hb)
    (fun a b ha hb => ⟨hsame a b ha hb, fun h => h.confused p⟩) (by simp) hstart).1

def hall : Project.Scene := ⟨"hall", some "//set.blend", [], 1, 2, 24, none, false⟩

def annex : Project.Scene := ⟨"hall/", some "/set.blend", [], 1, 2, 24, none, false⟩

/-- Two scenes of different names from different libraries that are confused. -/
def halls : Project where
  filepath := "/work/a.blend"
  exportPathJson := none
  exportPathHtml := none
  scenes := [hall, annex]
  objects := []
  meshes := []
  materials := []
  textures := []
  images := []
  sounds := []
  speakers := []
  armatures := []
  actions := ⟨[]⟩

lemma halls_runs : ∃ out c', Runs (exportScene halls "/work/a.json" false) blank out c' :=
  exists_runs (by decide +kernel)

lemma halls_written {out : Output} {c' : Context}
    (h : Runs (exportScene halls "/work/a.json" false) blank out c') :
    out.manifest.scenes.map Manifest.SceneEntry.name = ["hall"] := by
  have hnames : (after (exportScene halls "/work/a.json" false) blank).1.toOption.map
      (fun out => out.manifest.scenes.map Manifest.SceneEntry.name) = some ["hall"] := by
        decide +kernel
  rw [h] at hnames
  exact Option.some.inj hnames

/-- The second of the two scenes is passed over on account of the first. In the duet nothing is
passed over on account of another datablock. -/
theorem halls_passed_over :
    (halls.DigestsApart ∧
      ¬ (Block.scene hall).Same (.scene annex) ∧
      halls.identifier (.scene hall) = halls.identifier (.scene annex) ∧
      ∃ out c' entered, Runs (exportScene halls "/work/a.json" false) blank out c' ∧
        out.manifest.scenes.map Manifest.SceneEntry.name = ["hall"] ∧
        c'.exported = entered.map halls.identifier ∧
        Passage halls halls.Confused [] (origins halls) entered) ∧
    duet.DigestsApart ∧
      ∃ out c' entered, Runs (exportScene duet "/duet.json" false) blank out c' ∧
        c'.exported = entered.map duet.identifier ∧
        Passage duet Block.Same [] (origins duet) entered := by
  constructor
  · have hdigest : halls.DigestsApart := by
      have htexts : ∀ a ∈ halls.datablocks, halls.identityText a = "Scenehall//set.blend" := by
        decide
      exact fun a ha b hb _ => (htexts a ha).trans (htexts b hb).symm
    obtain ⟨hshared, hruns⟩ := exportScene_passes_over_confused hdigest
    obtain ⟨out, c', h⟩ := halls_runs
    obtain ⟨entered, hmarks, hpassage, -⟩ := hruns _ _ _ _ _ h
    refine ⟨hdigest, fun hsame => absurd hsame.name (by decide), ?_, out, c', entered, h,
      halls_written h, hmarks, hpassage⟩
    exact (hshared _ (by simp [Project.datablocks, halls]) _
      (by simp [Project.datablocks, halls])).mpr ⟨rfl, by decide⟩
  · have hdigest : duet.DigestsApart := by
      intro a ha b hb heq
      rw [← Project.identifier_eq_digest, ← Project.identifier_eq_digest] at heq
      rw [duet_distinct a ha b hb heq]
    obtain ⟨hshared, hruns⟩ := exportScene_passes_over_confused hdigest
    obtain ⟨out, c', h⟩ := duet_runs
    obtain ⟨entered, hmarks, -, hpassage⟩ := hruns _ _ _ _ _ h
    refine ⟨hdigest, out, c', entered, h, hmarks, hpassage fun a b ha hb hab => ?_⟩
    have heq := duet_distinct a ha.mem_datablocks b hb.mem_datablocks
      ((hshared a ha.mem_datablocks b hb.mem_datablocks).mpr hab)
    exact heq ▸ ⟨rfl, rfl, rfl⟩

end Export

end SceneExport
