import Mathlib
import SceneExport.Proofs.Basics
import SceneExport.Proofs.Walk.Sharing

/-!
# Where the vertices of an animation stand

A vertex of a frame is looked up by its number: every vertex has six numbers, and every frame as
many vertices as the mesh. Frames are written one behind another as they are, and only the first one
is compared with the mesh. So the vertices stand where they are looked up if and only if all frames
have as many vertices as the mesh. A frame that has more or fewer moves all frames behind it.
-/
namespace SceneExport

open Manifest (MeshEntry ObjectEntry VertexAnimationEntry)
open Bake (VertexAnimation Vertex)
open Project (Object)

section Vertices

lemma length_flatMap_toList (vertices : List Vertex) :
    (vertices.flatMap Vector.toList).length = 6 * vertices.length := by
  induction vertices with
  | nil => rfl
  | cons x vertices ih =>
    rw [List.flatMap_cons, List.length_append, ih, Vector.length_toList, List.length_cons]
    omega

/-- The six numbers of a vertex. -/
lemma take_drop_flatMap_toList {vertices : List Vertex} {i : Nat} {x : Vertex}
    (h : vertices[i]? = some x) :
    ((vertices.flatMap Vector.toList).drop (6 * i)).take 6 = x.toList := by
  induction vertices generalizing i with
  | nil => simp at h
  | cons y vertices ih =>
    rw [List.flatMap_cons]
    cases i with
    | zero =>
      obtain rfl : y = x := by simpa using h
      simp
    | succ i =>
      rw [← ih (by simpa using h), Nat.mul_succ, Nat.add_comm, ← List.drop_drop,
        List.drop_left' (by simp)]

lemma Bake.VertexAnimation.numbers_eq (a : VertexAnimation) :
    a.numbers = (a.frames.map (·.vertices)).flatten.flatMap Vector.toList := by
  rw [numbers, ← List.flatMap_def, List.flatMap_assoc]

lemma Bake.VertexAnimation.length_numbers (a : VertexAnimation) :
    a.numbers.length = 6 * (a.frames.map (·.vertices)).flatten.length := by
  rw [numbers_eq, length_flatMap_toList]

end Vertices

namespace Export

/-- The numbers can be read at the range, whole and in part. -/
structure Output.Reads (out : Output) (r : Range) (values : List Float32) : Prop where
  length : r.length = values.length
  slice :
    ∀ i n, i + n ≤ values.length → out.floats? ⟨r.offset + i, n⟩ = some ((values.drop i).take n)

/-- The entry has room for its frames with this number of vertices each, and all vertices stand at
their places. -/
structure Output.Rectangular (out : Output) (vertices : Nat) (a : VertexAnimation)
    (v : VertexAnimationEntry) :
    Prop where
  length : v.frames.length = 6 * vertices * a.frames.length
  vertex :
    ∀ j < a.frames.length, ∀ i < vertices, ∃ x,
    (a.frames[j]?.bind fun f => f.vertices[i]?) = some x ∧
    out.floats? ⟨v.frames.offset + 6 * (vertices * j + i), 6⟩ = some x.toList

variable {out : Output} {a : VertexAnimation} {v : VertexAnimationEntry} {n : Nat}

/-- Frames with this number of vertices each are found by the numbers of their vertices. -/
lemma Output.rectangular_of_frames (hreads : out.Reads v.frames a.numbers)
    (hframes : ∀ f ∈ a.frames, f.vertices.length = n) : out.Rectangular n a v := by
  have hrows : ∀ row ∈ a.frames.map (·.vertices), row.length = n := List.forall_mem_map.mpr hframes
  have hlength := length_flatten_of_length hrows
  rw [List.length_map] at hlength
  refine ⟨?_, fun j hj i hi => ?_⟩
  · rw [hreads.length, a.length_numbers, hlength, Nat.mul_assoc]
  -- the vertex is in the list of all vertices, and its numbers are among all numbers
  have hlt : n * j + i < (a.frames.map (·.vertices)).flatten.length := by
    rw [hlength]
    calc n * j + i < n * j + n := Nat.add_lt_add_left hi _
      _ = n * (j + 1) := (Nat.mul_succ n j).symm
      _ ≤ n * a.frames.length := Nat.mul_le_mul_left n hj
  obtain ⟨x, hx⟩ : ∃ x, (a.frames.map (·.vertices)).flatten[n * j + i]? = some x :=
    ⟨_, List.getElem?_eq_getElem hlt⟩
  refine ⟨x, ?_, ?_⟩
  · rwa [getElem?_flatten_of_length hrows hi, List.getElem?_map, Option.bind_map] at hx
  · rw [hreads.slice _ 6 (by rw [a.length_numbers]; omega), a.numbers_eq,
      take_drop_flatMap_toList hx]

/-- The places of the vertices tell how many vertices the frames have. -/
lemma Output.Rectangular.length_eq (h : out.Rectangular n a v)
    (hlength : v.frames.length = a.numbers.length) : ∀ f ∈ a.frames, f.vertices.length = n := by
  have hrows : ∀ row ∈ a.frames.map (·.vertices), n ≤ row.length := by
    refine List.forall_mem_map.mpr fun f hf => ?_
    by_contra hlt
    obtain ⟨j, hj, rfl⟩ := List.getElem_of_mem hf
    obtain ⟨x, hx, -⟩ := h.vertex j hj _ (not_le.mp hlt)
    simp [hj] at hx
  have hsum : (a.frames.map (·.vertices)).flatten.length =
      n * (a.frames.map (·.vertices)).length := by
    have hframes := h.length
    rw [hlength, a.length_numbers, Nat.mul_assoc] at hframes
    rw [List.length_map]
    omega
  exact List.forall_mem_map.mp (length_eq_of_sum hrows hsum)

lemma Output.rectangular_iff (hreads : out.Reads v.frames a.numbers) :
    out.Rectangular n a v ↔ ∀ f ∈ a.frames, f.vertices.length = n :=
  ⟨fun h => h.length_eq hreads.length, rectangular_of_frames hreads⟩

variable {p : Project} {path : String} {html : Bool} {c c' : Context}

/-- Every vertex animation of an exported mesh is one of the first object that refers to the mesh.
Its vertices stand at their places if and only if all its frames have as many vertices as the
mesh. -/
theorem exportScene_rectangular_iff (h : Runs (exportScene p path html) c out c')
    (hsize : ∀ blob, out.binary = some blob → blob.length < 0x10000000000000000) {me : MeshEntry}
    (hme : me ∈ out.manifest.meshes) :
    ∃ vertices e o mesh, me.Counts vertices ∧ out.manifest.firstUser? me.uuid = some e ∧
      p.object? e.name = some o ∧ p.shown? o = some (.mesh mesh) ∧
      List.Forall₂ (fun a v => v.Shows a ∧
          (out.Rectangular vertices a v ↔ ∀ f ∈ a.frames, f.vertices.length = vertices))
        (o.animationsFor mesh) me.vertexAnimations := by
  obtain ⟨s, v, file, htable, hbinary, hmeshes⟩ := stored_exportScene h
  obtain ⟨e, o, mesh, hfirst, ho, hshown, hcounts, hanimations⟩ := hmeshes me hme
  refine ⟨_, e, o, mesh, hcounts, hfirst, ho, hshown, hanimations.imp fun a v hv => ⟨hv.1, ?_⟩⟩
  refine Output.rectangular_iff ⟨?_, fun i n hin => ?_⟩
  · obtain ⟨_, _, -, -, hlength⟩ := hv.2
    exact hlength.symm
  · exact floats?_of_stored htable hbinary hsize (hv.2.slice Sections.length_floatBytes hin)

/-- An animation whose frames have these numbers of vertices. -/
def waving (counts : List Nat) : VertexAnimation :=
  ⟨"wave", 1, 2, false, 5, false,
    counts.map fun count => ⟨1, List.replicate count (.replicate 6 0)⟩⟩

/-- The boat with a sail that waves. -/
def regatta (counts : List Nat) : Project :=
  { boat ["sail"] with objects := [{ sail with vertexAnimations := [waving counts] }] }

lemma regatta_runs {counts : List Nat} (hcounts : counts = [2, 2] ∨ counts = [2, 1]) :
    ∃ out c' me, Runs (exportScene (regatta counts) "/boat.json" false) blank out c' ∧
      (∀ blob, out.binary = some blob → blob.length < 0x10000000000000000) ∧
      out.manifest.meshes = [me] ∧ me.submeshes.map (·.vertices) = [2] := by
  obtain ⟨out, c', h⟩ : ∃ out c',
      Runs (exportScene (regatta counts) "/boat.json" false) blank out c' := by
    rcases hcounts with rfl | rfl <;> exact exists_runs (by decide +kernel)
  have hout : (after (exportScene (regatta counts) "/boat.json" false) blank).1.toOption.map
      (fun out => (out.binary.all fun blob => blob.length < 0x10000000000000000,
        out.manifest.meshes.map fun me => me.submeshes.map (·.vertices))) = some (true, [[2]]) := by
    rcases hcounts with rfl | rfl <;> decide +kernel
  rw [h] at hout
  obtain ⟨hsize, hmeshes⟩ : (out.binary.all fun blob => blob.length < 0x10000000000000000) = true ∧
      (out.manifest.meshes.map fun me => me.submeshes.map (·.vertices)) = [[2]] := by
    simpa [Except.toOption] using hout
  obtain ⟨me, hme, hparts⟩ := List.map_eq_singleton_iff.mp hmeshes
  refine ⟨out, c', me, h, fun blob hblob => ?_, hme, hparts⟩
  rw [hblob] at hsize
  exact of_decide_eq_true hsize

/-- Two frames with both vertices of the cloth, and a second frame that lacks one. -/
theorem regatta_rectangular :
    (∃ out c' me v, Runs (exportScene (regatta [2, 2]) "/boat.json" false) blank out c' ∧
      out.manifest.meshes = [me] ∧ me.Counts 2 ∧ me.vertexAnimations = [v] ∧
      out.Rectangular 2 (waving [2, 2]) v) ∧
    ∃ out c' me v, Runs (exportScene (regatta [2, 1]) "/boat.json" false) blank out c' ∧
      out.manifest.meshes = [me] ∧ me.Counts 2 ∧ me.vertexAnimations = [v] ∧
      ¬ out.Rectangular 2 (waving [2, 1]) v := by
  have hiff (counts : List Nat) (hcounts : counts = [2, 2] ∨ counts = [2, 1]) : ∃ out c' me v,
      Runs (exportScene (regatta counts) "/boat.json" false) blank out c' ∧
      out.manifest.meshes = [me] ∧ me.Counts 2 ∧ me.vertexAnimations = [v] ∧
      (out.Rectangular 2 (waving counts) v ↔ ∀ f ∈ (waving counts).frames,
        f.vertices.length = 2) := by
    obtain ⟨out, c', me, h, hsize, hmeshes, hparts⟩ := regatta_runs hcounts
    obtain ⟨_, e, o, mesh, ⟨part, hpart, rfl⟩, -, ho, hshown, hanimations⟩ :=
      exportScene_rectangular_iff h hsize (hmeshes ▸ List.mem_singleton_self me)
    have hvertices : part.vertices = 2 := by simpa [hpart] using hparts
    obtain rfl : o = { sail with vertexAnimations := [waving counts] } :=
      List.mem_singleton.mp (Project.mem_of_named? ho)
    have hcloth : (regatta counts).shown? { sail with vertexAnimations := [waving counts] } =
        some (.mesh cloth) := rfl
    rw [hcloth] at hshown
    cases hshown
    have hfits : Object.animationsFor { sail with vertexAnimations := [waving counts] } cloth =
        [waving counts] := by
      rcases hcounts with rfl | rfl <;> rfl
    rw [hfits, hvertices] at hanimations
    obtain ⟨v, rest, hv, hrest, hentries⟩ := List.forall₂_cons_left_iff.mp hanimations
    rw [List.forall₂_nil_left_iff.mp hrest] at hentries
    exact ⟨out, c', me, v, h, hmeshes, ⟨part, hpart, hvertices⟩, hentries, hv.2⟩
  obtain ⟨out, c', me, v, h, hmeshes, hcounts, hv, hrect⟩ := hiff [2, 2] (.inl rfl)
  obtain ⟨out', c'', me', v', h', hmeshes', hcounts', hv', hrect'⟩ := hiff [2, 1] (.inr rfl)
  exact ⟨⟨out, c', me, v, h, hmeshes, hcounts, hv, hrect.mpr (by decide)⟩,
    out', c'', me', v', h', hmeshes', hcounts', hv', mt hrect'.mp (by decide)⟩

end Export

end SceneExport
