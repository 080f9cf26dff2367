import Mathlib
import SceneExport.Bake.Vertex
import SceneExport.Proofs.Bake.Shape

/-!
# Vertex animations are baked as a whole or not at all

While the vertices of a mesh are recorded, the mesh may refuse a frame, may have no vertices to
show, or may show another number of them than before. However recording ends, the mesh is then asked
to go back to the frame it was at, and it may refuse that as well. The animation is refilled only
when all of this goes well, and then with one record for each frame of its range. An error of the
recording is reported rather than one of going back. The mesh is any machine, so it may also
remember what it was asked.
-/
namespace SceneExport.Bake

variable {σ : Type} {mesh : MeshEvaluator σ} {expected : Option Nat} {frames : List Int} {s s' : σ}

/-- What comes of recording frames one after another, and the state in which it leaves the mesh. All
records have the expected number of vertices if there is one. -/
inductive Sampling (mesh : MeshEvaluator σ) :
    (expected : Option Nat) → List Int → σ → Except Error (List VertexFrame) → σ → Prop
  | done (expected : Option Nat) (s : σ) : Sampling mesh expected [] s (.ok []) s
  /-- The mesh does not go to the frame. -/
  | refused {expected : Option Nat} {frame : Int} {rest : List Int} {s s' : σ} {e : Error} :
    (attempt (mesh.setFrame frame)).run s = (.error e, s') →
      Sampling mesh expected (frame :: rest) s (.error e) s'
  /-- The mesh has no vertices to show there. -/
  | unread {expected : Option Nat} {frame : Int} {rest : List Int} {s s₁ s' : σ} {e : Error} :
    (attempt (mesh.setFrame frame)).run s = (.ok (), s₁) →
      (attempt mesh.vertices).run s₁ = (.error e, s') →
      Sampling mesh expected (frame :: rest) s (.error e) s'
  /-- There are other vertices than before. -/
  | changed {count : Nat} {frame : Int} {rest : List Int} {s s₁ s' : σ} {vertices : List Vertex} :
    (attempt (mesh.setFrame frame)).run s = (.ok (), s₁) →
      (attempt mesh.vertices).run s₁ = (.ok vertices, s') → count ≠ vertices.length →
      Sampling mesh (some count) (frame :: rest) s
        (.error (.topologyChanged (mesh.object s') frame count vertices.length)) s'
  /-- The vertices are recorded, and the next frame follows. -/
  | recorded {expected : Option Nat} {frame : Int} {rest : List Int} {s s₁ s₂ s' : σ}
    {vertices : List Vertex} {later : Except Error (List VertexFrame)} :
    (attempt (mesh.setFrame frame)).run s = (.ok (), s₁) →
      (attempt mesh.vertices).run s₁ = (.ok vertices, s₂) →
      (∀ count ∈ expected, count = vertices.length) →
      Sampling mesh (some vertices.length) rest s₂ later s' →
      Sampling mesh expected (frame :: rest) s (later.map (⟨frame, vertices⟩ :: ·)) s'

lemma checkTopology_cases (object : String) (frame : Int) (expected : Option Nat) (found : Nat) :
    (∃ count, expected = some count ∧ count ≠ found ∧
      checkTopology object frame expected found =
        .error (.topologyChanged object frame count found)) ∨
    (∀ count ∈ expected, count = found) ∧ checkTopology object frame expected found = .ok () := by
  cases expected with
  | none => exact .inr ⟨by simp, rfl⟩
  | some count =>
    by_cases hcount : count = found
    · exact .inr ⟨by simp [hcount], by simp [checkTopology, Option.filter, hcount]⟩
    · exact .inl ⟨count, rfl, hcount, by simp [checkTopology, Option.filter, hcount]⟩

/-- Recording goes along the frames. -/
lemma exists_sampling (mesh : MeshEvaluator σ) (expected : Option Nat) (count : Nat) (frame : Int)
    (s : σ) :
    ∃ r s', (attempt (recordFrames mesh expected count frame)).run s = (r, s') ∧
      Sampling mesh expected (framesFrom frame count) s r s' := by
  induction count generalizing expected frame s with
  | zero => exact ⟨.ok [], s, rfl, .done expected s⟩
  | succ count ih =>
    rw [framesFrom]
    unfold recordFrames
    rcases hset : (attempt (mesh.setFrame frame)).run s with ⟨e | _, s₁⟩
    · exact ⟨.error e, s₁, attempt_bind_error hset, .refused hset⟩
    rcases hread : (attempt mesh.vertices).run s₁ with ⟨e | vertices, s₂⟩
    · refine ⟨.error e, s₂, ?_, .unread hset hread⟩
      rw [attempt_bind_ok hset, attempt_bind_error hread]
    rw [attempt_bind_ok hset, attempt_bind_ok hread, attempt_bind_ok (attempt_get s₂)]
    rcases checkTopology_cases (mesh.object s₂) frame expected vertices.length with
      ⟨n, rfl, hne, hcheck⟩ | ⟨hsame, hcheck⟩
    · rw [hcheck]
      exact ⟨_, s₂, rfl, .changed hset hread hne⟩
    · obtain ⟨later, s', hlater, hsampling⟩ := ih (some vertices.length) (frame + 1) s₂
      rw [hcheck]
      refine ⟨_, s', ?_, .recorded hset hread hsame hsampling⟩
      cases later with
      | error e => exact attempt_bind_error hlater
      | ok frames => exact attempt_bind_ok hlater

/-- There is one record for each frame, in their order. -/
lemma Sampling.map_frame {records : List VertexFrame}
    (h : Sampling mesh expected frames s (.ok records) s') :
    records.map VertexFrame.frame = frames := by
  generalize hr : Except.ok records = r at h
  induction h generalizing records with
  | done => cases hr; rfl
  | refused | unread | changed => cases hr
  | @recorded _ frame rest _ _ _ _ vertices later _ _ _ _ ih =>
    cases later with
    | error e => cases hr
    | ok records' =>
      cases hr
      rw [List.map_cons, ih rfl]

/-- All records have the same number of vertices. -/
lemma Sampling.exists_length {records : List VertexFrame}
    (h : Sampling mesh expected frames s (.ok records) s') :
    ∃ n, (∀ count ∈ expected, count = n) ∧ ∀ f ∈ records, f.vertices.length = n := by
  generalize hr : Except.ok records = r at h
  induction h generalizing records with
  | done expected s =>
    cases hr
    exact ⟨expected.getD 0, fun count hcount => by simp [Option.mem_def.mp hcount], by simp⟩
  | refused | unread | changed => cases hr
  | @recorded _ frame rest _ _ _ _ vertices later _ _ hsame _ ih =>
    cases later with
    | error e => cases hr
    | ok records' =>
      cases hr
      obtain ⟨n, hn, hlater⟩ := ih rfl
      obtain rfl : vertices.length = n := hn _ rfl
      refine ⟨vertices.length, hsame, fun f hf => ?_⟩
      rcases List.mem_cons.mp hf with rfl | hf
      · rfl
      · exact hlater f hf

/-- What is done to the mesh leaves the animation alone. -/
lemma attempt_onMesh {β : Type} (m : StateM σ β) (s : σ) (a : VertexAnimation) :
    (attempt (liftM (onMesh m) : Step (σ × VertexAnimation) β)).run (s, a) =
      (.ok (m.run s).1, ((m.run s).2, a)) := rfl

/-- A range that is turned around is refused. -/
lemma attempt_bakeVertices_of_lt (s : σ) {a : VertexAnimation} (hlt : a.stop < a.start) :
    (attempt (bakeVertices mesh)).run (s, a) =
      (.error (.invalidFrameRange (Float.ofInt a.start) (Float.ofInt a.stop)), (s, a)) := by
  have hbounds : FrameRange.ofBounds a.start a.stop =
      .error (.invalidFrameRange (Float.ofInt a.start) (Float.ofInt a.stop)) := dif_neg hlt.not_ge
  rw [bakeVertices, attempt_bind_ok (attempt_get (s, a))]
  simp only [hbounds, attempt_throw]

/-- A bake records, goes back and refills the animation, in this order. -/
lemma attempt_bakeVertices {range : FrameRange} {a : VertexAnimation}
    (hbounds : FrameRange.ofBounds a.start a.stop = .ok range) {s₁ : σ}
    {sampled : Except Error (List VertexFrame)} {restored : Except Error Unit}
    (hsampled : (attempt (recordFrames mesh none range.size range.start)).run s = (sampled, s₁))
    (hrestored : (attempt (mesh.setFrame (mesh.frame s))).run s₁ = (restored, s')) :
    (attempt (bakeVertices mesh)).run (s, a) = (attempt (refill sampled restored)).run (s', a) := by
  rw [bakeVertices, attempt_bind_ok (attempt_get (s, a))]
  simp only [hbounds]
  rw [attempt_bind_ok (attempt_onMesh _ s a), hsampled, attempt_bind_ok (attempt_onMesh _ s₁ a),
    hrestored]

/-- A bake of a range that is turned around fails and does nothing to the mesh. Any other bake
records the frames of its range, then asks the mesh to go back and ends in the state where this
leaves it. If either fails, the animation is as before, and the first of the two errors is the one
that is reported. If both go well, the animation has one record for each frame, all with the same
number of vertices, and is otherwise as before. -/
theorem bakeVertices_cases (mesh : MeshEvaluator σ) (s : σ) (a : VertexAnimation) :
    (a.stop < a.start ∧ (attempt (bakeVertices mesh)).run (s, a) =
      (.error (.invalidFrameRange (Float.ofInt a.start) (Float.ofInt a.stop)), (s, a))) ∨
    a.start ≤ a.stop ∧ ∃ sampled s₁ restored s',
      Sampling mesh none (Int.range a.start (a.stop + 1)) s sampled s₁ ∧
      (attempt (mesh.setFrame (mesh.frame s))).run s₁ = (restored, s') ∧
      ((∃ e, sampled = .error e ∧
          (attempt (bakeVertices mesh)).run (s, a) = (.error e, (s', a))) ∨
        (∃ records e, sampled = .ok records ∧ restored = .error e ∧
          (attempt (bakeVertices mesh)).run (s, a) = (.error e, (s', a))) ∨
        ∃ records, sampled = .ok records ∧ restored = .ok () ∧
          (attempt (bakeVertices mesh)).run (s, a) = (.ok (), (s', { a with frames := records })) ∧
          records.map VertexFrame.frame = Int.range a.start (a.stop + 1) ∧
          ∃ n, ∀ f ∈ records, f.vertices.length = n) := by
  rcases lt_or_ge a.stop a.start with hlt | hle
  · exact .inl ⟨hlt, attempt_bakeVertices_of_lt s hlt⟩
  · let range : FrameRange := ⟨a.start, a.stop, hle⟩
    have hbounds : FrameRange.ofBounds a.start a.stop = .ok range := dif_pos hle
    obtain ⟨sampled, s₁, hsampled, hsampling⟩ := exists_sampling mesh none range.size range.start s
    rcases hrestored : (attempt (mesh.setFrame (mesh.frame s))).run s₁ with ⟨restored, s'⟩
    have hbake := attempt_bakeVertices hbounds hsampled hrestored
    rw [range.framesFrom_size] at hsampling
    refine .inr ⟨hle, sampled, s₁, restored, s', hsampling, hrestored, ?_⟩
    cases sampled with
    | error e => exact .inl ⟨e, rfl, hbake⟩
    | ok records =>
      cases restored with
      | error e => exact .inr (.inl ⟨records, e, rfl, rfl, hbake⟩)
      | ok =>
        obtain ⟨n, -, hcount⟩ := hsampling.exists_length
        exact .inr (.inr ⟨records, rfl, rfl, hbake, hsampling.map_frame, n, hcount⟩)

end SceneExport.Bake
