import Mathlib
import SceneExport.Export.Scene

/-!
# Steps that end well

A step of an export reads and changes the state and may fail. Most statements are about steps that
end well, so a step is taken apart here into the steps it is made of: a sequence ends well if and
only if its parts do, one after the other. Failures are followed only where a step recovers from
them.
-/
namespace SceneExport.Export

open Manifest (Ref)

/-- The outcome of a step and the state it leaves. -/
def after {σ β : Type} (m : ExceptT Error (StateM σ) β) (w : σ) : Except Error β × σ :=
  m.run.run w

/-- From the state `w` the step ends well, with a result and in the state `w'`. -/
def Runs {σ β : Type} (m : ExceptT Error (StateM σ) β) (w : σ) (b : β) (w' : σ) : Prop :=
  after m w = (.ok b, w')

/-- From the state `w` the step fails, leaving the state `w'`. -/
def Fails {σ β : Type} (m : ExceptT Error (StateM σ) β) (w : σ) (e : Error) (w' : σ) : Prop :=
  after m w = (.error e, w')

lemma exists_runs {σ β : Type} {m : ExceptT Error (StateM σ) β} {w : σ}
    (h : (after m w).1.isOk = true) : ∃ b w', Runs m w b w' := by
  rcases hm : after m w with ⟨_ | b, w'⟩
  · simp [hm, Except.isOk, Except.toBool] at h
  · exact ⟨b, w', hm⟩

section Steps

variable {σ β γ : Type} {w w' : σ}

lemma after_bind (m : ExceptT Error (StateM σ) β) (f : β → ExceptT Error (StateM σ) γ) (w : σ) :
    after (m >>= f) w = match after m w with
      | (.ok b, v) => after (f b) v
      | (.error e, v) => (.error e, v) := by
  change (ExceptT.run (m >>= f)).run w = _
  simp only [ExceptT.run_bind, StateT.run_bind]
  unfold after
  rcases h : m.run.run w with ⟨_ | b, v⟩ <;> rfl

lemma after_tryCatch (m : ExceptT Error (StateM σ) β) (h : Error → ExceptT Error (StateM σ) β)
    (w : σ) :
    after (tryCatch m h) w = match after m w with
      | (.ok b, v) => (.ok b, v)
      | (.error e, v) => after (h e) v := by
  change (ExceptT.run (tryCatch m h)).run w = _
  simp only [ExceptT.run_tryCatch, StateT.run_bind]
  unfold after
  rcases h : m.run.run w with ⟨_ | b, v⟩ <;> rfl

@[simp] theorem runs_bind {m : ExceptT Error (StateM σ) β} {f : β → ExceptT Error (StateM σ) γ}
    {c : γ} : Runs (m >>= f) w c w' ↔ ∃ b v, Runs m w b v ∧ Runs (f b) v c w' := by
  unfold Runs
  rw [after_bind]
  rcases h : after m w with ⟨_ | b, v⟩ <;> simp

@[simp] theorem runs_pure {b c : β} :
    Runs (pure b : ExceptT Error (StateM σ) β) w c w' ↔ c = b ∧ w' = w := by
  change ((.ok b, w) : Except Error β × σ) = (.ok c, w') ↔ _
  simp [eq_comm]

@[simp] theorem not_runs_throw {e : Error} {c : β} :
    ¬ Runs (throw e : ExceptT Error (StateM σ) β) w c w' := by
  change ¬ ((.error e, w) : Except Error β × σ) = (.ok c, w')
  simp

@[simp] theorem runs_map {m : ExceptT Error (StateM σ) β} {f : β → γ} {c : γ} :
    Runs (f <$> m) w c w' ↔ ∃ b, Runs m w b w' ∧ c = f b := by
  rw [map_eq_pure_bind, runs_bind]
  simp

@[simp] theorem runs_get {v : σ} :
    Runs (get : ExceptT Error (StateM σ) σ) w v w' ↔ v = w ∧ w' = w := by
  change ((.ok w, w) : Except Error σ × σ) = (.ok v, w') ↔ _
  simp [eq_comm]

@[simp] theorem runs_set {v : σ} {u : PUnit} :
    Runs (set v : ExceptT Error (StateM σ) PUnit) w u w' ↔ w' = v := by
  change ((.ok ⟨⟩, v) : Except Error PUnit × σ) = (.ok u, w') ↔ _
  simp [eq_comm]

@[simp] theorem runs_modify {f : σ → σ} {u : PUnit} :
    Runs (modify f : ExceptT Error (StateM σ) PUnit) w u w' ↔ w' = f w := by
  change ((.ok ⟨⟩, f w) : Except Error PUnit × σ) = (.ok u, w') ↔ _
  simp [eq_comm]

lemma runs_tryCatch {m : ExceptT Error (StateM σ) β} {h : Error → ExceptT Error (StateM σ) β}
    {b : β} :
    Runs (tryCatch m h) w b w' ↔ Runs m w b w' ∨ ∃ e v, Fails m w e v ∧ Runs (h e) v b w' := by
  unfold Runs Fails
  rw [after_tryCatch]
  rcases h : after m w with ⟨_ | b, v⟩ <;> simp

@[simp] theorem runs_forM_nil {f : β → ExceptT Error (StateM σ) PUnit} {u : PUnit} :
    Runs ([].forM f) w u w' ↔ w' = w := by
  simp [List.forM]

@[simp] theorem runs_forM_cons {f : β → ExceptT Error (StateM σ) PUnit} {x : β} {xs : List β}
    {u : PUnit} :
    Runs ((x :: xs).forM f) w u w' ↔ ∃ v, Runs (f x) w ⟨⟩ v ∧ Runs (xs.forM f) v ⟨⟩ w' := by
  change Runs (f x >>= fun _ => xs.forM f) w u w' ↔ _
  rw [runs_bind]
  exact ⟨fun ⟨_, v, h⟩ => ⟨v, h⟩, fun ⟨v, h⟩ => ⟨_, v, h⟩⟩

@[simp] theorem runs_forM_append {f : β → ExceptT Error (StateM σ) PUnit} {xs ys : List β}
    {u : PUnit} :
    Runs ((xs ++ ys).forM f) w u w' ↔ ∃ v, Runs (xs.forM f) w ⟨⟩ v ∧ Runs (ys.forM f) v ⟨⟩ w' := by
  induction xs generalizing w with
  | nil => simp
  | cons x xs ih =>
    simp only [List.cons_append, runs_forM_cons, ih]
    grind

end Steps

section Failures

variable {σ β γ : Type} {w w' : σ} {e : Error}

lemma fails_bind {m : ExceptT Error (StateM σ) β} {f : β → ExceptT Error (StateM σ) γ} :
    Fails (m >>= f) w e w' ↔ Fails m w e w' ∨ ∃ b v, Runs m w b v ∧ Fails (f b) v e w' := by
  unfold Fails Runs
  rw [after_bind]
  rcases h : after m w with ⟨_ | b, v⟩ <;> simp

lemma fails_tryCatch {m : ExceptT Error (StateM σ) β} {h : Error → ExceptT Error (StateM σ) β} :
    Fails (tryCatch m h) w e w' ↔ ∃ e' v, Fails m w e' v ∧ Fails (h e') v e w' := by
  unfold Fails
  rw [after_tryCatch]
  rcases h : after m w with ⟨_ | b, v⟩ <;> simp

@[simp] theorem not_fails_pure {b : β} : ¬ Fails (pure b : ExceptT Error (StateM σ) β) w e w' := by
  change ¬ ((.ok b, w) : Except Error β × σ) = (.error e, w')
  simp

@[simp] theorem fails_throw {e' : Error} :
    Fails (throw e' : ExceptT Error (StateM σ) β) w e w' ↔ e = e' ∧ w' = w := by
  change ((.error e', w) : Except Error β × σ) = (.error e, w') ↔ _
  simp [eq_comm]

@[simp] theorem not_fails_get : ¬ Fails (get : ExceptT Error (StateM σ) σ) w e w' := by
  change ¬ ((.ok w, w) : Except Error σ × σ) = (.error e, w')
  simp

@[simp] theorem not_fails_modify {f : σ → σ} :
    ¬ Fails (modify f : ExceptT Error (StateM σ) PUnit) w e w' := by
  change ¬ ((.ok ⟨⟩, f w) : Except Error PUnit × σ) = (.error e, w')
  simp

@[simp] theorem fails_map {m : ExceptT Error (StateM σ) β} {f : β → γ} :
    Fails (f <$> m) w e w' ↔ Fails m w e w' := by
  rw [map_eq_pure_bind, fails_bind]
  simp

end Failures

section Context

variable {β : Type} {c c' : Context}

@[simp] theorem runs_liftExcept {r : Except Error β} {b : β} :
    Runs (liftExcept r : ContextM β) c b c' ↔ r = .ok b ∧ c' = c := by
  cases r with
  | error e => simp [liftExcept]
  | ok a => simp [liftExcept, eq_comm]

/-- A walk is run from the context and an own manifest. -/
theorem runs_runWalk {walk : WalkM Unit} {m m' : Manifest} :
    Runs (runWalk walk m) c m' c' ↔ Runs walk ⟨c, m⟩ () ⟨c', m'⟩ := by
  have hget : Runs (runWalk walk m) c m' c' ↔
      Runs (match after walk ⟨c, m⟩ with
        | (result, w) => do
          set w.context
          liftExcept (result.map fun _ => w.manifest) : ContextM Manifest) c m' c' := by
    unfold runWalk
    rw [runs_bind]
    simp only [runs_get]
    exact ⟨fun ⟨_, _, ⟨rfl, rfl⟩, h⟩ => h, fun h => ⟨_, _, ⟨rfl, rfl⟩, h⟩⟩
  change _ ↔ after walk ⟨c, m⟩ = (.ok (), ⟨c', m'⟩)
  rw [hget]
  rcases after walk ⟨c, m⟩ with ⟨_ | u, v⟩
  · simp [Except.map]
  · have hv : v = ⟨c', m'⟩ ↔ v.manifest = m' ∧ v.context = c' := by
      rw [Walk.mk.injEq v.context v.manifest c' m', and_comm]
    simp [Except.map, hv, eq_comm]

/-- What an export hands out after a walk. -/
def Output.ofWalk (path : String) (c : Context) (m : Manifest) : Output where
  manifest := { m with
    binaries := [c.sections.table (some (binaryName path))]
    warnings := c.messages.warnings
    errors := c.messages.errors }
  binary := if c.sections.isEmpty then none else some (c.sections.blob c.version)

/-- An export that ends well is a walk that ends well, from a context and a manifest with nothing in
them. -/
theorem runs_exportScene {p : Project} {path : String} {html : Bool} {out : Output} :
    Runs (exportScene p path html) c out c' ↔
      (p.scenes.filter fun s => !s.doNotExport) ≠ [] ∧
      ∃ source m, Path.sourceFromExport p.filepath path = .ok source ∧
        Runs (Walk.run p (p.scenes.filter fun s => !s.doNotExport))
          ⟨c.begin path html, .empty c.config.formatVersion source⟩ () ⟨c', m⟩ ∧
        c'.checkStrict = .ok () ∧ out = .ofWalk path c' m := by
  unfold exportScene
  simp only [runs_bind, runs_modify]
  constructor
  · rintro ⟨_, _, rfl, h⟩
    split at h
    · simp at h
    · next hscenes =>
      simp only [runs_bind, runs_liftExcept, runs_get, runs_pure, runs_runWalk] at h
      obtain ⟨source, _, ⟨hsource, rfl⟩, _, _, ⟨rfl, rfl⟩, m, _, hwalk, _, _, ⟨rfl, rfl⟩, _, _,
          ⟨hstrict, rfl⟩,
        rfl, rfl⟩ := h
      refine ⟨by simpa using hscenes, source, m, ?_, hwalk, hstrict, rfl⟩
      cases hpath : Path.sourceFromExport p.filepath path with
      | error e =>
        rw [hpath] at hsource
        cases hsource
      | ok text =>
        rw [hpath] at hsource
        cases hsource
        rfl
  · rintro ⟨hscenes, source, m, hsource, hwalk, hstrict, rfl⟩
    refine ⟨(), c.begin path html, rfl, ?_⟩
    rw [if_neg (by simpa using hscenes)]
    simp only [runs_bind, runs_liftExcept, runs_get, runs_pure, runs_runWalk]
    refine ⟨source, _, ⟨?_, rfl⟩, _, _, ⟨rfl, rfl⟩, m, c', hwalk, _, _, ⟨rfl, rfl⟩, (), c',
      ⟨hstrict, rfl⟩, rfl, rfl⟩
    rw [hsource]
    rfl

/-- The manifest names the binary file if and only if there is one. -/
lemma binaryFile?_exportScene {p : Project} {path : String} {html : Bool} {out : Output}
    (h : Runs (exportScene p path html) c out c') :
    out.manifest.binaryFile? = out.binary.map fun _ => binaryName path := by
  obtain ⟨-, _, _, -, -, -, rfl⟩ := runs_exportScene.mp h
  simp only [Output.ofWalk, Manifest.binaryFile?, Sections.table, List.head?_cons, Option.bind_some]
  split <;> rfl

end Context

namespace Walk

/-- The state with one more mark. -/
def marked (w : Walk) (uuid : String) : Walk :=
  { w with context := { w.context with exported := uuid :: w.context.exported } }

variable {β : Type} {w w' : Walk} {e : Error}

@[simp] theorem runs_changeContext {f : Context → Context} {u : Unit} :
    Runs (changeContext f) w u w' ↔ w' = { w with context := f w.context } :=
  runs_modify

@[simp] theorem runs_changeManifest {f : Manifest → Manifest} {u : Unit} :
    Runs (changeManifest f) w u w' ↔ w' = { w with manifest := f w.manifest } :=
  runs_modify

@[simp] theorem not_fails_changeContext {f : Context → Context} :
    ¬ Fails (changeContext f) w e w' :=
  not_fails_modify

@[simp] theorem not_fails_changeManifest {f : Manifest → Manifest} :
    ¬ Fails (changeManifest f) w e w' :=
  not_fails_modify

@[simp] theorem runs_need {kind owner name : String} {o : Option β} {b : β} :
    Runs (need kind owner name o) w b w' ↔ o = some b ∧ w' = w := by
  cases o with
  | none => simp [need]
  | some c => simp [need, eq_comm]

@[simp] theorem runs_push {f : Sections → β × Sections} {b : β} :
    Runs (push f) w b w' ↔ b = (f w.context.sections).1 ∧
      w' = { w with context := { w.context with sections := (f w.context.sections).2 } } := by
  simp only [push, runs_bind, runs_get, runs_changeContext, runs_pure]
  grind

lemma mark_eq (c : Context) (uuid : String) : c.mark uuid =
    if uuid ∈ c.exported then (false, c)
    else (true, { c with exported := uuid :: c.exported }) := by
  simp [Context.mark, Context.isExported]

/-- A datablock that is marked is passed over; else it is marked before it is written. -/
theorem runs_once {uuid : String} {write : WalkM Unit} {r : Ref} :
    Runs (once uuid write) w r w' ↔ r = ⟨uuid⟩ ∧
      ((uuid ∈ w.context.exported ∧ w' = w) ∨
        (uuid ∉ w.context.exported ∧ Runs write (w.marked uuid) () w')) := by
  by_cases h : uuid ∈ w.context.exported
  · simp [once, mark_eq, h]
  · have hunit : (∃ u, Runs write (w.marked uuid) u w') ↔ Runs write (w.marked uuid) () w' :=
      ⟨fun ⟨_, hw⟩ => hw, fun hw => ⟨_, hw⟩⟩
    rw [← hunit]
    simp [once, mark_eq, h, marked, and_comm]

/-- Only the writing can fail, and then the datablock stays marked. -/
lemma fails_once {uuid : String} {write : WalkM Unit} :
    Fails (once uuid write) w e w' ↔
      uuid ∉ w.context.exported ∧ Fails write (w.marked uuid) e w' := by
  by_cases h : uuid ∈ w.context.exported
  · simp [once, mark_eq, h, fails_bind]
  · simp [once, mark_eq, h, fails_bind, marked]

/-- A step that ends well keeps the property. -/
def Keeps (I : Walk → Prop) (m : WalkM β) : Prop :=
  ∀ ⦃w b w'⦄, Runs m w b w' → I w → I w'

section Keeps

variable {γ : Type} {I : Walk → Prop}

lemma keeps_pure (b : β) : Keeps I (pure b) := by
  intro w _ w' h hw
  obtain ⟨-, rfl⟩ := runs_pure.mp h
  exact hw

lemma keeps_bind {m : WalkM β} {f : β → WalkM γ} (hm : Keeps I m) (hf : ∀ b, Keeps I (f b)) :
    Keeps I (m >>= f) := by
  intro w c w' h hw
  obtain ⟨b, v, hv, h⟩ := runs_bind.mp h
  exact hf b h (hm hv hw)

/-- A property that marks do not touch. -/
lemma keeps_once {uuid : String} {write : WalkM Unit} (hmark : ∀ w, I w → I (w.marked uuid))
    (h : Keeps I write) : Keeps I (once uuid write) := by
  intro w r w' hrun hw
  obtain ⟨-, ⟨-, rfl⟩ | ⟨-, hwrite⟩⟩ := runs_once.mp hrun
  · exact hw
  · exact h hwrite (hmark w hw)

end Keeps

/-- The path of a media file that is not packed, seen from an export to `path`. -/
def resource (p : Project) (path filepath : String) : Except Path.Error String :=
  if p.filepath.isEmpty && filepath.startsWith "//" then .error (.neverSaved filepath)
  else Path.resourceFromExport filepath p.filepath path

/-- The ways in which a media file gets its path. -/
inductive Naming (p : Project) (filepath : String) (w : Walk) :
    Option Bytes → Except Error String × Walk → Prop
  | packed (content : Bytes) (extension : String) : Naming p filepath w (some content)
    (.ok (Identity.mediaDigest content w.context.html ++ extension),
      { w with context := { w.context with media := (w.context.media.register
        (Identity.mediaDigest content w.context.html ++ extension) content).2 } })
  | found {path : String} (h : resource p w.context.path filepath = .ok path) :
      Naming p filepath w none (.ok path, w)
  | refused {reason : Path.Error} (h : resource p w.context.path filepath = .error reason) :
    Naming p filepath w none (.error (.path reason), w)

/-- A packed file is gathered under a name that is made from its content. With any other file
nothing changes. -/
lemma naming_mediaPath (p : Project) (filepath : String) (packed : Option Bytes) (usual : String)
    (w : Walk) : Naming p filepath w packed (after (mediaPath p filepath packed usual) w) := by
  cases packed with
  | some content => exact .packed content _
  | none =>
    by_cases hsaved : (p.filepath.isEmpty && filepath.startsWith "//") = true
    · have hrun : Fails (mediaPath p filepath none usual) w (.path (.neverSaved filepath)) w := by
        simp [mediaPath, fails_bind, hsaved]
      rw [hrun]
      exact .refused (if_pos hsaved)
    · have hresource : resource p w.context.path filepath =
          Path.resourceFromExport filepath p.filepath w.context.path :=
        if_neg hsaved
      cases hpath : Path.resourceFromExport filepath p.filepath w.context.path with
      | ok path =>
        have hrun : Runs (mediaPath p filepath none usual) w path w := by
          simp [mediaPath, hsaved, hpath]
        rw [hrun]
        exact .found (hresource.trans hpath)
      | error reason =>
        have hrun : Fails (mediaPath p filepath none usual) w (.path reason) w := by
          simp [mediaPath, fails_bind, hsaved, hpath]
        rw [hrun]
        exact .refused (hresource.trans hpath)

lemma naming_of_runs {p : Project} {filepath usual r : String} {packed : Option Bytes}
    (h : Runs (mediaPath p filepath packed usual) w r w') :
    Naming p filepath w packed (.ok r, w') :=
  h ▸ naming_mediaPath p filepath packed usual w

lemma naming_of_fails {p : Project} {filepath usual : String} {packed : Option Bytes}
    (h : Fails (mediaPath p filepath packed usual) w e w') :
    Naming p filepath w packed (.error e, w') :=
  h ▸ naming_mediaPath p filepath packed usual w

end Walk

end SceneExport.Export
