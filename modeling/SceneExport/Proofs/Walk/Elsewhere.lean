import Mathlib
import SceneExport.Proofs.Walk.Relation

/-!
# Exports to two paths

Of the path that it exports to, a walk reads the directory only, and only as the place that it
names. So two paths to one directory make no difference to what is written. What an export does not
gather it leaves as it was. Where a project was exported to before makes no difference either.
-/
namespace SceneExport.Export

namespace Walk

variable {p : Project} {start : Context} {path' : String} {w v : Walk}

/-- A state on the way of an export from `start`, and the same state of an export to another
path. -/
structure Elsewhere (start : Context) (path' : String) (w v : Walk) : Prop where
  config : w.context.config = start.config
  version : w.context.version = start.version
  path : w.context.path = start.path
  html : w.context.html = start.html
  other : v = { w with context := { w.context with path := path' } }

lemma Elsewhere.addEntry (h : Elsewhere start path' w v) (f : Manifest → Manifest) :
    Elsewhere start path' { w with manifest := f w.manifest }
      { v with manifest := f v.manifest } := by
  obtain ⟨hconfig, hversion, hpath, hhtml, rfl⟩ := h
  exact ⟨hconfig, hversion, hpath, hhtml, rfl⟩

lemma follows_elsewhere : Follows (Elsewhere start path') where
  exported w v h := by rw [h.other]
  sections w v h := by rw [h.other]
  messages w v h := by rw [h.other]
  gathered w v h exported sections messages := by
    obtain ⟨hconfig, hversion, hpath, hhtml, rfl⟩ := h
    exact ⟨hconfig, hversion, hpath, hhtml, rfl⟩
  manifest _ _ h f _ := h.addEntry f

lemma respects_changeManifest_elsewhere (f : Manifest → Manifest) :
    Respects (Elsewhere start path') (changeManifest f) :=
  fun _ _ h => ⟨rfl, h.addEntry f⟩

lemma respects_register_elsewhere (name : String) (content : Bytes) :
    Respects (Elsewhere start path')
    (changeContext fun c => { c with media := (c.media.register name content).2 }) := by
  intro w v h
  obtain ⟨hconfig, hversion, hpath, hhtml, rfl⟩ := h
  exact ⟨rfl, hconfig, hversion, hpath, hhtml, rfl⟩

/-- Two paths to one directory give every resource one name. -/
lemma resourceFromExport_congr {path path' : String}
    (h : Path.Place.ofText (Path.directory path') = Path.Place.ofText (Path.directory path))
    (resource source : String) :
    Path.resourceFromExport resource source path' =
      Path.resourceFromExport resource source path := by
  unfold Path.resourceFromExport Path.relativeTo
  rw [h]

lemma respects_mediaPath_elsewhere
    (hplace : Path.Place.ofText (Path.directory path') =
      Path.Place.ofText (Path.directory start.path))
    (filepath : String) (packed : Option Bytes) (usual : String) :
    Respects (Elsewhere start path') (mediaPath p filepath packed usual) := by
  unfold mediaPath
  cases packed with
  | some content =>
    refine respects_get_bind (fun w v h => ?_) fun w => ?_
    · rw [h.other]
    · exact respects_bind (respects_register_elsewhere _ _) fun _ => respects_pure _
  | none =>
    refine respects_get_bind (fun w v h => ?_) fun w => ?_
    · obtain ⟨hconfig, hversion, hpath, hhtml, rfl⟩ := h
      dsimp only
      rw [hpath, resourceFromExport_congr hplace]
    · dsimp only
      split
      · exact respects_throw _
      · split
        · exact respects_pure _
        · exact respects_throw _

lemma respects_run_elsewhere
    (hplace : Path.Place.ofText (Path.directory path') =
      Path.Place.ofText (Path.directory start.path))
    (scenes : List Project.Scene) : Respects (Elsewhere start path') (run p scenes) := by
  refine follows_elsewhere.respects_run (fun image _ => ?_) (fun sound _ => ?_) scenes
  · exact follows_elsewhere.stepwise.image recovers_respects (respects_mediaPath_elsewhere hplace)
      (fun _ => respects_changeManifest_elsewhere _) image
  · exact follows_elsewhere.stepwise.sound (respects_mediaPath_elsewhere hplace)
      (fun _ => respects_changeManifest_elsewhere _) sound

end Walk

variable {p : Project} {path path' : String} {html : Bool} {c c' : Context} {out : Output}

/-- The walk of an export, and of an export to another path in its directory. -/
lemma elsewhere_run
    (hplace : Path.Place.ofText (Path.directory path') = Path.Place.ofText (Path.directory path))
    {scenes : List Project.Scene} {m m' : Manifest}
    (h : Runs (Walk.run p scenes) ⟨c.begin path html, m⟩ () ⟨c', m'⟩) :
    Runs (Walk.run p scenes) ⟨c.begin path' html, m⟩ () ⟨{ c' with path := path' }, m'⟩ := by
  have hstart : Walk.Elsewhere (c.begin path html) path' ⟨c.begin path html, m⟩
      ⟨c.begin path' html, m⟩ :=
    ⟨rfl, rfl, rfl, rfl, rfl⟩
  have hplace' : Path.Place.ofText (Path.directory path') =
      Path.Place.ofText (Path.directory (c.begin path html).path) := hplace
  obtain ⟨hresult, hend⟩ := Walk.respects_run_elsewhere hplace' scenes hstart
  rw [h] at hresult hend
  exact Prod.ext hresult hend.other

section Preserves

variable {β γ : Type} {P : Context → Prop}

/-- However the step ends, the property of the context holds as before. -/
def Preserves (P : Context → Prop) (m : ContextM β) : Prop :=
  ∀ ⦃c⦄, P c → P (after m c).2

lemma preserves_pure (b : β) : Preserves P (pure b) := fun _ h => h

lemma preserves_get : Preserves P get := fun _ h => h

lemma Preserves.bind {m : ContextM β} {f : β → ContextM γ} (hm : Preserves P m)
    (hf : ∀ b, Preserves P (f b)) : Preserves P (m >>= f) := by
  intro c h
  have hnext := hm h
  rw [after_bind]
  rcases hrun : after m c with ⟨_ | b, c'⟩
  · rwa [hrun] at hnext
  · rw [hrun] at hnext
    exact hf b hnext

lemma preserves_liftExcept (result : Except Error β) : Preserves P (liftExcept result) := by
  cases result with
  | error e => exact fun _ h => h
  | ok b => exact preserves_pure b

/-- A walk is run on the context, whatever the manifest is. -/
lemma preserves_runWalk {walk : WalkM Unit} {m : Manifest}
    (hwalk : ∀ ⦃c⦄, P c → P (after walk ⟨c, m⟩).2.context) : Preserves P (runWalk walk m) := by
  intro c h
  have hstep : after (runWalk walk m) c =
      after (liftExcept ((after walk ⟨c, m⟩).1.map fun _ => (after walk ⟨c, m⟩).2.manifest))
        (after walk ⟨c, m⟩).2.context := rfl
  rw [hstep]
  exact preserves_liftExcept _ (hwalk h)

end Preserves

/-- However an export ends, it has changed neither the options nor the version, and the context is
at the path that the export was begun with. -/
lemma after_exportScene_keeps (p : Project) (path : String) (html : Bool) (c : Context) :
    let c' := (after (exportScene p path html) c).2
    c'.config = c.config ∧ c'.version = c.version ∧ c'.path = path ∧ c'.html = html := by
  let P : Context → Prop := fun c' =>
    c'.config = c.config ∧ c'.version = c.version ∧ c'.path = path ∧ c'.html = html
  have hwalk (scenes : List Project.Scene) (m : Manifest) :
      Preserves P (runWalk (Walk.run p scenes) m) := by
    refine preserves_runWalk fun c' h => ?_
    have hstart : Walk.Elsewhere (c.begin path html) path ⟨c', m⟩ ⟨c', m⟩ := by
      obtain ⟨hconfig, hversion, rfl, hhtml⟩ := h
      exact ⟨hconfig, hversion, rfl, hhtml, rfl⟩
    obtain ⟨-, hend⟩ := Walk.respects_run_elsewhere rfl scenes hstart
    exact ⟨hend.config, hend.version, hend.path, hend.html⟩
  have hbegin : P (c.begin path html) := ⟨rfl, rfl, rfl, rfl⟩
  have hfirst (rest : ContextM Output) (hrest : Preserves P rest) :
      P (after (modify (·.begin path html) >>= fun _ => rest) c).2 := hrest hbegin
  refine hfirst _ ?_
  dsimp only
  split
  · exact fun _ h => h
  · exact (preserves_liftExcept _).bind fun _ => preserves_get.bind fun _ =>
      (hwalk _ _).bind fun _ =>
      preserves_get.bind fun _ => (preserves_liftExcept _).bind fun _ => preserves_pure _

/-- An export that ends well keeps the options and the version, and it is to the path that it was
begun with. -/
theorem exportScene_keeps (h : Runs (exportScene p path html) c out c') :
    c'.config = c.config ∧ c'.version = c.version ∧ c'.path = path ∧ c'.html = html := by
  have hkeeps := after_exportScene_keeps p path html c
  rwa [h] at hkeeps

/-- An export to another path with the same directory and the same name of its binary file. -/
theorem exportScene_elsewhere (h : Runs (exportScene p path html) c out c')
    (hplace : Path.Place.ofText (Path.directory path') = Path.Place.ofText (Path.directory path))
    (hname : binaryName path' = binaryName path) :
    Runs (exportScene p path' html) c out { c' with path := path' } := by
  obtain ⟨hscenes, source, m, hsource, hwalk, hstrict, rfl⟩ := runs_exportScene.mp h
  refine runs_exportScene.mpr ⟨hscenes, source, m, ?_, elsewhere_run hplace hwalk, hstrict, ?_⟩
  · rw [← hsource]
    unfold Path.sourceFromExport Path.relativeTo
    rw [hplace]
  · unfold Output.ofWalk
    rw [hname]

end SceneExport.Export

namespace SceneExport

/-- The project with another memory of where it was exported to. -/
def Project.remembering (p : Project) (saved : Option String) : Project :=
  { p with exportPathJson := saved }

namespace Export

section Remembering

variable (p : Project) (saved : Option String)

lemma uuid_remembering {β : Type} [Datablock β] :
    ((p.remembering saved).uuid : β → String) = p.uuid := by
  funext b
  rw [Project.uuid, Project.uuid, Project.remembering]

lemma climb_remembering (marks : List String) (chain : List Project.Object) (name : String) :
    climb (p.remembering saved) marks chain name = climb p marks chain name := by
  have hobject : (p.remembering saved).object? = p.object? := (rfl)
  fun_induction climb p marks chain name with
  | case1 marks chain name hfound =>
    rw [climb]
    split <;> simp_all
  | case2 marks chain name o hfound hmarked =>
    rw [climb]
    split <;> simp_all [uuid_remembering]
  | case3 marks chain name o hfound hmarked hparent =>
    rw [climb]
    split <;> simp_all [uuid_remembering]
  | case4 marks chain name o hfound hmarked parent hparent ih =>
    rw [climb]
    split <;> simp_all [uuid_remembering]

namespace Walk

lemma mediaPath_remembering : mediaPath (p.remembering saved) = mediaPath p := by
  have hfilepath : (p.remembering saved).filepath = p.filepath := rfl
  funext filepath packed usual
  rw [mediaPath, mediaPath, hfilepath]

lemma writeImage_remembering : writeImage (p.remembering saved) = writeImage p := by
  funext image
  rw [writeImage, writeImage, uuid_remembering, mediaPath_remembering]

lemma writeTexture_remembering : writeTexture (p.remembering saved) = writeTexture p := by
  have himage : (p.remembering saved).image? = p.image? := (rfl)
  funext texture
  rw [writeTexture, writeTexture, uuid_remembering, himage, writeImage_remembering]

lemma writeMaterial_remembering : writeMaterial (p.remembering saved) = writeMaterial p := by
  have halpha : hasAlpha (p.remembering saved) = hasAlpha p := (rfl)
  have htexture : (p.remembering saved).texture? = p.texture? := (rfl)
  funext material
  rw [writeMaterial, writeMaterial, uuid_remembering, halpha, htexture, writeTexture_remembering]

lemma writeMesh_remembering : writeMesh (p.remembering saved) = writeMesh p := by
  have hmaterial : (p.remembering saved).material? = p.material? := (rfl)
  funext mesh owner
  rw [writeMesh, writeMesh, uuid_remembering, hmaterial, writeMaterial_remembering]

lemma writeSpeaker_remembering : writeSpeaker (p.remembering saved) = writeSpeaker p := by
  have hsound : (p.remembering saved).sound? = p.sound? := (rfl)
  have hwrite : writeSound (p.remembering saved) = writeSound p := by
    funext sound
    rw [writeSound, writeSound, uuid_remembering, mediaPath_remembering]
  funext speaker
  rw [writeSpeaker, writeSpeaker, uuid_remembering, hsound, hwrite]

lemma writeAction_remembering : writeAction (p.remembering saved) = writeAction p := by
  funext action
  rw [writeAction, writeAction, uuid_remembering]

lemma writeObjectBody_remembering : writeObjectBody (p.remembering saved) = writeObjectBody p := by
  have hmesh : (p.remembering saved).mesh? = p.mesh? := (rfl)
  have harmature : (p.remembering saved).armature? = p.armature? := (rfl)
  have hspeaker : (p.remembering saved).speaker? = p.speaker? := (rfl)
  have hobject : (p.remembering saved).object? = p.object? := (rfl)
  have hactions : (p.remembering saved).actions = p.actions := rfl
  have hwrite : writeArmature (p.remembering saved) = writeArmature p := by
    funext armature
    rw [writeArmature, writeArmature, uuid_remembering]
  have hdata : writeData (p.remembering saved) = writeData p := by
    funext o
    rw [writeData, writeData, hmesh, harmature, hspeaker, hwrite, writeMesh_remembering,
      writeSpeaker_remembering]
  have hplayed : writePlayed (p.remembering saved) = writePlayed p := by
    funext o name
    rw [writePlayed, writePlayed, hactions, writeAction_remembering]
  funext o
  rw [writeObjectBody, writeObjectBody, hdata, hplayed, uuid_remembering, hobject]

lemma writeScene_remembering : writeScene (p.remembering saved) = writeScene p := by
  have hobject : (p.remembering saved).object? = p.object? := (rfl)
  have hclimb : climb (p.remembering saved) = climb p := by
    funext marks chain name
    exact climb_remembering p saved marks chain name
  have hwrite : writeObject (p.remembering saved) = writeObject p := by
    funext o
    rw [writeObject, writeObject, hclimb, uuid_remembering, writeObjectBody_remembering]
  have hnamed : writeSceneObject (p.remembering saved) = writeSceneObject p := by
    funext kind scene name
    rw [writeSceneObject, writeSceneObject, hobject, hwrite]
  funext scene
  rw [writeScene, writeScene, uuid_remembering, hnamed]

lemma run_remembering : run (p.remembering saved) = run p := by
  have hactions : (p.remembering saved).actions = p.actions := rfl
  funext scenes
  rw [run, run, writeScene_remembering, writeAction_remembering, hactions]

end Walk

/-- An export does not depend on where the project was exported to before. -/
theorem exportScene_remembering : exportScene (p.remembering saved) = exportScene p := by
  have hscenes : (p.remembering saved).scenes = p.scenes := rfl
  have hfilepath : (p.remembering saved).filepath = p.filepath := rfl
  funext path html
  rw [exportScene, exportScene, hscenes, hfilepath, Walk.run_remembering]

end Remembering

end Export

end SceneExport
