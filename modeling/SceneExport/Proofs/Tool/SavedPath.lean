import Mathlib
import SceneExport.Proofs.Files.Shelf
import SceneExport.Proofs.Project.Roundtrip
import SceneExport.Tool.Command

/-!
# Exports that are remembered

What the command leaves behind that exports a project and saves the path in it: first the files of
the export, then the project itself, with the path, in place of the one it was read from. A saved
project is read back.
-/
namespace SceneExport

lemma Bytes.toText?_ofText (text : String) : toText? (ofText text) = some text := by
  unfold toText? ofText String.fromUTF8?
  rw [dif_pos (by exact text.isValidUTF8)]
  rfl

namespace Shelf

variable {s : Shelf} {path text : String}

/-- The text in a file. -/
def text? (s : Shelf) (path : String) : Option String :=
  (s.find? path).bind Bytes.toText?

/-- The project in a file. -/
def project? (s : Shelf) (path : String) : Option Project :=
  (s.text? path).bind fun text => (Project.codec.ofText text).toOption

lemma run_readText (h : s.text? path = some text) :
    (Files.readText path : StateM Shelf (Except String String)).run s = (.ok text, s) := by
  obtain ⟨bytes, hfind, htext⟩ := Option.bind_eq_some_iff.1 h
  have hread : (Files.read path : StateM Shelf (Except String Bytes)).run s = (.ok bytes, s) :=
    congrArg (·, s) (by rw [read, hfind]; rfl)
  rw [Files.readText, StateT.run_bind, hread]
  dsimp only [bind]
  rw [htext]
  rfl

lemma run_readText_none (h : s.text? path = none) :
    ∃ reason, (Files.readText path : StateM Shelf (Except String String)).run s =
      (.error reason, s) := by
  have hrun : (Files.read path : StateM Shelf (Except String Bytes)).run s = (s.read path, s) := rfl
  rw [Files.readText, StateT.run_bind, hrun, read]
  dsimp only [bind]
  unfold text? at h
  cases hfind : s.find? path with
  | none => exact ⟨_, rfl⟩
  | some bytes =>
    rw [hfind, Option.bind_some] at h
    dsimp only [Option.elim]
    rw [h]
    exact ⟨_, rfl⟩

lemma run_absolutePath {full : String} (h : Tool.absolute? s.workingDirectory path = some full) :
    (Tool.absolutePath path : Tool.ToolM (StateM Shelf) String).run.run s = (.ok full, s) := by
  have hworking : (Files.workingDirectory : StateM Shelf String).run s = (s.workingDirectory, s) :=
    rfl
  rw [Tool.absolutePath, run_liftM_bind hworking, h]
  rfl

lemma run_readJson {α : Type} {codec : Json.Codec α} {a : α} (htext : s.text? path = some text)
    (h : codec.ofText text = .ok a) (unreadable : String → Tool.Error)
    (unparsable : Json.Fault → Tool.Error) :
    (Tool.readJson codec path unreadable unparsable : Tool.ToolM (StateM Shelf) α).run.run s =
      (.ok a, s) := by
  rw [Tool.readJson, run_liftM_bind (run_readText htext)]
  dsimp only
  rw [h]
  rfl

lemma exists_text_of_project? {p : Project} (h : s.project? path = some p) :
    ∃ text, s.text? path = some text ∧ Project.codec.ofText text = .ok p := by
  obtain ⟨text, htext, hproject⟩ := Option.bind_eq_some_iff.1 h
  refine ⟨text, htext, ?_⟩
  cases hof : Project.codec.ofText text with
  | error fault => simp [hof, Except.toOption] at hproject
  | ok p' => simpa [hof, Except.toOption] using hproject

/-- A project that names no path of its own is saved where it was read from. -/
lemma run_loadScene {p : Project} {full : String} (h : s.project? path = some p)
    (hfull : Tool.absolute? s.workingDirectory path = some full) :
    (Tool.loadScene path : Tool.ToolM (StateM Shelf) Project).run.run s =
      (.ok (if p.isSaved then p else { p with filepath := full }), s) := by
  obtain ⟨text, htext, hof⟩ := exists_text_of_project? h
  rw [Tool.loadScene, run_bind_ok (run_readJson htext hof _ _)]
  split
  · rfl
  · rw [run_bind_ok (run_absolutePath hfull)]
    rfl

end Shelf

namespace Tool

section Commands

variable {σ β γ : Type} {t t' : Printed} {s s' : σ}

/-- The command ends well, with a result, what is printed then, and the files. -/
def Ends (m : CommandM (StateM σ) β) (t : Printed) (s : σ) (b : β) (t' : Printed) (s' : σ) : Prop :=
  (m.run.run t).run s = ((.ok b, t'), s')

lemma ends_bind {m : CommandM (StateM σ) β} {f : β → CommandM (StateM σ) γ} {r : γ} :
    Ends (m >>= f) t s r t' s' ↔ ∃ b t₁ s₁, Ends m t s b t₁ s₁ ∧ Ends (f b) t₁ s₁ r t' s' := by
  unfold Ends
  rw [ExceptT.run_bind, StateT.run_bind, StateT.run_bind]
  rcases (m.run.run t).run s with ⟨⟨e | b, t₁⟩, s₁⟩
  · constructor
    · intro h
      cases h
    · rintro ⟨_, _, _, h, -⟩
      cases h
  · constructor
    · exact fun h => ⟨b, t₁, s₁, rfl, h⟩
    · rintro ⟨_, _, _, h, hrest⟩
      cases h
      exact hrest

lemma ends_liftM {m : StateM σ β} {b : β} :
    Ends (liftM m) t s b t' s' ↔ m.run s = (b, s') ∧ t = t' := by
  change (((.ok (m.run s).1, t), (m.run s).2) : (Except Error β × Printed) × σ) =
    ((.ok b, t'), s') ↔ _
  simp only [Prod.mk.injEq, Except.ok.injEq]
  exact ⟨fun ⟨⟨hb, ht⟩, hs⟩ => ⟨Prod.ext hb hs, ht⟩,
    fun ⟨h, ht⟩ => ⟨⟨congrArg Prod.fst h, ht⟩, congrArg Prod.snd h⟩⟩

lemma ends_pure {a b : β} :
    Ends (pure a : CommandM (StateM σ) β) t s b t' s' ↔ a = b ∧ t = t' ∧ s = s' := by
  change (((.ok a, t), s) : (Except Error β × Printed) × σ) = ((.ok b, t'), s') ↔ _
  simp [and_assoc]

lemma not_ends_throw {e : Error} {b : β} :
    ¬ Ends (throw e : CommandM (StateM σ) β) t s b t' s' := by
  change ¬ (((.error e, t), s) : (Except Error β × Printed) × σ) = ((.ok b, t'), s')
  simp

lemma ends_modify {f : Printed → Printed} {u : PUnit} :
    Ends (modify f : CommandM (StateM σ) PUnit) t s u t' s' ↔ f t = t' ∧ s = s' := by
  change (((.ok ⟨⟩, f t), s) : (Except Error PUnit × Printed) × σ) = ((.ok u, t'), s') ↔ _
  simp

/-- A step of another kind whose failure is a failure of the command. -/
lemma ends_settled {ε : Type} {step : StateM σ (Except ε β)}
    {f : Except ε β → CommandM (StateM σ) β} {b : β} (hok : ∀ a, f (.ok a) = pure a)
    (herror : ∀ e, ∃ e', f (.error e) = throw e') :
    Ends (liftM step >>= f) t s b t' s' ↔ step.run s = (.ok b, s') ∧ t = t' := by
  simp only [ends_bind, ends_liftM]
  constructor
  · rintro ⟨e | a, _, _, ⟨hrun, rfl⟩, h⟩
    · obtain ⟨e', he⟩ := herror e
      rw [he] at h
      exact absurd h not_ends_throw
    · rw [hok] at h
      obtain ⟨rfl, rfl, rfl⟩ := ends_pure.1 h
      exact ⟨hrun, rfl⟩
  · rintro ⟨hrun, rfl⟩
    refine ⟨.ok b, t, s', ⟨hrun, rfl⟩, ?_⟩
    rw [hok]
    exact ends_pure.2 ⟨rfl, rfl, rfl⟩

lemma ends_quietly {step : ToolM (StateM σ) β} {b : β} :
    Ends (quietly step) t s b t' s' ↔ step.run.run s = (.ok b, s') ∧ t = t' :=
  ends_settled (fun _ => rfl) fun e => ⟨e, rfl⟩

lemma ends_exporting {step : StateM σ (Except Export.Error β)} {b : β} :
    Ends (exporting step) t s b t' s' ↔ step.run s = (.ok b, s') ∧ t = t' :=
  ends_settled (fun _ => rfl) fun e => ⟨.exporting e, rfl⟩

/-- Printing leaves the files alone. -/
lemma eq_of_ends_forM_printErr {messages : List Message} {u : PUnit}
    (h : Ends (messages.forM fun message => (printErr message.text : CommandM (StateM σ) Unit)) t
      s u t' s') :
    s = s' := by
  induction messages generalizing t s with
  | nil => exact (ends_pure.1 h).2.2
  | cons message messages ih =>
    rw [List.forM_eq_forM, List.forM_cons, ← List.forM_eq_forM] at h
    obtain ⟨_, _, _, hfirst, hrest⟩ := ends_bind.1 h
    exact (ends_modify.1 hfirst).2.trans (ih hrest)

lemma run_runExport (config : SceneExport.Config) (step : Export.ExportM (StateM σ) β) (s : σ) :
    (runExport config step : StateM σ (Except Export.Error β)).run s =
      match Export.Context.init config with
      | .error e => (.error e, s)
      | .ok c => ((Export.onFiles step c s).1.1, (Export.onFiles step c s).2) := by
  unfold runExport
  cases Export.Context.init config with
  | error e => rfl
  | ok c => rfl

variable [Files (StateM σ)]

/-- An export that saves its path ends well when the project is read, exported, and written back
with the path. -/
theorem of_ends_runExportJson {config : Config} {scene output : String} {u : Unit}
    (h : Ends (runExportJson config scene (some output) true : CommandM (StateM σ) Unit) t
      s u t' s') :
    ∃ p s₁ path s₂ c out c' s₃, (loadScene scene : ToolM (StateM σ) Project).run.run s =
      (.ok p, s₁) ∧ (absolutePath output : ToolM (StateM σ) String).run.run s₁ = (.ok path, s₂) ∧
      Export.Context.init config.output = .ok c ∧
      Export.onFiles (Export.writeJson p path) c s₂ = ((.ok out, c'), s₃) ∧
      (saveScene scene { p with exportPathJson := some path } : ToolM (StateM σ) Unit).run.run s₃ =
        (.ok (), s') := by
  unfold runExportJson at h
  obtain ⟨p, _, s₁, hstep, h⟩ := ends_bind.1 h
  obtain ⟨hload, rfl⟩ := ends_quietly.1 hstep
  obtain ⟨path, _, s₂, hstep, h⟩ := ends_bind.1 h
  obtain ⟨hpath, rfl⟩ := ends_quietly.1 hstep
  obtain ⟨out, _, s₃, hstep, h⟩ := ends_bind.1 h
  obtain ⟨hexport, rfl⟩ := ends_exporting.1 hstep
  obtain ⟨_, _, s₄, hstep, h⟩ := ends_bind.1 h
  obtain rfl := eq_of_ends_forM_printErr hstep
  obtain ⟨_, _, s₅, hstep, h⟩ := ends_bind.1 h
  obtain ⟨hsave, rfl⟩ := ends_quietly.1 hstep
  obtain ⟨-, rfl⟩ := ends_modify.1 h
  rw [run_runExport] at hexport
  cases hinit : Export.Context.init config.output with
  | error e =>
    rw [hinit] at hexport
    cases hexport
  | ok c =>
    rw [hinit] at hexport
    obtain ⟨hout, hs⟩ := Prod.mk.inj hexport
    exact ⟨p, s₁, path, s₂, c, out, (Export.onFiles (Export.writeJson p path) c s₂).1.2, s₃,
      hload, hpath, rfl, Prod.ext (Prod.ext hout rfl) hs, hsave⟩

end Commands

end Tool

namespace Shelf

section Saved

open Json.Codec (IsInt32 IsSize)

variable {p : Project}

lemma run_saveScene (s : Shelf) {path : String} (hpath : path ≠ "") (p : Project) :
    (Tool.saveScene path p : Tool.ToolM (StateM Shelf) Unit).run.run s =
      (.ok (), s.put path (Bytes.ofText (Project.codec.toText .wide p))) := by
  rw [Tool.saveScene, run_liftM_bind (run_write hpath)]
  rfl

/-- The text of a saved project is read back as the project, and so is the file that it is saved in.
Its whole numbers have to fit, and its other numbers must not drift; those that are not finite
do. -/
theorem saveScene_reads_back (hfits : p.Fits) (hsettled : (Project.codec.write p).Settled) :
    Project.codec.ofText (Project.codec.toText .wide p) = .ok p ∧
      ∀ (s : Shelf) (path : String), path ≠ "" →
        ∃ s', (Tool.saveScene path p : Tool.ToolM (StateM Shelf) Unit).run.run s = (.ok (), s') ∧
          s'.project? path = some p := by
  have hread := (Project.exact_codec.faithful p hfits).ofText_toText hsettled .wide
  refine ⟨hread, fun s path hpath => ⟨_, run_saveScene s hpath p, ?_⟩⟩
  simp only [project?, text?, find?_put_self hpath, Option.bind_some, Bytes.toText?_ofText, hread]
  rfl

/-- A project with packed content, a skeleton and curves. -/
def keepsake : Project where
  filepath := "/work/keepsake.blend"
  exportPathJson := none
  exportPathHtml := some "/work/\"keepsake\".html"
  scenes := [⟨"stage", none, ["arm"], -1, 250, 29.97, none, false⟩]
  objects :=
    [⟨"arm", none, .armature, some "arm", none, Project.identityMatrix, some ⟨some "wave"⟩,
      ["wave"], true,
    [⟨"shake", 1, 2, true, 5, false, [⟨1, []⟩]⟩], false⟩]
  meshes := [⟨"hand", none, [], [], [0, 4294967295], []⟩]
  materials := []
  textures := [⟨"freckles", none, some "freckles"⟩]
  images :=
    [⟨"freckles", none, "//freckles.png", .generated, (2, 2), "PNG", true, "sRGB",
      some [0, 255, 16, 7]⟩]
  sounds := [⟨"clap", none, "", some []⟩]
  speakers := [⟨"mouth", none, some "clap", 0.5, 1, false, 10000, true⟩]
  armatures := [⟨"arm", some "//rig.blend",
    ⟨[⟨"upper", .identity, none, true⟩, ⟨"lower", .identity, some 0, false⟩], rfl⟩⟩]
  actions :=
    ⟨[⟨"wave", .object, (1, 24),
      [⟨"upper", [⟨.quaternion, 3, [⟨1, 0.1, ⟨0, 0.1⟩, ⟨2, 0.1⟩, .linear⟩]⟩]⟩]⟩]⟩

theorem keepsake_reads_back :
    keepsake.Fits ∧ (Project.codec.write keepsake).Settled ∧
      Project.codec.ofText (Project.codec.toText .wide keepsake) = .ok keepsake ∧
      ∀ s : Shelf, ∃ s',
      (Tool.saveScene "a.json" keepsake : Tool.ToolM (StateM Shelf) Unit).run.run s = (.ok (), s') ∧
        s'.project? "a.json" = some keepsake := by
  have hfits : keepsake.Fits := by
    have hframes : IsInt32 (-1) ∧ IsInt32 250 ∧ IsInt32 1 ∧ IsInt32 2 ∧ IsInt32 5 := by decide
    obtain ⟨hbefore, hlast, hone, htwo, hfive⟩ := hframes
    refine ⟨?_, ?_, ?_, ?_⟩
    · exact List.forall_mem_singleton.2 ⟨hbefore, hlast⟩
    · refine List.forall_mem_singleton.2 (List.forall_mem_singleton.2 ⟨hone, htwo, hfive, ?_⟩)
      exact List.forall_mem_singleton.2 hone
    · refine List.forall_mem_singleton.2 (List.forall_mem_cons.2 ⟨fun _ h => (nomatch h), ?_⟩)
      refine List.forall_mem_singleton.2 ?_
      exact fun i hi => Option.some.inj hi ▸ Nat.zero_le _
    · refine List.forall_mem_singleton.2
        (List.forall_mem_singleton.2 (List.forall_mem_singleton.2 ?_))
      exact (by decide : IsSize 3)
  have hsettled : (Project.codec.write keepsake).Settled := by decide +kernel
  obtain ⟨htext, hfile⟩ := saveScene_reads_back hfits hsettled
  exact ⟨hfits, hsettled, htext, fun s => hfile s "a.json" (by decide)⟩

end Saved

open Export (Runs exportScene onFiles outputFiles writeJson)

variable {s : Shelf} {p : Project} {path : String} {c c' : Export.Context} {out : Export.Output}

lemma run_ensureDirectory (s : Shelf) (directory : String) :
    (Export.ensureDirectory directory : StateM Shelf (Except Export.Error Unit)).run s =
      (.ok (), s) := by
  unfold Export.ensureDirectory
  by_cases hempty : directory = ""
  · rw [if_pos (by simp [hempty])]
    rfl
  · rw [if_neg (by simpa using hempty), StateT.run_bind]
    have hlook : (Files.isDirectory directory : StateM Shelf Bool).run s =
        ((s.filesBelow directory).any (· ≠ []), s) := rfl
    have hmake : (Files.makeDirectories directory : StateM Shelf (Except String Unit)).run s =
        (.ok (), s) :=
      congrArg (·, s) (if_neg hempty)
    rw [hlook]
    dsimp only [bind]
    split
    · rfl
    · change StateT.run (_ >>= _ : StateM Shelf _) s = _
      rw [StateT.run_bind, hmake]
      rfl

lemma join_ne_empty {base : String} (hroot : base.toList.head? = some '/') (name : String) :
    Path.join base name ≠ "" := by
  intro hempty
  rcases Path.join_cases hroot name "" with ⟨habs, hname⟩ | ⟨-, hhead, -⟩
  · rw [← hname, hempty] at habs
    exact absurd habs (by decide)
  · rw [hempty] at hhead
    cases hhead

lemma ne_empty_of_mem_outputFiles (hroot : path.toList.head? = some '/') :
    ∀ file ∈ outputFiles c out path, file.1 ≠ "" := by
  have hjoin := join_ne_empty (Path.head?_directory hroot)
  refine Export.forall_mem_outputFiles.2 ⟨fun media _ => hjoin media.1,
    fun _ name _ _ => hjoin name, Path.ne_empty_of_rooted hroot⟩

/-- An export to a path from the root on puts all its files on the shelf. -/
theorem onFiles_writeJson (hruns : Runs (exportScene p path false) c out c')
    (hroot : path.toList.head? = some '/') :
    onFiles (writeJson p path) c s = ((.ok out, c'), s.storeAll (outputFiles c' out path)) := by
  have hafter : Export.after (exportScene p path false) c = (.ok out, c') := hruns
  rw [Export.onFiles_writeJson, hafter, run_ensureDirectory]
  dsimp only
  rw [run_writeAll (ne_empty_of_mem_outputFiles hroot)]

/-- After an export that saves its path, the files of the export are there, and the project says
where it is saved and where it was exported to. -/
theorem of_ends_runExportJson {s' : Shelf} {config : Tool.Config} {scene output : String}
    {t t' : Tool.Printed} {u : Unit} (hscene : scene.toList.head? = some '/')
    (houtput : output.toList.head? = some '/') (hproject : s.project? scene = some p)
    (hunsaved : p.filepath = "")
    (h : Tool.Ends (Tool.runExportJson config scene (some output) true) t s u t' s') :
    ∃ full path c out c', Tool.absolute? s.workingDirectory scene = some full ∧
      Tool.absolute? s.workingDirectory output = some path ∧
      Export.Context.init config.output = .ok c ∧
      Runs (exportScene { p with filepath := full } path false) c out c' ∧
      s' = (s.storeAll (outputFiles c' out path)).put scene
        (Bytes.ofText
          (Project.codec.toText .wide
            { p with filepath := full, exportPathJson := some path })) := by
  obtain ⟨full, hfull, -⟩ := Tool.exists_absolute?_rooted hscene s.rooted
  obtain ⟨path, hpath, hroot, -⟩ := Tool.exists_absolute?_rooted houtput s.rooted
  obtain ⟨_, _, _, _, c, out, c', s₃, hload, habs, hinit, hexport, hsave⟩ :=
    Tool.of_ends_runExportJson h
  rw [run_loadScene hproject hfull, if_neg (by simp [Project.isSaved, hunsaved])] at hload
  cases hload
  rw [run_absolutePath hpath] at habs
  cases habs
  obtain ⟨hruns, -⟩ := Export.writeJson_ok hexport
  rw [onFiles_writeJson hruns hroot] at hexport
  cases hexport
  refine ⟨full, path, c, out, c', hfull, hpath, hinit, hruns, ?_⟩
  have hne : scene ≠ "" := Path.ne_empty_of_rooted hscene
  rw [run_saveScene _ hne] at hsave
  cases hsave
  rfl

end Shelf

end SceneExport
