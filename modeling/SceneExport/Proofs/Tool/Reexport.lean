import Mathlib
import SceneExport.Proofs.Tool.Traceback

/-!
# Exporting again

A batch looks for manifests and documents below a directory and exports each once more. When one
manifest is there, and its export has saved its path in the project, the batch reports this manifest
as exported and leaves its file and the binary file beside it as they were, provided that no number
of the project drifts when it is saved and read. Other files with the extension of a manifest are
passed over, and documents are written elsewhere.
-/
namespace SceneExport

open Tool

namespace Shelf

variable {s : Shelf} {directory : String} {names : List String}

/-- The files with an extension below a directory, in the order of their names. -/
def found (s : Shelf) (directory extension : String) : List (List String) :=
  ((s.filesBelow directory).filter fun names => hasExtension extension
    (lastName directory names)).mergeSort Files.namesLe

lemma run_collectFiles (s : Shelf) (directory extension : String) :
    (collectFiles [directory] extension : StateM Shelf (List String)).run s =
      ((s.found directory extension).map fun names => names.foldl Files.child directory, s) := by
  have hrun : (collectFiles [directory] extension : StateM Shelf (List String)).run s =
      ([(s.found directory extension).map fun names => names.foldl Files.child directory].flatten,
        s) := rfl
  rw [hrun, List.flatten_singleton]

lemma mem_found {extension : String} : names ∈ s.found directory extension ↔
    names ∈ s.filesBelow directory ∧ hasExtension extension (lastName directory names) = true := by
  rw [found, List.mem_mergeSort, List.mem_filter]

lemma nodup_found (s : Shelf) (directory extension : String) :
    (s.found directory extension).Nodup :=
  (List.mergeSort_perm _ _).nodup_iff.2 ((s.nodup_filesBelow directory).filter _)

end Shelf

namespace Tool

/-- A name with an extension ends as the extension does. -/
lemma getLast?_of_hasExtension {extension name : String} {c : Char}
    (h : hasExtension extension name = true) (hlast : extension.toList.getLast? = some c) :
    name.toList.getLast? = some c := by
  unfold hasExtension at h
  split at h
  · cases h
  · cases h
  · rename_i i _ _
    have hdrop : String.ofList (name.toList.drop (i + 1)) = extension := by
      simp only [Bool.and_eq_true, decide_eq_true_eq] at h
      exact h.2
    rw [← hdrop, String.toList_ofList, List.getLast?_drop] at hlast
    split_ifs at hlast
    exact hlast

lemma hasExtension_of_append {stem tail : List Char} {name : String} (hstem : stem ≠ [])
    (htail : '.' ∉ tail) (hlong : tail.length ≠ 0) (h : name.toList = stem ++ '.' :: tail) :
    hasExtension (String.ofList tail) name = true := by
  have hlast := Text.lastIndex?_append_cons (p := (· = '.')) (c := '.') stem rfl
    (fun d hd => decide_eq_false fun hdot => htail (hdot ▸ hd))
  have hne : name ≠ ".." := by
    rintro rfl
    have hlength := congrArg List.length h
    have hpos := List.length_pos_of_ne_nil hstem
    simp at hlength
    omega
  unfold hasExtension
  rw [h, hlast]
  split
  · cases ‹_›
  · exact absurd (Option.some.inj ‹_›) (by simpa using hstem)
  · obtain rfl := Option.some.inj ‹_›
    simp [hne]

/-- The last step of a path leads to a name that ends as the step does. -/
lemma exists_reach_stepNames (passed : List Path.Name) {path name : String} {c : Char}
    (h : (stepNames path).getLast? = some name) (hlast : name.toList.getLast? = some c)
    (hslash : Path.isSlash c = false) (hdot : c ≠ '.') :
    ∃ last rest, Path.reach passed path.toList = last :: rest ∧ last.getLast? = some c := by
  obtain ⟨front, hfront⟩ := List.getLast?_eq_some_iff.1 h
  obtain ⟨xs, hxs⟩ := Path.exists_cons_intercalate (front.map String.toList) name.toList
  have htext : '/' :: ("/".intercalate (stepNames path)).toList = xs ++ '/' :: name.toList := by
    rw [String.toList_intercalate, hfront, List.map_append]
    exact hxs
  have hend : ('/' :: ("/".intercalate (stepNames path)).toList).getLast? = some c := by
    rw [htext, List.getLast?_append, List.getLast?_cons, hlast]
    rfl
  have hreach := Path.exists_reach_getLast? passed hend hslash hdot
  rwa [Path.reach_cons passed _ rfl, reach_joined] at hreach

end Tool

namespace Shelf

variable {s : Shelf} {directory extension path : String} {names : List String}

lemma place_of_mem_found (hdirectory : directory ≠ "") (h : names ∈ s.found directory extension) :
    names.foldl Files.child directory ≠ "" ∧
      s.place (names.foldl Files.child directory) = s.place directory ++ names :=
  place_foldl_child hdirectory (forall_mem_of_mem_filesBelow hdirectory (mem_found.1 h).1)

/-- A file that was found for its extension is at a place that ends with it. -/
lemma endsIn_found {c : Char} (hdirectory : directory ≠ "")
    (h : names ∈ s.found directory extension) (hlast : extension.toList.getLast? = some c)
    (hslash : Path.isSlash c = false) (hdot : c ≠ '.') :
    EndsIn c (s.place (names.foldl Files.child directory)) := by
  have hname := getLast?_of_hasExtension (mem_found.1 h).2 hlast
  rw [(place_of_mem_found hdirectory h).2]
  cases hnames : names.getLast? with
  | some name =>
    rw [lastName, hnames] at hname
    exact ⟨name, by rw [List.getLast?_append, hnames]; rfl, hname⟩
  | none =>
    obtain rfl := List.getLast?_eq_none_iff.1 hnames
    rw [lastName, hnames] at hname
    cases hstep : (stepNames directory).getLast? with
    | none => simp [hstep] at hname
    | some name =>
      rw [hstep, Option.getD_some] at hname
      rw [List.append_nil]
      exact endsIn_of_reach hdirectory (exists_reach_stepNames _ hstep hname hslash hdot)

section Reports

variable {σ : Type}

lemma path_mem_of_mem_mapM {f : String → StateM σ (List Report)}
    (hf : ∀ path, Yields (fun reports => ∀ report ∈ reports, report.path = path) (f path))
    (paths : List String) :
    Yields (fun reports => ∀ report ∈ reports.flatten, report.path ∈ paths) (paths.mapM f) := by
  induction paths with
  | nil => exact yields_pure (by simp)
  | cons path paths ih =>
    rw [List.mapM_cons]
    refine (hf path).bind
      fun first hfirst => ih.bind fun rest hrest => yields_pure fun report hreport => ?_
    rw [List.flatten_cons, List.mem_append] at hreport
    rcases hreport with hreport | hreport
    · rw [hfirst report hreport]
      exact List.mem_cons_self
    · exact List.mem_cons_of_mem _ (hrest report hreport)

variable [Files (StateM σ)]

lemma yields_traceBack (path relative : String) (saved : Project → Option String) :
    Yields (fun result => ∀ report, result = .error report → report.path = path)
      (traceBack path relative saved : StateM σ (Except Report (String × Project × String))) := by
  have hok : ∀ traced : String × Project × String, ∀ report : Report,
      (Except.ok traced : Except Report _) = .error report → report.path = path :=
        fun _ _ h => nomatch h
  refine yields_bind fun scene => ?_
  cases scene with
  | none =>
    refine yields_pure fun report h => ?_
    rw [← Except.error.inj h]
  | some scene =>
    refine yields_bind fun result => ?_
    cases result with
    | error e =>
      refine yields_pure fun report h => ?_
      rw [← Except.error.inj h]
    | ok p =>
      refine yields_bind fun own => ?_
      split
      · exact yields_pure (hok _)
      · refine yields_pure fun report h => ?_
        rw [← Except.error.inj h]

/-- Every line of the report on a manifest names the manifest. -/
lemma yields_reexportJson (options : ReexportOptions) (assets : Option (List String))
    (path : String) :
    Yields (fun reports => ∀ report ∈ reports, report.path = path)
      (reexportJson options assets path : StateM σ (List Report)) := by
  refine yields_bind fun header => ?_
  cases header with
  | none => exact yields_pure (by simp)
  | some header =>
    dsimp only
    split
    · exact yields_pure (by simp)
    · split
      · exact yields_pure (by simp)
      · exact yields_pure (by simp)
      · refine (yields_traceBack path _ _).bind fun traced htraced => ?_
        rcases traced with report | ⟨scene, p, own⟩
        · exact yields_pure (by simpa using htraced)
        · have hnotes : ∀ report ∈ (if (assets.map fun list => list.contains own).getD true then []
              else [⟨path, .notListed, some scene⟩] : List Report), report.path = path := by
            split <;> simp
          dsimp only
          split
          · exact yields_pure hnotes
          · refine yields_bind fun result => yields_pure (List.forall_mem_append.2 ⟨hnotes, ?_⟩)
            cases result <;> simp [outcomeOf]

/-- Every line of the report on a document names the document. -/
lemma yields_reexportHtml (options : ReexportOptions) (player : Option Html.Player)
    (path : String) :
    Yields (fun reports => ∀ report ∈ reports, report.path = path)
      (reexportHtml options player path : StateM σ (List Report)) := by
  refine yields_bind fun result => ?_
  cases result with
  | error reason => exact yields_pure (by simp)
  | ok text =>
    dsimp only
    split
    · exact yields_pure (by simp)
    · exact yields_pure (by simp)
    · refine (yields_traceBack path _ _).bind fun traced htraced => ?_
      rcases traced with report | ⟨scene, p, own⟩
      · exact yields_pure (by simpa using htraced)
      · dsimp only
        split
        · exact yields_pure (by simp)
        · cases player with
          | none => exact yields_pure (by simp)
          | some player =>
            refine yields_bind fun result => yields_pure ?_
            cases result <;> simp [outcomeOf]

end Reports

lemma run_mapM_idle (options : ReexportOptions) (assets : Option (List String))
    {paths : List String} (h : ∀ path ∈ paths, ¬ s.HasManifest path) : ∃ reports,
      (paths.mapM (reexportJson options assets) : StateM Shelf (List (List Report))).run s =
        (reports, s) := by
  induction paths with
  | nil => exact ⟨[], rfl⟩
  | cons path paths ih =>
    obtain ⟨hidle, hrest⟩ := List.forall_mem_cons.1 h
    obtain ⟨first, hrun⟩ := run_reexportJson_idle options assets hidle
    obtain ⟨reports, hruns⟩ := ih hrest
    exact ⟨first :: reports, run_mapM_cons hrun hruns⟩

/-- Files with other paths give no reports about a path. -/
lemma filter_reports_eq_nil {options : ReexportOptions} {paths : List String} {path : String}
    {reports : List (List Report)} {s' : Shelf}
    (hrun : (paths.mapM (reexportJson options none) : StateM Shelf (List (List Report))).run s =
      (reports, s'))
    (hpaths : path ∉ paths) : reports.flatten.filter (·.path = path) = [] := by
  have hreports := path_mem_of_mem_mapM (yields_reexportJson options none) paths s
  rw [hrun] at hreports
  refine List.filter_eq_nil_iff.2 fun report hreport heq => hpaths ?_
  exact of_decide_eq_true heq ▸ hreports report hreport

/-- Of all files with the extension of a manifest, one is exported again, and the others are passed
over. -/
theorem run_mapM_reexportJson {options : ReexportOptions} {s' : Shelf} (hdirectory : directory ≠ "")
    (hnames : names ∈ s.found directory "json")
    (honly : ∀ other ∈ s.found directory "json", other ≠ names →
      ¬ s.HasManifest (other.foldl Files.child directory) ∧ ¬ s'.HasManifest
      (other.foldl Files.child directory))
    {first : Report}
    (hfirst : first.path = names.foldl Files.child directory)
    (hrun : (reexportJson options none (names.foldl Files.child directory) : StateM Shelf
      (List Report)).run s = ([first], s')) :
    ∃ reports, (((s.found directory "json").map fun names => names.foldl Files.child directory).mapM
        (reexportJson options none) : StateM Shelf (List (List Report))).run s = (reports, s') ∧
      reports.flatten.filter (·.path = names.foldl Files.child directory) = [first] := by
  obtain ⟨before, after, hsplit⟩ := List.append_of_mem hnames
  have hmem : ∀ other ∈ before ++ after, other ∈ s.found directory "json" ∧ other ≠ names := by
    have hnodup := s.nodup_found directory "json"
    rw [hsplit, List.nodup_middle, List.nodup_cons] at hnodup
    refine fun other hother => ⟨?_, fun heq => hnodup.1 (heq ▸ hother)⟩
    rw [hsplit]
    simp only [List.mem_append, List.mem_cons] at hother ⊢
    tauto
  -- the other files are passed over before the export and after it
  have hidle := fun other hother => honly other (hmem other hother).1 (hmem other hother).2
  obtain ⟨reports, hrun₁⟩ := run_mapM_idle options none
    (List.forall_mem_map.2 fun other hother => (hidle other (List.mem_append_left _ hother)).1)
  obtain ⟨reports', hrun₂⟩ := run_mapM_idle options none
    (List.forall_mem_map.2 fun other hother => (hidle other (List.mem_append_right _ hother)).2)
  have hother : names.foldl Files.child directory ∉
      (before ++ after).map fun names => names.foldl Files.child directory := by
    intro hpath
    obtain ⟨other, hother, heq⟩ := List.mem_map.1 hpath
    exact (hmem other hother).2 (foldl_child_injOn rfl hdirectory (mem_found.1 hnames).1
      (mem_found.1 (hmem other hother).1).1 heq)
  rw [List.map_append, List.mem_append, not_or] at hother
  refine ⟨reports ++ [first] :: reports', ?_, ?_⟩
  · rw [hsplit, List.map_append, List.map_cons]
    exact run_mapM_append hrun₁ (run_mapM_cons hrun hrun₂)
  · rw [List.flatten_append, List.flatten_cons, List.filter_append, List.filter_append,
      filter_reports_eq_nil hrun₁ hother.1, filter_reports_eq_nil hrun₂ hother.2]
    simp [hfirst]

section Looking

variable {R : Shelf → Shelf → Prop} [IsPreorder Shelf R]

lemma keeps_workingPlace (path : String) : Keeps R (workingPlace path : StateM Shelf String) :=
  fun s => refl_of R s

lemma keeps_loadScene (path : String) :
    Keeps R (loadScene path : ToolM (StateM Shelf) Project).run := by
  have hread : Keeps R (readJson Project.codec path (.readScene path) (.parseScene path) :
      ToolM (StateM Shelf) Project).run := by
    refine Keeps.bind_run (keeps_readText path |>.bind fun _ => keeps_pure _) fun result => ?_
    cases result with
    | error reason => exact keeps_pure _
    | ok text =>
      dsimp only
      split
      · exact keeps_pure _
      · exact keeps_pure _
  refine Keeps.bind_run hread fun p => ?_
  split
  · exact keeps_pure _
  · refine Keeps.bind_run (Keeps.bind_run (fun s => refl_of R s) fun working => ?_) fun full =>
      keeps_pure _
    split
    · exact keeps_pure _
    · exact keeps_pure _

lemma keeps_traceBack (path relative : String) (saved : Project → Option String) :
    Keeps R (traceBack path relative saved :
      StateM Shelf (Except Report (String × Project × String))) := by
  have hsource : Keeps R (sourceScene? path relative : StateM Shelf (Option String)) :=
    (keeps_workingPlace _).bind fun _ => (keeps_isFile _).bind fun _ => keeps_pure _
  refine hsource.bind fun scene => ?_
  cases scene with
  | none => exact keeps_pure _
  | some scene =>
    refine (keeps_loadScene scene).bind fun result => ?_
    cases result with
    | error e => exact keeps_pure _
    | ok p =>
      refine (keeps_workingPlace path).bind fun own => ?_
      split
      · exact keeps_pure _
      · exact keeps_pure _

lemma keeps_loadPlayer (directory : String) (config : Config) :
    Keeps R (loadPlayer directory config : ToolM (StateM Shelf) Html.Player).run := by
  refine Keeps.bind_run (fun s => refl_of R s) fun place =>
    Keeps.bind_run (Html.keeps_load place config |>.bind fun _ => keeps_pure _) fun result => ?_
  cases result with
  | error e => exact keeps_pure _
  | ok player => exact keeps_pure _

end Looking

/-- Documents that are exported again spare the files of the other exports. -/
theorem spares_reexportHtml (options : ReexportOptions) (player : Option Html.Player)
    (path : String) :
    Keeps Spares (reexportHtml options player path : StateM Shelf (List Report)) := by
  refine (keeps_readText path).bind fun result => ?_
  cases result with
  | error reason => exact keeps_pure _
  | ok text =>
    dsimp only
    split
    · exact keeps_pure _
    · exact keeps_pure _
    · refine (keeps_traceBack path _ _).bind fun traced => ?_
      rcases traced with report | ⟨scene, p, own⟩
      · exact keeps_pure _
      · dsimp only
        split
        · exact keeps_pure _
        · cases player with
          | none => exact keeps_pure _
          | some player =>
            refine Keeps.bind (fun s => ?_) fun _ => keeps_pure _
            rw [run_runExport]
            cases Export.Context.init options.config.output with
            | error e => exact refl_of Spares s
            | ok c =>
              exact Html.keepsFiles_writeHtml p own player (keeps_writeWhole_document own) c s

/-- The player is read and nothing is changed. -/
lemma exists_run_player {options : ReexportOptions}
    (hplayer : ∀ place, options.html = true → options.player = some place → ∃ player,
      ((loadPlayer place options.config.output : ToolM (StateM Shelf) Html.Player).run.run s).1 =
        .ok player) :
    ∃ player, ∀ next : Option Html.Player → ToolM (StateM Shelf) (List Report),
      (if options.html then
        (options.player.mapM fun place => loadPlayer place options.config.output) >>= next
        else pure none >>= next).run.run s = (next player).run.run s := by
  cases hhtml : options.html with
  | false => exact ⟨none, fun _ => rfl⟩
  | true =>
    cases hplace : options.player with
    | none => exact ⟨none, fun _ => rfl⟩
    | some place =>
      obtain ⟨player, hok⟩ := hplayer place hhtml hplace
      have hkeeps := keeps_loadPlayer (R := Eq) place options.config.output s
      have hload : (some <$> loadPlayer place options.config.output :
          ToolM (StateM Shelf) (Option Html.Player)).run.run s = (.ok (some player), s) := by
        rw [map_eq_pure_bind, run_bind_ok (Prod.ext hok hkeeps.symm)]
        rfl
      exact ⟨some player, fun next => run_bind_ok hload⟩

/-- Documents spare the manifests, and no report about one of them is about a manifest. -/
lemma exists_run_documents (options : ReexportOptions) (player : Option Html.Player) {s' : Shelf}
    (hdirectory : directory ≠ "") (hnames : names ∈ s.found directory "json")
    (hworking : s'.workingDirectory = s.workingDirectory) :
    ∃ html s'', (do
      if !options.html then return []
      let files ← collectFiles [directory] "html"
      return (← files.mapM (reexportHtml options player)).flatten :
        StateM Shelf (List Report)).run s' = (html, s'') ∧
        Spares s' s'' ∧ ∀ report ∈ html, report.path ≠ names.foldl Files.child directory := by
  cases options.html with
  | false => exact ⟨[], s', rfl, refl_of Spares s', by simp⟩
  | true =>
    rw [if_neg (by decide), StateT.run_bind, run_collectFiles]
    refine ⟨_, _, rfl, ?_, ?_⟩
    · exact keeps_mapM (spares_reexportHtml options player) _ s'
    · intro report hreport heq
      obtain ⟨other, hother, hpath⟩ :=
        List.mem_map.1
          (path_mem_of_mem_mapM (yields_reexportHtml options player) _ s' report hreport)
      obtain rfl :=
        foldl_child_injOn hworking hdirectory (mem_found.1 hnames).1 (mem_found.1 hother).1
        (hpath.trans heq)
      have hdocument := endsIn_found (c := 'l') hdirectory hother rfl rfl (by decide)
      rw [place_congr hworking] at hdocument
      exact absurd
        (hdocument.unique (endsIn_found (c := 'n') hdirectory hnames rfl rfl (by decide)))
        (by decide)

/-- The documents come behind the manifests, and spare their files. -/
theorem exists_run_reexport {options : ReexportOptions} {s' : Shelf} {reports : List (List Report)}
    (hdirectory : directory ≠ "") (hjson : options.json = true) (hassets : options.assets = none)
    (hplayer : ∀ place, options.html = true → options.player = some place → ∃ player,
      ((loadPlayer place options.config.output : ToolM (StateM Shelf) Html.Player).run.run s).1 =
        .ok player)
    (hnames : names ∈ s.found directory "json")
    (hworking : s'.workingDirectory = s.workingDirectory)
    (hrun : (((s.found directory "json").map fun names => names.foldl Files.child directory).mapM
      (reexportJson options none) : StateM Shelf (List (List Report))).run s = (reports, s')) :
    ∃ html s'', (reexport [directory] options : ToolM (StateM Shelf) (List Report)).run.run s =
        (.ok (reports.flatten ++ html), s'') ∧ Spares s' s'' ∧
      ∀ report ∈ html, report.path ≠ names.foldl Files.child directory := by
  obtain ⟨player, hload⟩ := exists_run_player hplayer
  have hmanifests : (do
      if !options.json then return []
      let files ← collectFiles [directory] "json"
      return (← files.mapM (reexportJson options none)).flatten :
        StateM Shelf (List Report)).run s = (reports.flatten, s') := by
    rw [hjson, if_neg (by decide), StateT.run_bind, run_collectFiles]
    change StateT.run (_ >>= _ : StateM Shelf _) s = _
    rw [StateT.run_bind, hrun]
    rfl
  obtain ⟨html, s'', hdocuments, hspares, hpaths⟩ :=
    exists_run_documents options player hdirectory hnames hworking
  refine ⟨html, s'', ?_, hspares, hpaths⟩
  have hnone :
      ((none : Option String).mapM loadAssets : ToolM (StateM Shelf)
        (Option (List String))).run.run s =
    (.ok none, s) := rfl
  rw [reexport, hassets, run_bind_ok hnone]
  dsimp only
  rw [hload, run_liftM_bind hmanifests, run_liftM_bind hdocuments]
  rfl

lemma getLast?_join (base : String) {name : String} {c : Char} (h : name.toList.getLast? = some c) :
    (Path.join base name).toList.getLast? = some c := by
  unfold Path.join
  split
  · exact h
  · rw [String.toList_append, List.getLast?_append, h]
    rfl

/-- Where a file that the export of a project writes comes to the place of the project, that is not
the place of the manifest or of the binary file, and the file is no manifest. -/
def ApartFromExport (s : Shelf) (config : Tool.Config) (p : Project)
    (scene output : String) : Prop :=
  ∀ full path c out c', absolute? s.workingDirectory scene = some full →
    absolute? s.workingDirectory output = some path → Export.Context.init config.output = .ok c →
    Export.Runs (Export.exportScene { p with filepath := full } path false) c out c' →
    ∀ file ∈ Export.outputFiles c' out path, s.place file.1 = s.place scene →
      s.place output ≠ s.place scene ∧
      s.place (Path.join (Path.directory output) (Export.binaryName output)) ≠ s.place scene ∧
      ¬ HoldsManifest file.2

/-- An export that saves its path is exported again without a change. -/
theorem reexport_savedPath {s s₁ : Shelf} {p : Project} {scene output directory : String}
    {names : List String} {options : ReexportOptions} {t t' : Printed}
    (hscene : scene.toList.head? = some '/') (hsceneColon : ':' ∉ scene.toList)
    (houtput : output.toList.head? = some '/') (houtputColon : ':' ∉ output.toList)
    (hextension : Path.extension output = ".json")
    (hproject : s.project? scene = some p) (hunsaved : p.filepath = "")
    (hsettled : (Project.codec.write p).Settled)
    (hversion : (options.config.output.version?.map Version.isPositive).getD false = true)
    (hapart : s.ApartFromExport options.config p scene output)
    (hrun : Ends (runExportJson options.config scene (some output) true) t s () t' s₁)
    (hjson : options.json = true) (hassets : options.assets = none)
    (hreport : options.reportOnly = false)
    (hplayer : ∀ place, options.html = true → options.player = some place → ∃ player,
      ((loadPlayer place options.config.output : ToolM (StateM Shelf) Html.Player).run.run s₁).1 =
        .ok player)
    (hdirectory : directory ≠ "") (hbelow : s.place output = s.place directory ++ names)
    (hnames : names ≠ []) (honly : ∀ other ∈ s₁.found directory "json", other ≠ names →
      ¬ s₁.HasManifest (other.foldl Files.child directory)) :
    ∃ reports s₂, (reexport [directory] options : ToolM (StateM Shelf) (List Report)).run.run s₁ =
        (.ok reports, s₂) ∧
      reports.filter (·.path = names.foldl Files.child directory) =
        [⟨names.foldl Files.child directory, .ok, none⟩] ∧
      s₂.content (s.place output) = s₁.content (s.place output) ∧
      s₂.content (s.place (Path.join (Path.directory output) (Export.binaryName output))) =
        s₁.content (s.place (Path.join (Path.directory output) (Export.binaryName output))) := by
  obtain ⟨full, path, c, out, c', hfull, hpath, hinit, hruns, hafter⟩ :=
    of_ends_runExportJson hscene houtput hproject hunsaved hrun
  change s₁ = s.exported (Export.outputFiles c' out path) scene
    (Project.remembering { p with filepath := full } (some path)) at hafter
  obtain ⟨full', hfull', hfullRoot, hfullPlace, hfullChars⟩ :=
    exists_absolute?_rooted hscene s.rooted
  obtain rfl : full = full' := Option.some.inj (hfull.symm.trans hfull')
  obtain ⟨path', hpath', hfile, hname, hpathPlace⟩ :=
    exists_target s.rooted houtput houtputColon (by decide) hextension
  obtain rfl : path = path' := Option.some.inj (hpath.symm.trans hpath')
  obtain ⟨text, -, htext⟩ := exists_text_of_project? hproject
  obtain ⟨stem, hstem, hstemName⟩ := Path.exists_stem hextension
  have hapart := hapart full path c out c' hfull hpath hinit hruns
  have hsame : s.place path = s.place output := place_eq_of_ofText houtput hfile.rooted hpathPlace
  have hmanifest : s.place path ≠ s.place scene := fun heq =>
    ((Export.forall_mem_outputFiles.1 hapart).2.2 heq).1 (hsame.symm.trans heq)
  obtain ⟨hfound, hfoundPlace, hparent, hparentPlace⟩ := place_found hdirectory hnames hbelow
  rw [← hsame] at hfoundPlace hparentPlace
  rw [place_directory hfile] at hparentPlace
  obtain ⟨hdirectoryPlace, hlast⟩ := List.append_inj' hparentPlace rfl
  have hfirst := run_reexportJson_exported (p := { p with filepath := full }) hfile hfullRoot
    (fun hc => (hfullChars _ hc).elim (by decide) hsceneColon)
    (place_eq_of_ofText hscene hfullRoot hfullPlace) hmanifest hinit hversion hruns
    (Project.ofText_toText htext hsettled full (some path) .wide) hreport hfound hfoundPlace
    (absolutePlace_eq_normalize hfile.rooted hfound hfoundPlace)
    (absolutePlace_eq_normalize (Path.head?_directory hfile.rooted) hparent hdirectoryPlace.symm)
  -- from here on only the place of the saved project matters
  generalize Project.remembering _ _ = saved at hafter hfirst
  subst hafter
  have hmem : names ∈ (s.exported (Export.outputFiles c' out path) scene saved).found directory
      "json" := by
    refine mem_found.2 ⟨(mem_filesBelow hdirectory).2 ?_, ?_⟩
    · rw [place_exported, ← hbelow, ← hsame, ← AList.lookup_isSome]
      change (content _ _).isSome = true
      rw [content_manifest hmanifest]
      rfl
    · rw [lastName, List.getLast?_eq_getLast_of_ne_nil hnames]
      dsimp only
      rw [← (List.cons.inj hlast).1, hname]
      exact hasExtension_of_append hstem (by decide) (by decide) hstemName
  have hends : ∀ other ∈ (s.exported (Export.outputFiles c' out path) scene saved).found
      directory "json", EndsIn 'n' (s.place (other.foldl Files.child directory)) := by
    intro other hother
    rw [← place_exported s (Export.outputFiles c' out path) scene saved]
    exact endsIn_found hdirectory hother rfl rfl (by decide)
  obtain ⟨reports, hmanifests, hreports⟩ := run_mapM_reexportJson hdirectory hmem
    (fun other hother hne => ⟨honly other hother hne, not_hasManifest_again hfile saved
      (fun file hmem heq => (hapart file hmem heq).2.2) (place_of_mem_found hdirectory hother).1
      (hends other hother) (honly other hother hne)⟩) rfl hfirst
  obtain ⟨html, s₂, hrun₂, hspares₂, hhtml⟩ :=
    exists_run_reexport hdirectory hjson hassets hplayer hmem
      (workingDirectory_storeAll ..) hmanifests
  -- neither the manifest nor the binary file is at the place of the project, if a file comes there
  have hsame' : ∀ place, EndsIn 'n' place → (∀ file ∈ Export.outputFiles c' out path,
      s.place file.1 = s.place scene → place ≠ s.place scene) → s₂.content place =
      (s.exported (Export.outputFiles c' out path) scene saved).content place := by
    intro place hends hne
    refine (hspares₂.content place hends).trans
      ((content_storeAll_again hfile saved hends).resolve_left ?_)
    rintro ⟨file, hmem, hspot, hscene, -⟩
    exact hne file hmem (hspot.trans hscene) hscene
  refine ⟨_, s₂, hrun₂, ?_, hsame' _ ?_ fun file hmem heq => (hapart file hmem heq).1,
    hsame' _ ?_ fun file hmem heq => (hapart file hmem heq).2.1⟩
  · rw [List.filter_append, hreports, List.filter_eq_nil_iff.2 fun report hreport =>
      by simpa using hhtml report hreport]
    rfl
  · refine s.endsIn_place ?_ rfl (by decide)
    obtain ⟨xs, d, houtput', -⟩ := Path.exists_fileName houtput
    rw [houtput', hstemName]
    simp [List.getLast?_cons]
  · refine s.endsIn_place (getLast?_join _ ?_) rfl (by decide)
    simp [Export.binaryName]

/-- A shelf with nothing but a project, which names its frame rate. -/
def sketch (fps : String) : Shelf :=
  put ⟨∅, "/", rfl, fun _ h => absurd h (AList.notMem_empty _)⟩ "/work/s.json"
    (Bytes.ofText ("\x7b\"scenes\":[\x7b\"name\":\"S\",\"fps\":" ++ fps ++ "\x7d]\x7d"))

/-- The project of a sketch, exported beside itself. -/
def exportSketch : CommandM (StateM Shelf) Unit :=
  runExportJson .usual "/work/s.json" (some "/work/out/a.json") true

def everything : ReexportOptions := ⟨false, true, true, none, none, .usual⟩

/-- What the export of a sketch comes to. -/
def sketched (fps : String) : (Except Tool.Error Unit × Printed) × Shelf :=
  (exportSketch.run.run ⟨[], []⟩).run (sketch fps)

lemma ends_exportSketch {fps : String} (h : (sketched fps).1.1.isOk = true) :
    Ends exportSketch ⟨[], []⟩ (sketch fps) () (sketched fps).1.2 (sketched fps).2 := by
  change sketched fps = ((.ok (), (sketched fps).1.2), (sketched fps).2)
  rcases hrun : sketched fps with ⟨⟨_ | _, t⟩, s⟩
  · simp [hrun, Except.isOk, Except.toBool] at h
  · rfl

/-- A project whose frame rate is read back is exported again without a change; there are others. -/
theorem sketch_reexport :
    (∃ p t s₁ reports s₂, (sketch "30").project? "/work/s.json" = some p ∧
      (Project.codec.write p).Settled ∧ Ends exportSketch ⟨[], []⟩ (sketch "30") () t s₁ ∧
      (reexport ["/work/out"] everything : ToolM (StateM Shelf) (List Report)).run.run s₁ =
        (.ok reports, s₂) ∧
      reports.filter (·.path = "/work/out/a.json") = [⟨"/work/out/a.json", .ok, none⟩] ∧
      s₂.content ["work", "out", "a.json"] = s₁.content ["work", "out", "a.json"]) ∧
    ∃ p, (sketch "25.0008440000000860").project? "/work/s.json" = some p ∧
    ¬ (Project.codec.write p).Settled := by
  constructor
  · have hread : ((sketch "30").project? "/work/s.json").map
        (fun p => decide ((Project.codec.write p).Settled ∧ p.filepath = "" ∧
          ∀ out ∈ (Export.after (Export.exportScene { p with filepath := "/work/s.json" }
            "/work/out/a.json" false) Export.blank).1.toOption,
          ∀ file ∈ Export.outputFiles (Export.after
            (Export.exportScene { p with filepath := "/work/s.json" } "/work/out/a.json" false)
            Export.blank).2 out "/work/out/a.json",
          (sketch "30").place file.1 ≠ (sketch "30").place "/work/s.json")) = some true := by
      decide +kernel
    obtain ⟨p, hproject, hread⟩ := Option.map_eq_some_iff.1 hread
    obtain ⟨hsettled, hunsaved, hfiles⟩ := of_decide_eq_true hread
    have hapart : (sketch "30").ApartFromExport .usual p "/work/s.json" "/work/out/a.json" := by
      intro full path c out c' hfull hpath hinit hruns
      obtain rfl : "/work/s.json" = full :=
        Option.some.inj (hfull.symm.trans (by decide +kernel)).symm
      obtain rfl : "/work/out/a.json" = path :=
        Option.some.inj (hpath.symm.trans (by decide +kernel)).symm
      obtain rfl : Export.blank = c := Except.ok.inj hinit
      have hafter :
          Export.after
            (Export.exportScene { p with filepath := "/work/s.json" } "/work/out/a.json" false)
        Export.blank = (.ok out, c') := hruns
      rw [hafter] at hfiles
      exact fun file hfile heq => absurd heq (hfiles out rfl file hfile)
    have hrun : Ends exportSketch ⟨[], []⟩ (sketch "30") () _ _ :=
      ends_exportSketch (by decide +kernel)
    have honly : ∀ other ∈ (sketched "30").2.found "/work/out" "json", other ≠ ["a.json"] →
        ¬ (sketched "30").2.HasManifest (other.foldl Files.child "/work/out") := by
      have hbelow : (sketched "30").2.filesBelow "/work/out" = [["a.json"]] := by decide +kernel
      intro other hother hne
      rw [mem_found, hbelow] at hother
      exact absurd (List.mem_singleton.1 hother.1) hne
    obtain ⟨reports, s₂, hreexport, hreports, hmanifest, -⟩ : ∃ reports s₂,
        (reexport ["/work/out"] everything : ToolM (StateM Shelf) (List Report)).run.run
          (sketched "30").2 = (.ok reports, s₂) ∧
        reports.filter (·.path = ["a.json"].foldl Files.child "/work/out") =
          [⟨["a.json"].foldl Files.child "/work/out", .ok, none⟩] ∧ _ ∧ _ :=
      reexport_savedPath rfl (by decide) rfl (by decide) (by decide +kernel) hproject
        hunsaved hsettled
        (by decide +kernel) hapart hrun rfl rfl rfl nofun (by decide) (by decide +kernel)
        (by decide) honly
    have hplace : (sketch "30").place "/work/out/a.json" = ["work", "out", "a.json"] := by
      decide +kernel
    have hfound : List.foldl Files.child "/work/out" ["a.json"] = "/work/out/a.json" := by
      decide +kernel
    rw [hplace] at hmanifest
    rw [hfound] at hreports
    exact ⟨p, _, _, reports, s₂, hproject, hsettled, hrun, hreexport, hreports, hmanifest⟩
  · have hread : ((sketch "25.0008440000000860").project? "/work/s.json").map (fun p =>
        decide (Project.codec.write p).Settled) = some false := by decide +kernel
    obtain ⟨p, hproject, hread⟩ := Option.map_eq_some_iff.1 hread
    exact ⟨p, hproject, of_decide_eq_false hread⟩

end Shelf

end SceneExport
