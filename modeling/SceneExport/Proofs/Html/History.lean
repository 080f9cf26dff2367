import Mathlib
import SceneExport.Proofs.Files.Keeping
import SceneExport.Proofs.Walk.Elsewhere
import SceneExport.Proofs.Walk.Readback

/-!
# Contexts in use

One context serves any number of calls, and each leaves marks, media, sections, messages and
counters in it, a call that fails halfway as well. No call touches the options and the version, and
these two are all of a context that the start of an export leaves standing. So whatever a context
was used for, the next export from it is the export from a fresh one, in what it gives and in what
it leaves.
-/
namespace SceneExport.Export

/-- The context has the options and the version of another. -/
def SameOptions (c c' : Context) : Prop :=
  c'.config = c.config ∧ c'.version = c.version

/-- Options and version are all that the start of an export leaves standing. -/
lemma SameOptions.begin_eq {c c' : Context} (h : SameOptions c c') (path : String) (html : Bool) :
    c'.begin path html = c.begin path html := by
  obtain ⟨hconfig, hversion⟩ := h
  unfold Context.begin
  rw [hconfig, hversion]

lemma SameOptions.after_exportScene {c c' : Context} (h : SameOptions c c') (p : Project)
    (path : String) (html : Bool) :
    after (exportScene p path html) c' = after (exportScene p path html) c := by
  have hbegin (c : Context) :
      after (exportScene p path html) c = after (exportScene p path html) (c.begin path html) := rfl
  rw [hbegin c', h.begin_eq, ← hbegin c]

instance : IsPreorder Context SameOptions where
  refl _ := ⟨rfl, rfl⟩
  trans _ _ _ h h' := ⟨h'.1.trans h.1, h'.2.trans h.2⟩

lemma sameOptions_exportScene (p : Project) (path : String) (html : Bool) (c : Context) :
    SameOptions c (after (exportScene p path html) c).2 := by
  obtain ⟨hconfig, hversion, -⟩ := after_exportScene_keeps p path html c
  exact ⟨hconfig, hversion⟩

section Calls

variable {σ : Type} [Files (StateM σ)]

lemma lookups_sameOptions :
    Lookups (Order.Preimage (Prod.fst : Context × σ → Context) SameOptions) where
  resolve _ _ _ _ _ := ⟨rfl, rfl⟩
  media _ _ _ := ⟨rfl, rfl⟩
  messages _ _ _ := ⟨rfl, rfl⟩

/-- A call on a context. -/
inductive Call
  /-- An export. -/
  | scene (p : Project) (path : String) (html : Bool)
  /-- The table of a document for what some export gave. -/
  | table (output : Output) (player : String)
  /-- A document. -/
  | document (p : Project) (path : String) (player : Html.Player)

/-- The context that a call leaves, whether it ends well or fails. -/
def Call.leaves (call : Call) (c : Context) (s : σ) : Context :=
  match call with
  | .scene p path html => (onFiles (liftContext (exportScene p path html)) c s).1.2
  | .table output player => (onFiles (Html.dataTable output player) c s).1.2
  | .document p path player => (onFiles (Html.exportHtml p path player) c s).1.2

lemma Call.sameOptions_leaves (call : Call) (c : Context) (s : σ) :
    SameOptions c (call.leaves c s) := by
  cases call with
  | scene p path html =>
    simp only [leaves, onFiles_liftContext]
    exact sameOptions_exportScene p path html c
  | table output player => exact Html.leads_dataTable lookups_sameOptions output player c s
  | document p path player =>
    exact Html.leads_exportHtml lookups_sameOptions
      (fun path c _ => sameOptions_exportScene p path true c) path player c s

/-- A context made with the options, after any calls on it. Each call may find other files. -/
inductive Used (σ : Type) [Files (StateM σ)] (config : Config) : Context → Prop
  | fresh {c : Context} (hinit : Context.init config = .ok c) : Used σ config c
  | again {c : Context} (hused : Used σ config c) (call : Call) (s : σ) :
      Used σ config (call.leaves c s)

lemma Used.sameOptions {config : Config} {c₀ c : Context} (hinit : Context.init config = .ok c₀)
    (hused : Used σ config c) : SameOptions c₀ c := by
  induction hused with
  | fresh hinit' =>
    cases hinit.symm.trans hinit'
    exact ⟨rfl, rfl⟩
  | again _ call s ih => exact trans_of SameOptions ih (call.sameOptions_leaves _ s)

/-- An export from a context in use gives and leaves what it does from a fresh context, and so does
the export of a document. -/
theorem Used.exports_afresh {config : Config} {c₀ c : Context}
    (hinit : Context.init config = .ok c₀) (hused : Used σ config c) (s : σ) :
    (∀ p path html, onFiles (liftContext (exportScene p path html)) c s =
      onFiles (liftContext (exportScene p path html)) c₀ s) ∧
    ∀ p path player, onFiles (Html.exportHtml p path player) c s =
      onFiles (Html.exportHtml p path player) c₀ s := by
  have hsame := hused.sameOptions hinit
  have hscene (p : Project) (path : String) (html : Bool) :
      onFiles (liftContext (exportScene p path html)) c s =
        onFiles (liftContext (exportScene p path html)) c₀ s := by
    rw [onFiles_liftContext, onFiles_liftContext, hsame.after_exportScene]
  refine ⟨hscene, fun p path player => ?_⟩
  -- The path of the manifest comes from the options. From its export on the two runs are one.
  have hget (f : Context → ExportM (StateM σ) String) (c : Context) :
      onFiles (get >>= f) c s = onFiles (f c) c s := rfl
  unfold Html.exportHtml
  rw [hget, hget, hsame.1, onFiles_bind, onFiles_bind, hscene]

/-- A context that allows no messages. -/
def guarded : Context := { blank with config.strict := true }

/-- The flag without the curves of its action. -/
def torn : Project := { flag with actions := ⟨[⟨"wave", .object, (1, 2), []⟩]⟩ }

/-- The context after an export that came as far as the message about the missing curves. -/
def worn : Context := (Call.scene torn "/torn.json" true).leaves guarded (⟨[], []⟩ : Disk)

theorem worn_exports_afresh :
    Context.init guarded.config = .ok guarded ∧ Used Disk guarded.config worn ∧
    (after (exportScene torn "/torn.json" true) guarded).1.isOk = false ∧ worn.exported.length = 4 ∧
    worn.messages.warnings.length = 1 ∧
    ∀ s : Disk, (∀ p path html, onFiles (liftContext (exportScene p path html)) worn s =
      onFiles (liftContext (exportScene p path html)) guarded s) ∧
    ∀ p path player, onFiles (Html.exportHtml p path player) worn s =
      onFiles (Html.exportHtml p path player) guarded s := by
  have hinit : Context.init guarded.config = .ok guarded := rfl
  have hused : Used Disk guarded.config worn := (Used.fresh hinit).again _ _
  exact ⟨hinit, hused,
    by decide +kernel, by decide +kernel, by decide +kernel, hused.exports_afresh hinit⟩

end Calls

end SceneExport.Export
