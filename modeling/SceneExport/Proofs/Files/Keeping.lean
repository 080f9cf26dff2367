import Mathlib
import SceneExport.Proofs.Basics
import SceneExport.Proofs.Html.Table

/-!
# Steps on files

What a step gives can be told for single files, or for all files at once. A step keeps a relation
when it leads from files only to related ones, whether it ends well or fails. Steps that only look
at files keep every relation that is reflexive, in particular equality. For the steps of an export
the relation is between contexts with files, and one that lookups and notes keep is kept by the
whole table of a document. The export of a document looks at many files and writes one, so of the
files it keeps what this one write keeps.
-/
namespace SceneExport

section Results

variable {σ β γ : Type}

/-- Whatever the files are, the result is as told. -/
def Yields (P : β → Prop) (m : StateM σ β) : Prop :=
  ∀ s, P (m.run s).1

lemma yields_pure {P : β → Prop} {b : β} (h : P b) : Yields P (pure b : StateM σ β) :=
  fun _ => h

lemma Yields.bind {Q : β → Prop} {P : γ → Prop} {m : StateM σ β} {f : β → StateM σ γ}
    (hm : Yields Q m) (hf : ∀ b, Q b → Yields P (f b)) : Yields P (m >>= f) :=
  fun s => hf (m.run s).1 (hm s) (m.run s).2

lemma yields_bind {P : γ → Prop} {m : StateM σ β} {f : β → StateM σ γ} (hf : ∀ b, Yields P (f b)) :
    Yields P (m >>= f) :=
  fun s => hf (m.run s).1 (m.run s).2

end Results

section Steps

variable {σ β γ : Type} {R : σ → σ → Prop} [IsPreorder σ R]

/-- From all files the step leads to related ones. -/
def Keeps (R : σ → σ → Prop) (m : StateM σ β) : Prop :=
  ∀ s, R s (m.run s).2

lemma keeps_pure (b : β) : Keeps R (pure b : StateM σ β) :=
  fun s => refl s

lemma Keeps.bind {m : StateM σ β} {f : β → StateM σ γ} (hm : Keeps R m) (hf : ∀ b, Keeps R (f b)) :
    Keeps R (m >>= f) :=
  fun s => trans_of R (hm s) (hf (m.run s).1 (m.run s).2)

lemma keeps_mapM {f : β → StateM σ γ} (hf : ∀ b, Keeps R (f b)) (bs : List β) :
    Keeps R (bs.mapM f) := by
  induction bs with
  | nil => exact keeps_pure []
  | cons b bs ih =>
    rw [List.mapM_cons]
    exact (hf b).bind fun _ => ih.bind fun _ => keeps_pure _

lemma Keeps.bind_run {ε : Type} {m : ExceptT ε (StateM σ) β} {f : β → ExceptT ε (StateM σ) γ}
    (hm : Keeps R m.run) (hf : ∀ b, Keeps R (f b).run) : Keeps R (m >>= f).run := by
  rw [ExceptT.run_bind]
  refine hm.bind fun result => ?_
  cases result with
  | error e => exact keeps_pure _
  | ok b => exact hf b

end Steps

namespace Export

variable {σ β γ : Type} {R : Context × σ → Context × σ → Prop} [IsPreorder (Context × σ) R]

/-- From every context and all files the export step leads to related ones. -/
def Leads (R : Context × σ → Context × σ → Prop) (m : ExportM (StateM σ) β) : Prop :=
  ∀ c s, R (c, s) ((onFiles m c s).1.2, (onFiles m c s).2)

lemma Leads.bind {m : ExportM (StateM σ) β} {f : β → ExportM (StateM σ) γ} (hm : Leads R m)
    (hf : ∀ b, Leads R (f b)) : Leads R (m >>= f) := by
  intro c s
  have hfirst := hm c s
  rw [onFiles_bind]
  rcases hrun : onFiles m c s with ⟨⟨_ | b, c'⟩, s'⟩
  · rw [hrun] at hfirst
    exact hfirst
  · rw [hrun] at hfirst
    exact trans_of R hfirst (hf b c' s')

lemma leads_pure (b : β) : Leads R (pure b : ExportM (StateM σ) β) := fun _ _ => refl_of R _

lemma leads_throw (e : Error) : Leads R (throw e : ExportM (StateM σ) β) := fun _ _ => refl_of R _

lemma leads_get : Leads R (get : ExportM (StateM σ) Context) := fun _ _ => refl_of R _

lemma leads_liftExcept (result : Except Error β) :
    Leads R (liftExcept result : ExportM (StateM σ) β) := by
  cases result with
  | error e => exact leads_throw e
  | ok b => exact leads_pure b

omit [IsPreorder (Context × σ) R] in
lemma leads_modify {f : Context → Context} (hf : ∀ c s, R (c, s) (f c, s)) :
    Leads R (modify f : ExportM (StateM σ) PUnit) := hf

omit [IsPreorder (Context × σ) R] in
lemma leads_liftContext {step : ContextM β} (hstep : ∀ c s, R (c, s) ((after step c).2, s)) :
    Leads R (liftContext step : ExportM (StateM σ) β) := by
  intro c s
  rw [onFiles_liftContext]
  exact hstep c s

omit [IsPreorder (Context × σ) R] in
lemma leads_liftM {m : StateM σ β} (hm : ∀ c s, R (c, s) (c, (m.run s).2)) : Leads R (liftM m) := by
  intro c s
  rw [onFiles_liftM]
  exact hm c s

lemma leads_foldlM {f : γ → β → ExportM (StateM σ) γ} (hf : ∀ a b, Leads R (f a b)) (bs : List β)
    (a : γ) : Leads R (bs.foldlM f a) := by
  induction bs generalizing a with
  | nil => exact leads_pure a
  | cons b bs ih =>
    rw [List.foldlM_cons]
    exact (hf a b).bind ih

/-- The relation holds between before and after a lookup of a resource, and when something is noted
about it. -/
structure Lookups [Files (StateM σ)] (R : Context × σ → Context × σ → Prop) : Prop where
  resolve : ∀ c s (media : Media) (path directory : String),
    R (c, s) (c, ((media.resolve path directory : StateM σ _).run s).2)
  media : ∀ c s media, R (c, s) ({ c with media }, s)
  messages : ∀ c s messages, R (c, s) ({ c with messages }, s)

end Export

section Looking

variable {σ : Type} [Files (StateM σ)] [Export.LooksOnly σ] {R : σ → σ → Prop} [IsPreorder σ R]

lemma keeps_isFile (path : String) : Keeps R (Files.isFile path : StateM σ Bool) := by
  intro s
  rw [Export.LooksOnly.isFile]
  exact refl s

lemma keeps_readText (path : String) :
    Keeps R (Files.readText path : StateM σ (Except String String)) := by
  have hread : Keeps R (Files.read path : StateM σ (Except String Bytes)) := by
    intro s
    rw [Export.LooksOnly.read]
    exact refl s
  refine hread.bind fun result => ?_
  cases result with
  | error reason => exact keeps_pure _
  | ok bytes =>
    dsimp only
    split
    · exact keeps_pure _
    · exact keeps_pure _

end Looking

namespace Html

open Export (Leads Lookups leads_foldlM leads_get leads_liftContext leads_liftExcept leads_liftM
  leads_modify leads_pure leads_throw)

section Player

variable {σ : Type} [Files (StateM σ)] [Export.LooksOnly σ] {R : σ → σ → Prop} [IsPreorder σ R]

lemma keeps_readText? (path : String) :
    Keeps R (readText? path : ExceptT Export.Error (StateM σ) _).run := by
  refine Keeps.bind_run (keeps_isFile path |>.bind fun _ => keeps_pure _) fun found => ?_
  cases found with
  | false => exact keeps_pure _
  | true =>
    refine Keeps.bind_run (keeps_readText path |>.bind fun _ => keeps_pure _) fun result => ?_
    cases result with
    | error reason => exact keeps_pure _
    | ok text => exact keeps_pure _

lemma keeps_load (directory : String) (config : Config) :
    Keeps R (Player.load directory config : ExceptT Export.Error (StateM σ) _).run := by
  have hrest : ∀ template, Keeps R (do
      let script ← readText? (Path.join directory config.scriptName)
      let style ← readText? (Path.join directory config.styleName)
      return ⟨directory, template, script.getD "", style.getD ""⟩ :
        ExceptT Export.Error (StateM σ) Player).run :=
    fun template => Keeps.bind_run (keeps_readText? _) fun _ =>
      Keeps.bind_run (keeps_readText? _) fun _ =>
      keeps_pure _
  refine Keeps.bind_run (keeps_readText? _) fun nested => ?_
  cases nested with
  | some text => exact hrest text
  | none =>
    refine Keeps.bind_run (keeps_readText? _) fun flat => ?_
    cases flat with
    | some text => exact hrest text
    | none => exact keeps_pure _

end Player

section Documents

variable {σ : Type} [Files (StateM σ)] {R : Export.Context × σ → Export.Context × σ → Prop}
  [IsPreorder (Export.Context × σ) R]

lemma leads_encoded? (h : Lookups R) (path directory : String) :
    Leads R (encoded? path directory : Export.ExportM (StateM σ) _) :=
  leads_get.bind fun _ => (leads_liftM fun c s => h.resolve c s _ path directory).bind fun _ =>
    (leads_modify fun c s => h.media c s _).bind fun _ => (leads_liftExcept _).bind fun _ =>
      leads_pure _

lemma leads_required (h : Lookups R) (path directory : String) :
    Leads R (required path directory : Export.ExportM (StateM σ) _) := by
  refine (leads_encoded? h path directory).bind fun found => ?_
  cases found with
  | none => exact leads_throw _
  | some text => exact leads_pure _

lemma leads_addConverted (h : Lookups R) (directory source converted : String) (table : Table) :
    Leads R (addConverted directory source converted table : Export.ExportM (StateM σ) _) := by
  refine leads_get.bind fun c => ?_
  split
  · exact (leads_modify fun c s => h.messages c s _).bind fun _ => leads_pure _
  · refine (leads_encoded? h converted directory).bind fun found => ?_
    cases found with
    | none => exact (leads_modify fun c s => h.messages c s _).bind fun _ => leads_pure _
    | some text => exact leads_pure _

lemma leads_addImage (h : Lookups R) (directory : String) (table : Table)
    (image : Manifest.ImageEntry) :
    Leads R (addImage directory table image : Export.ExportM (StateM σ) _) := by
  unfold addImage
  split
  · exact leads_pure _
  · refine (leads_required h _ _).bind fun value => leads_get.bind fun c => ?_
    split
    · exact leads_pure _
    · split
      · exact leads_pure _
      · exact Leads.bind (leads_addConverted h _ _ _ _) fun _ => leads_addConverted h _ _ _ _

lemma leads_addSound (h : Lookups R) (directory : String) (table : Table)
    (sound : Manifest.SoundEntry) :
    Leads R (addSound directory table sound : Export.ExportM (StateM σ) _) := by
  unfold addSound
  refine (leads_required h _ _).bind fun value => leads_get.bind fun c => ?_
  split
  · exact leads_pure _
  · split
    · exact leads_pure _
    · exact leads_addConverted h _ _ _ _

lemma leads_addAsset (h : Lookups R) (player : String) (table : Table) (name : String) :
    Leads R (addAsset player table name : Export.ExportM (StateM σ) _) := by
  refine (leads_encoded? h _ _).bind fun found => ?_
  cases found with
  | none => exact (leads_modify fun c s => h.messages c s _).bind fun _ => leads_pure _
  | some text => exact leads_pure _

lemma leads_dataTable (h : Lookups R) (output : Export.Output) (player : String) :
    Leads R (dataTable output player : Export.ExportM (StateM σ) _) :=
  leads_get.bind fun _ => (leads_foldlM (leads_addImage h _) _ _).bind fun _ =>
    (leads_foldlM (leads_addSound h _) _ _).bind fun _ =>
      (leads_foldlM (leads_addAsset h player) _ _).bind fun _ => leads_get.bind fun _ =>
        leads_pure _

lemma leads_exportHtml (h : Lookups R) {p : Project}
    (hscene : ∀ path c s, R (c, s) ((Export.after (Export.exportScene p path true) c).2, s))
    (path : String) (player : Player) :
    Leads R (exportHtml p path player : Export.ExportM (StateM σ) _) :=
  leads_get.bind fun _ => (leads_liftContext (hscene _)).bind fun _ =>
    (leads_dataTable h _ _).bind fun _ =>
    leads_get.bind fun _ => (leads_liftExcept _).bind fun _ => (leads_liftExcept _).bind fun _ =>
      leads_liftExcept _

end Documents

section Files

variable {σ : Type} [Files (StateM σ)] [Export.LooksOnly σ] {R : σ → σ → Prop} [IsPreorder σ R]

/-- Of the files alone. -/
lemma lookups_files : Lookups (Order.Preimage (Prod.snd : Export.Context × σ → σ) R) where
  resolve c s media path directory := by
    obtain ⟨media', hrun, -⟩ := media.run_resolve path directory s
    rw [hrun]
    exact refl_of R s
  media _ s _ := refl_of R s
  messages _ s _ := refl_of R s

/-- The export of a document keeps what the write of the document keeps. -/
theorem keepsFiles_writeHtml (p : Project) (path : String) (player : Player)
    (hwrite : ∀ bytes, Keeps R (Export.writeWhole (documentPath path) bytes : StateM σ _)) :
    Leads (Order.Preimage (Prod.snd : Export.Context × σ → σ) R) (writeHtml p path player) :=
  (leads_exportHtml lookups_files (fun _ _ s => refl_of R s) _ player).bind fun _ =>
    (leads_liftM fun _ s => hwrite _ s).bind fun _ => (leads_liftExcept _).bind fun _ =>
      leads_pure _

end Files

end Html

end SceneExport
