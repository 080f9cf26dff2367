import Mathlib
import SceneExport.Proofs.Files.Keeping
import SceneExport.Proofs.Walk.Tolerance

/-!
# Messages of a bundle

When the table of a bundle is filled, files are looked for one after another, and some that are not
there are noted: converted media and files of the player. That packed media have no converted form
is noted without looking. The manifest in the table has the messages of the walk and then these,
each list in order, and nothing else. A strict export is let through only if there are none at all;
else it fails with the numbers of those that came up until then.
-/
namespace SceneExport

namespace Manifest

def messages (m : Manifest) : Messages := ⟨m.warnings, m.errors⟩

/-- The manifest with other messages. -/
def withMessages (m : Manifest) (messages : Messages) : Manifest :=
  { m with warnings := messages.warnings, errors := messages.errors }

end Manifest

namespace Export

variable {σ β γ : Type} {c c' : Context} {s s' : σ} {e : Error}

/-- From a context and files the step fails, leaving a context and files. -/
def FailsOn (m : ExportM (StateM σ) β) (c : Context) (s : σ) (e : Error) (c' : Context)
    (s' : σ) : Prop :=
  onFiles m c s = ((.error e, c'), s')

lemma failsOn_bind {m : ExportM (StateM σ) β} {f : β → ExportM (StateM σ) γ} :
    FailsOn (m >>= f) c s e c' s' ↔
      FailsOn m c s e c' s' ∨ ∃ b c₁ s₁, RunsOn m c s b c₁ s₁ ∧ FailsOn (f b) c₁ s₁ e c' s' := by
  unfold FailsOn RunsOn
  rw [onFiles_bind]
  rcases onFiles m c s with ⟨⟨_ | b, c₁⟩, s₁⟩ <;> simp

@[simp] theorem not_failsOn_get : ¬ FailsOn (get : ExportM (StateM σ) Context) c s e c' s' := by
  change ¬ (((.ok c, c), s) : (Except Error Context × Context) × σ) = ((.error e, c'), s')
  simp

@[simp] theorem failsOn_liftExcept {result : Except Error β} :
    FailsOn (liftExcept result : ExportM (StateM σ) β) c s e c' s' ↔
      result = .error e ∧ c' = c ∧ s' = s := by
  cases result with
  | error e' =>
    change (((.error e', c), s) : (Except Error β × Context) × σ) = ((.error e, c'), s') ↔ _
    simp [eq_comm, and_assoc]
  | ok b =>
    change (((.ok b, c), s) : (Except Error β × Context) × σ) = ((.error e, c'), s') ↔ _
    simp

@[simp] theorem failsOn_liftContext {step : ContextM β} :
    FailsOn (liftContext step : ExportM (StateM σ) β) c s e c' s' ↔ Fails step c e c' ∧ s' = s := by
  unfold FailsOn Fails
  rw [onFiles_liftContext]
  simp [eq_comm]

lemma Tolerant.counts?_of_failsOn {m : ExportM (StateM σ) β} (hm : Tolerant m)
    (h : FailsOn m c s e c' s') : e.counts? = none := by
  have hresult := SatisfiesM_Id_eq.mp (SatisfiesM_StateT_eq.mp (SatisfiesM_StateT_eq.mp hm c) s) e
  have hrun : ((ExceptT.run m).run c).run s = ((.error e, c'), s') := h
  rw [hrun] at hresult
  exact hresult rfl

end Export

namespace Html

open Export (Context Error ExportM FailsOn Media Output RunsOn Tolerant)
open Manifest (ImageEntry SoundEntry)

/-- What comes up while the table of a bundle is filled. -/
inductive Inquiry where
  /-- A file is looked for, and these notes are made if it is not there. -/
  | file (path directory : String) (absent : List Note)
  /-- A note is made without looking. -/
  | remark (note : Note)

/-- The notes about a file, by what it is resolved to. -/
def notesOn (absent : List Note) : Except Error (Option Bytes) → List Note
  | .ok none => absent
  | _ => []

section Inquiries

variable {σ : Type} [Files (StateM σ)]

/-- The notes about one inquiry. -/
def Inquiry.answer (media : Media) : Inquiry → StateM σ (List Note)
  | .remark note => pure [note]
  | .file path directory absent => do
    let (found, _) ← media.resolve path directory
    return notesOn absent found

/-- The notes about inquiries that are made one after another. -/
def answers (media : Media) (inquiries : List Inquiry) : StateM σ (List Note) := do
  return (← inquiries.mapM (Inquiry.answer media)).flatten

end Inquiries

/-- Packed media have no converted form. -/
def convertedInquiry (c : Context) (source converted : String) : Inquiry :=
  if c.media.isPacked source then
    .remark (.error
      ("Packed media '" ++ source ++ "' has not been exported to '" ++ converted ++ "'"))
  else
    .file converted (Path.directory c.path)
      [.warning ("Converted media '" ++ converted ++ "' not found.")]

/-- Images must be there. Movies may have two converted forms. -/
def imageInquiries (c : Context) (e : ImageEntry) : List Inquiry :=
  if e.source ≠ "FILE" && e.source ≠ "MOVIE" then []
  else
    [.file e.filepath (Path.directory c.path) []] ++
      if e.source ≠ "MOVIE" || !c.config.convertedMedia then []
      else
        (movieVariant? e.filepath).elim [] fun converted =>
          [convertedInquiry c e.filepath converted,
            convertedInquiry c e.filepath (Path.stem e.filepath ++ ".altconv.seq")]

/-- Sounds must be there, and may have a converted form. -/
def soundInquiries (c : Context) (e : SoundEntry) : List Inquiry :=
  [.file e.filepath (Path.directory c.path) []] ++
    if !c.config.convertedMedia then []
    else (soundVariant? e.filepath).toList.map (convertedInquiry c e.filepath)

def assetInquiry (player name : String) : Inquiry :=
  .file (Path.join player name) ""
    [.warning ("Runtime file '" ++ Path.join player name ++ "' not found.")]

/-- All inquiries about a manifest, in order. -/
def inquiries (c : Context) (m : Manifest) (player : String) : List Inquiry :=
  m.images.flatMap (imageInquiries c) ++ m.sounds.flatMap (soundInquiries c) ++
    c.config.runtimeAssets.map (assetInquiry player)

section Steps

variable {σ β γ : Type} [Files (StateM σ)] {c₀ c c' : Context} {s s' s'' : σ}
    {asked asked' : List Inquiry}

lemma run_answers (media : Media) (asked : List Inquiry) (s : σ) : (answers media asked).run s =
    (((asked.mapM (Inquiry.answer media)).run s).1.flatten,
      ((asked.mapM (Inquiry.answer media)).run s).2) := rfl

lemma answers_append {media : Media} {notes notes' : List Note}
    (h : (answers media asked).run s = (notes, s'))
    (h' : (answers media asked').run s' = (notes', s'')) :
    (answers media (asked ++ asked')).run s = (notes ++ notes', s'') := by
  rcases hrun : (asked.mapM (Inquiry.answer media)).run s with ⟨found, s₁⟩
  rcases hrun' : (asked'.mapM (Inquiry.answer media)).run s' with ⟨found', s₂⟩
  rw [run_answers, hrun] at h
  rw [run_answers, hrun'] at h'
  cases h
  cases h'
  rw [run_answers, run_mapM_append hrun hrun', List.flatten_append]

lemma answers_singleton {media : Media} {inquiry : Inquiry} {notes : List Note}
    (h : (inquiry.answer media).run s = (notes, s')) :
    (answers media [inquiry]).run s = (notes, s') := by
  have hnil : (([] : List Inquiry).mapM (Inquiry.answer media)).run s' = ([], s') := rfl
  rw [run_answers, run_mapM_cons h hnil, List.flatten_singleton]

lemma run_answer_file {media media' : Media} {path directory : String} {absent : List Note}
    {found : Except Error (Option Bytes)}
    (h : (media.resolve path directory : StateM σ _).run s = ((found, media'), s')) :
    ((Inquiry.file path directory absent).answer media).run s = (notesOn absent found, s') := by
  rw [Inquiry.answer, StateT.run_bind, h]
  rfl

/-- Whatever the counters of the media are, a resource is resolved to the same. -/
lemma run_resolve_congr {media media' : Media} (h : media'.packed = media.packed)
    (path directory : String) (s : σ) :
    ∃ found media₁ media₂ s', (media.resolve path directory : StateM σ _).run s =
      ((found, media₁), s') ∧
      (media'.resolve path directory : StateM σ _).run s = ((found, media₂), s') ∧
      media₂.packed = media'.packed := by
  cases hlookup : media.packed.lookup path with
  | some content =>
    unfold Media.resolve
    rw [h, hlookup]
    exact ⟨_, _, _, _, rfl, rfl, rfl⟩
  | none =>
    rw [Media.run_resolve_file hlookup, Media.run_resolve_file (h ▸ hlookup)]
    rcases (Files.isFile (Media.diskPath path directory) : StateM σ Bool).run s with ⟨_ | _, s₁⟩
    · exact ⟨_, _, _, _, rfl, rfl, rfl⟩
    · dsimp only
      rcases (Files.read (Media.diskPath path directory) : StateM σ (Except String Bytes)).run s₁
        with ⟨_ | content, s₂⟩
      · exact ⟨_, _, _, _, rfl, rfl, rfl⟩
      · exact ⟨_, _, _, _, rfl, rfl, rfl⟩

/-- The step makes the inquiries and notes what there is to note. -/
def Asks (c₀ : Context) (asked : List Inquiry) (m : ExportM (StateM σ) β) : Prop :=
  ∀ ⦃c s b c' s'⦄, Alike c₀ c → RunsOn m c s b c' s' → Alike c₀ c' ∧
    ∃ notes, (answers c₀.media asked).run s = (notes, s') ∧ c'.messages = c.messages.noted notes

lemma asks_pure (b : β) : Asks c₀ [] (pure b : ExportM (StateM σ) β) := by
  intro c s _ c' s' hc h
  obtain ⟨-, rfl, rfl⟩ := Export.runsOn_pure.mp h
  exact ⟨hc, [], rfl, (Messages.noted_nil _).symm⟩

lemma Asks.bind {m : ExportM (StateM σ) β} {f : β → ExportM (StateM σ) γ} (hm : Asks c₀ asked m)
    (hf : ∀ b, Asks c₀ asked' (f b)) : Asks c₀ (asked ++ asked') (m >>= f) := by
  intro c s r c' s' hc h
  obtain ⟨b, c₁, s₁, h₁, h⟩ := Export.runsOn_bind.mp h
  obtain ⟨hc₁, notes, hnotes, hmessages⟩ := hm hc h₁
  obtain ⟨hc', notes', hnotes', hmessages'⟩ := hf b hc₁ h
  refine ⟨hc', notes ++ notes', answers_append hnotes hnotes', ?_⟩
  rw [hmessages', hmessages, Messages.noted_noted]

lemma asks_foldlM {f : γ → β → ExportM (StateM σ) γ} {askedOf : β → List Inquiry}
    (hf : ∀ a x, Asks c₀ (askedOf x) (f a x)) (xs : List β) (a : γ) :
    Asks c₀ (xs.flatMap askedOf) (xs.foldlM f a) := by
  induction xs generalizing a with
  | nil => exact asks_pure a
  | cons x xs ih =>
    rw [List.flatMap_cons, List.foldlM_cons]
    exact (hf a x).bind ih

/-- A step that depends on packed media and options only. -/
lemma asks_get {f : Context → ExportM (StateM σ) β} (hf : ∀ c, Alike c₀ c → Asks c₀ asked (f c)) :
    Asks c₀ asked (get >>= f) := by
  intro c s b c' s' hc h
  obtain ⟨_, _, _, ⟨rfl, rfl, rfl⟩, h⟩ := Export.runsOn_bind.mp h
  exact hf c hc hc h

/-- A file is looked for. What is done next depends on whether it is there. -/
lemma asks_encoded? {path directory : String} {absent : List Note}
    {f : Option String → ExportM (StateM σ) β} (hsome : ∀ text, Asks c₀ [] (f (some text)))
    (hnone : ∀ ⦃c s b c' s'⦄, Alike c₀ c → RunsOn (f none) c s b c' s' →
      Alike c₀ c' ∧ s' = s ∧ c'.messages = c.messages.noted absent) :
    Asks c₀ [.file path directory absent] (encoded? path directory >>= f) := by
  intro c s b c' s' hc h
  obtain ⟨r, c₁, s₁, hencoded, h⟩ := Export.runsOn_bind.mp h
  unfold encoded? at hencoded
  simp only [Export.runsOn_bind, Export.runsOn_get, Export.runsOn_liftM, Export.runsOn_modify,
    Export.runsOn_liftExcept, Export.runsOn_pure] at hencoded
  obtain ⟨_, c, s, ⟨rfl, rfl, rfl⟩, ⟨found, media⟩, _, s₁, ⟨hrun, rfl⟩, _, _, _, ⟨rfl, rfl⟩,
      content, _, _,
    ⟨hfound, rfl, rfl⟩, rfl, rfl, rfl⟩ := hencoded
  obtain ⟨found', media₁, media₂, s₂, hresolve, hresolve', hpacked⟩ :=
    run_resolve_congr hc.packed path directory s
  rw [hresolve'] at hrun
  cases hrun
  have hc₁ : Alike c₀ { c with media } := ⟨hpacked.trans hc.packed, hc.config⟩
  obtain rfl : found = .ok content := hfound
  have hanswer : (answers c₀.media [.file path directory absent]).run s =
      (notesOn absent (.ok content), s₁) :=
    answers_singleton (run_answer_file hresolve)
  cases content with
  | some content =>
    obtain ⟨hc', notes, hnotes, hmessages⟩ := hsome _ hc₁ h
    cases hnotes
    exact ⟨hc', [], hanswer, hmessages⟩
  | none =>
    obtain ⟨hc', rfl, hmessages⟩ := hnone hc₁ h
    exact ⟨hc', absent, hanswer, hmessages⟩

lemma asks_required (path directory : String) :
    Asks c₀ [.file path directory []] (required path directory : ExportM (StateM σ) _) := by
  refine asks_encoded? (fun text => asks_pure _) fun c s b c' s' _ h => ?_
  exact absurd h Export.not_runsOn_throw

omit [Files (StateM σ)] in
/-- Something is noted and then the step is over. -/
lemma runsOn_warn {text : String} {b b' : β}
    (h : RunsOn (do modify fun c => c.warn text; return b : ExportM (StateM σ) β) c s b' c' s') :
    (Alike c₀ c → Alike c₀ c') ∧ s' = s ∧ c'.messages = c.messages.noted [.warning text] := by
  simp only [Export.runsOn_bind, Export.runsOn_modify, Export.runsOn_pure] at h
  obtain ⟨_, _, _, ⟨rfl, rfl⟩, -, rfl, rfl⟩ := h
  exact ⟨fun hc => ⟨hc.packed, hc.config⟩, rfl, Messages.warn_eq _ text⟩

lemma asks_addConverted (source converted : String) (table : Table) :
    Asks c₀ [convertedInquiry c₀ source converted]
      (addConverted (Path.directory c₀.path) source converted table : ExportM (StateM σ) _) := by
  refine asks_get fun c hc => ?_
  rw [convertedInquiry, hc.isPacked]
  split
  · intro c s b c' s' hc h
    simp only [Export.runsOn_bind, Export.runsOn_modify, Export.runsOn_pure] at h
    obtain ⟨_, _, _, ⟨rfl, rfl⟩, -, rfl, rfl⟩ := h
    exact ⟨⟨hc.packed, hc.config⟩, _, answers_singleton rfl, Messages.err_eq _ _⟩
  · refine asks_encoded? (fun text => asks_pure _) fun c s b c' s' hc h => ?_
    obtain ⟨hc', hfiles, hmessages⟩ := runsOn_warn h
    exact ⟨hc' hc, hfiles, hmessages⟩

lemma asks_addImage (table : Table) (e : ImageEntry) :
    Asks c₀ (imageInquiries c₀ e)
      (addImage (Path.directory c₀.path) table e : ExportM (StateM σ) _) := by
  unfold addImage imageInquiries
  split
  · exact asks_pure _
  · refine (asks_required e.filepath _).bind fun value => asks_get fun c hc => ?_
    rw [hc.config]
    split
    · exact asks_pure _
    · cases movieVariant? e.filepath with
      | none => exact asks_pure _
      | some converted => exact (asks_addConverted _ converted _).bind (asks_addConverted _ _)

lemma asks_addSound (table : Table) (e : SoundEntry) :
    Asks c₀ (soundInquiries c₀ e)
      (addSound (Path.directory c₀.path) table e : ExportM (StateM σ) _) := by
  unfold addSound soundInquiries
  refine (asks_required e.filepath _).bind fun value => asks_get fun c hc => ?_
  rw [hc.config]
  split
  · exact asks_pure _
  · cases soundVariant? e.filepath with
    | none => exact asks_pure _
    | some converted => exact asks_addConverted _ converted _

lemma asks_addAsset (player : String) (table : Table) (name : String) :
    Asks c₀ [assetInquiry player name] (addAsset player table name : ExportM (StateM σ) _) := by
  refine asks_encoded? (fun text => asks_pure _) fun c s b c' s' hc h => ?_
  obtain ⟨hc', hfiles, hmessages⟩ := runsOn_warn h
  exact ⟨hc' hc, hfiles, hmessages⟩

/-- A table that is filled has the manifest with the messages that have come up since the export. -/
lemma asks_dataTable {out : Output} {player : String} {table : Table}
    (h : RunsOn (dataTable out player : ExportM (StateM σ) _) c s table c' s') :
    c'.config = c.config ∧
      table.lookup c.config.mainFile = some (.text ((embedded out.manifest c c').toText .compact)) ∧
      ∃ notes, (answers c.media (inquiries c out.manifest player)).run s = (notes, s') ∧
        c'.messages = c.messages.noted notes := by
  unfold dataTable at h
  obtain ⟨_, _, _, ⟨rfl, rfl, rfl⟩, h⟩ := Export.runsOn_bind.mp h
  obtain ⟨table₁, c₁, s₁, himages, h⟩ := Export.runsOn_bind.mp h
  obtain ⟨table₂, c₂, s₂, hsounds, h⟩ := Export.runsOn_bind.mp h
  obtain ⟨table₃, c₃, s₃, hassets, h⟩ := Export.runsOn_bind.mp h
  simp only [Export.runsOn_bind, Export.runsOn_get, Export.runsOn_pure] at h
  obtain ⟨_, _, _, ⟨rfl, rfl, rfl⟩, rfl, rfl, rfl⟩ := h
  obtain ⟨hc₁, images, hrun₁, hmessages₁⟩ := asks_foldlM asks_addImage _ _ ⟨rfl, rfl⟩ himages
  obtain ⟨hc₂, sounds, hrun₂, hmessages₂⟩ := asks_foldlM asks_addSound _ _ hc₁ hsounds
  obtain ⟨hc₃, assets, hrun₃, hmessages₃⟩ := asks_foldlM (asks_addAsset player) _ _ hc₂ hassets
  refine ⟨hc₃.config, ?_, images ++ sounds ++ assets, ?_, ?_⟩
  · rw [Entries.lookup_put, if_pos rfl]
    rfl
  · rw [inquiries, List.map_eq_flatMap]
    exact answers_append (answers_append hrun₁ hrun₂) hrun₃
  · rw [hmessages₃, hmessages₂, hmessages₁, Messages.noted_noted, Messages.noted_noted,
      List.append_assoc]

end Steps

section Failures

open Export (tolerant_get tolerant_modify tolerant_pure tolerant_throw)

variable {n : Type → Type} [Monad n] [LawfulMonad n] [Files n]

/-- A resource that cannot be read is no matter of messages. -/
lemma resolve_satisfies (media : Media) (path directory : String) :
    SatisfiesM (fun r => ∀ e, r.1 = .error e → e.counts? = none)
      (media.resolve path directory : n (Except Error (Option Bytes) × Media)) := by
  unfold Media.resolve
  cases media.packed.lookup path with
  | some content => exact SatisfiesM.pure (by simp)
  | none =>
    refine SatisfiesM.trivial.bind fun found _ => ?_
    cases found with
    | false => exact SatisfiesM.pure (by simp)
    | true =>
      refine SatisfiesM.trivial.bind fun content _ => ?_
      cases content with
      | ok content => exact SatisfiesM.pure (by simp)
      | error reason =>
        refine SatisfiesM.pure fun e he => ?_
        cases he
        rfl

lemma tolerant_encoded? (path directory : String) :
    Tolerant (encoded? path directory : ExportM n _) := by
  refine tolerant_get.bind fun c => Export.tolerant_liftM_bind (resolve_satisfies _ path directory)
    fun r hr => ?_
  exact (tolerant_modify _).bind fun _ => (Export.tolerant_liftExcept hr).bind fun _ =>
    tolerant_pure _

lemma tolerant_required (path directory : String) :
    Tolerant (required path directory : ExportM n _) := by
  refine (tolerant_encoded? path directory).bind fun found => ?_
  cases found with
  | none => exact tolerant_throw rfl
  | some text => exact tolerant_pure _

lemma tolerant_addConverted (directory source converted : String) (table : Table) :
    Tolerant (addConverted directory source converted table : ExportM n _) := by
  refine tolerant_get.bind fun c => ?_
  split
  · exact (tolerant_modify _).bind fun _ => tolerant_pure _
  · refine (tolerant_encoded? converted directory).bind fun found => ?_
    cases found with
    | none => exact (tolerant_modify _).bind fun _ => tolerant_pure _
    | some text => exact tolerant_pure _

lemma tolerant_addImage (directory : String) (table : Table) (e : ImageEntry) :
    Tolerant (addImage directory table e : ExportM n _) := by
  unfold addImage
  split
  · exact tolerant_pure _
  · refine (tolerant_required e.filepath directory).bind fun value => tolerant_get.bind fun c => ?_
    split
    · exact tolerant_pure _
    · cases movieVariant? e.filepath with
      | none => exact tolerant_pure _
      | some converted =>
        exact (tolerant_addConverted _ _ converted _).bind fun _ => tolerant_addConverted _ _ _ _

lemma tolerant_addSound (directory : String) (table : Table) (e : SoundEntry) :
    Tolerant (addSound directory table e : ExportM n _) := by
  refine (tolerant_required e.filepath directory).bind fun value => tolerant_get.bind fun c => ?_
  split
  · exact tolerant_pure _
  · cases soundVariant? e.filepath with
    | none => exact tolerant_pure _
    | some converted => exact tolerant_addConverted _ _ converted _

lemma tolerant_addAsset (player : String) (table : Table) (name : String) :
    Tolerant (addAsset player table name : ExportM n _) := by
  refine (tolerant_encoded? _ "").bind fun found => ?_
  cases found with
  | none => exact (tolerant_modify _).bind fun _ => tolerant_pure _
  | some text => exact tolerant_pure _

lemma tolerant_dataTable (out : Output) (player : String) :
    Tolerant (dataTable out player : ExportM n _) :=
  tolerant_get.bind fun _ => (Export.tolerant_foldlM (tolerant_addImage _) _ _).bind fun _ =>
    (Export.tolerant_foldlM (tolerant_addSound _) _ _).bind fun _ =>
      (Export.tolerant_foldlM (tolerant_addAsset player) _ _).bind fun _ => tolerant_get.bind
        fun _ => tolerant_pure _

end Failures

/-- Where the manifest of a document stands. -/
def manifestPath (c : Context) (path : String) : String :=
  Path.join (Path.directory path) c.config.mainFile

section Bundles

variable {σ : Type} [Files (StateM σ)] {p : Project} {path : String} {player : Player}
    {c c' : Context} {s s' : σ}

/-- A strict export of a document fails on account of messages after the walk or after the table. -/
lemma failsOn_exportHtml_strict {warnings errors : Nat}
    (h : FailsOn (exportHtml p path player) c s (.strict warnings errors) c' s') :
    (Export.Fails (Export.exportScene p (manifestPath c path) true) c (.strict warnings errors) c' ∧
      s' = s) ∨
    ∃ out c₁ table, Export.Runs (Export.exportScene p (manifestPath c path) true) c out c₁ ∧
      RunsOn (dataTable out player.directory) c₁ s table c' s' ∧
      c'.checkStrict = .error (.strict warnings errors) := by
  unfold exportHtml at h
  simp only [Export.failsOn_bind, Export.runsOn_get, Export.not_failsOn_get, false_or,
    Export.failsOn_liftContext, Export.runsOn_liftContext, Export.failsOn_liftExcept,
    Export.runsOn_liftExcept] at h
  obtain ⟨_, _, _, ⟨rfl, rfl, rfl⟩, hscene | ⟨out, c₁, _, ⟨hscene, rfl⟩, h⟩⟩ := h
  · exact .inl hscene
  -- Of what comes after the walk only the count of messages can fail on account of them.
  rcases h with htable | ⟨table, c₂, s₂, htable, _, _, _, ⟨rfl, rfl, rfl⟩, h⟩
  · cases (tolerant_dataTable out player.directory).counts?_of_failsOn htable
  rcases h with ⟨hstrict, rfl, rfl⟩ | ⟨_, _, _, -, ⟨hsource, -⟩ | ⟨source, _, _, -, hbundle, -⟩⟩
  · exact .inr ⟨out, c₁, table, hscene, htable, hstrict⟩
  · generalize Path.sourceFromExport p.filepath path = found at hsource
    cases found <;> cases hsource
  · unfold bundle at hbundle
    generalize Template.fill player.template _ = filled at hbundle
    cases filled <;> cases hbundle

lemma checkStrict_exportHtml {text : String}
    (h : RunsOn (exportHtml p path player) c s text c' s') :
    c'.checkStrict = .ok () := by
  unfold exportHtml at h
  simp only [Export.runsOn_bind, Export.runsOn_get, Export.runsOn_liftContext,
    Export.runsOn_liftExcept] at h
  obtain ⟨_, _, _, -, out, c₁, s₁, -, table, c₂, s₂, -, _, _, _, ⟨rfl, rfl, rfl⟩, _, _, _,
      ⟨hstrict, rfl, rfl⟩, _, _, _,
    ⟨-, rfl, rfl⟩, -, rfl, rfl⟩ := h
  exact hstrict

/-- The manifest in a table has all messages of the context, those of the walk and those that came
later. -/
lemma embedded_eq {html : Bool} {out : Output} {c₁ : Context} {late : List Note}
    (h : Export.Runs (Export.exportScene p path html) c out c₁)
    (hlate : c'.messages = c₁.messages.noted late) :
    embedded out.manifest c₁ c' = out.manifest.withMessages c'.messages := by
  obtain ⟨-, _, _, -, -, -, rfl⟩ := Export.runs_exportScene.mp h
  unfold embedded Manifest.withMessages
  rw [hlate]
  simp [Export.Output.ofWalk, Messages.noted]

/-- A strict export is stopped by notes: there are some, and these are their numbers. -/
def StoppedBy (c : Context) (notes : List Note) (warnings errors : Nat) : Prop :=
  c.config.strict = true ∧ notes ≠ [] ∧ warnings = (Messages.ofNotes notes).warnings.length ∧
    errors = (Messages.ofNotes notes).errors.length

lemma stoppedBy_of_checkStrict {notes : List Note} {warnings errors : Nat}
    (hconfig : c'.config = c.config) (hmessages : c'.messages = .ofNotes notes)
    (h : c'.checkStrict = .error (.strict warnings errors)) :
    StoppedBy c notes warnings errors := by
  rw [Export.checkStrict_eq_strict_iff, hconfig, hmessages] at h
  obtain ⟨hstrict, hsome, hwarnings, herrors⟩ := h
  exact ⟨hstrict, fun hnil => hsome (Messages.ofNotes_eq_empty.mpr hnil), hwarnings, herrors⟩

lemma exportScene_raises {html : Bool} {out : Output}
    (h : Export.Runs (Export.exportScene p path html) c out c') :
    ∃ notes, Export.Raises p path notes ∧
      c'.messages = .ofNotes notes ∧ out.manifest.messages = .ofNotes notes ∧
      (c.config.strict = true → out.manifest.messages = .empty) := by
  obtain ⟨-, source, m, -, hwalk, hstrict, rfl⟩ := Export.runs_exportScene.mp h
  obtain ⟨notes, hraises, hmessages⟩ := Export.raises_run hwalk
  refine ⟨notes, hraises, hmessages, hmessages, ?_⟩
  rw [Export.checkStrict_eq_ok_iff, (Export.exportScene_keeps h).1] at hstrict
  exact hstrict

lemma exportScene_stopped {html : Bool} {warnings errors : Nat}
    (h : Export.Fails (Export.exportScene p path html) c (.strict warnings errors) c') :
    ∃ notes, Export.Raises p path notes ∧ StoppedBy c notes warnings errors := by
  obtain ⟨source, m, hwalk, hstrict⟩ := Export.fails_exportScene_strict h
  obtain ⟨notes, hraises, hmessages⟩ := Export.raises_run hwalk
  have hconfig := (Export.after_exportScene_keeps p path html c).1
  rw [h] at hconfig
  exact ⟨notes, hraises, stoppedBy_of_checkStrict hconfig hmessages hstrict⟩

lemma exportHtml_raises {out : Output} {c₁ : Context} {table : Table}
    (hscene : Export.Runs (Export.exportScene p (manifestPath c path) true) c out c₁)
    (htable : RunsOn (dataTable out player.directory) c₁ s table c' s') : ∃ notes late,
      Export.Raises p (manifestPath c path) notes ∧
      (answers c₁.media (inquiries c₁ out.manifest player.directory)).run s = (late, s') ∧
      c'.messages = .ofNotes (notes ++ late) ∧ c'.config = c.config ∧
      table.lookup c.config.mainFile =
        some (.text ((out.manifest.withMessages (.ofNotes (notes ++ late))).toText .compact)) := by
  obtain ⟨notes, hraises, hmessages, -⟩ := exportScene_raises hscene
  obtain ⟨hconfig, hlookup, late, hlate, hmessages'⟩ := asks_dataTable htable
  have hall : c'.messages = .ofNotes (notes ++ late) := by
    rw [hmessages', hmessages, Messages.ofNotes_append]
  have hkept := (Export.exportScene_keeps hscene).1
  rw [embedded_eq hscene hmessages', hall, hkept] at hlookup
  exact ⟨notes, late, hraises, hlate, hall, hconfig.trans hkept, hlookup⟩

/-- The lists of a manifest have the messages of the notes that an export has to raise, in order. In
the manifest of a bundle the notes about its files come behind them. A strict export that ends well
has no notes, and one that is stopped fails with the numbers of all notes up to there. -/
theorem exportHtml_reports (p : Project) (c : Context) :
    (∀ path html out c', Export.Runs (Export.exportScene p path html) c out c' →
      ∃ notes, Export.Raises p path notes ∧ out.manifest.messages = .ofNotes notes ∧
        (c.config.strict = true → out.manifest.messages = .empty)) ∧
    (∀ path html warnings errors c',
      Export.Fails (Export.exportScene p path html) c (.strict warnings errors) c' →
      ∃ notes, Export.Raises p path notes ∧ StoppedBy c notes warnings errors) ∧
    (∀ path player (s : σ) text c' s', RunsOn (exportHtml p path player) c s text c' s' →
      ∃ out c₁ table source notes late,
        Export.Runs (Export.exportScene p (manifestPath c path) true) c out c₁ ∧
        Export.Raises p (manifestPath c path) notes ∧
        (answers c₁.media (inquiries c₁ out.manifest player.directory)).run s = (late, s') ∧
        table.lookup c.config.mainFile =
          some (.text ((out.manifest.withMessages (.ofNotes (notes ++ late))).toText .compact)) ∧
        bundle player.template player.script player.style (Json.object table).compact
          (metaTag source) = .ok text ∧
        (c.config.strict = true → Messages.ofNotes (notes ++ late) = .empty)) ∧
    ∀ path player (s : σ) warnings errors c' s',
      FailsOn (exportHtml p path player) c s (.strict warnings errors) c' s' →
      ∃ notes, Export.Raises p (manifestPath c path) notes ∧
        ((Export.Fails (Export.exportScene p (manifestPath c path) true) c
          (.strict warnings errors) c' ∧ StoppedBy c notes warnings errors) ∨
        ∃ out c₁ late, Export.Runs (Export.exportScene p (manifestPath c path) true) c out c₁ ∧
          (answers c₁.media (inquiries c₁ out.manifest player.directory)).run s = (late, s') ∧
          StoppedBy c (notes ++ late) warnings errors) := by
  refine ⟨fun path html out c' h => ?_, fun _ _ _ _ _ h => exportScene_stopped h,
    fun path player s text c' s' h => ?_, fun path player s warnings errors c' s' h => ?_⟩
  · obtain ⟨notes, hraises, -, hlists, hempty⟩ := exportScene_raises h
    exact ⟨notes, hraises, hlists, hempty⟩
  · obtain ⟨out, c₁, table, source, hscene, htable, hbundle⟩ := runsOn_exportHtml h
    obtain ⟨notes, late, hraises, hlate, hmessages, hconfig, hlookup⟩ :=
      exportHtml_raises hscene htable
    have hstrict := checkStrict_exportHtml h
    rw [Export.checkStrict_eq_ok_iff, hconfig, hmessages] at hstrict
    exact ⟨out, c₁, table, source, notes, late, hscene, hraises, hlate, hlookup, hbundle, hstrict⟩
  · rcases failsOn_exportHtml_strict h with ⟨hscene, -⟩ | ⟨out, c₁, table, hscene, htable, hstrict⟩
    · obtain ⟨notes, hraises, hstop⟩ := exportScene_stopped hscene
      exact ⟨notes, hraises, .inl ⟨hscene, hstop⟩⟩
    · obtain ⟨notes, late, hraises, hlate, hmessages, hconfig, -⟩ := exportHtml_raises hscene htable
      exact ⟨notes, hraises,
        .inr ⟨out, c₁, late, hscene, hlate, stoppedBy_of_checkStrict hconfig hmessages hstrict⟩⟩

end Bundles

/-- The bell swings by an action that does not exist, and there is one without curves. -/
def peal : Project :=
  { chime with
    objects :=
      [⟨"bell", none, .speaker, some "clapper", none, .replicate 16 0, some ⟨some "swing"⟩, [],
        false, [], false⟩]
    actions := ⟨[⟨"toll", .object, (1, 2), []⟩]⟩ }

/-- A context that allows no messages, in which the player has a file that is named like the
sound. -/
def wary : Context := { crossed with config.strict := true }

def stop? {β : Type} : Except Error β → Option (Nat × Nat)
  | .ok _ => none
  | .error e => e.counts?

lemma eq_of_stop? {β : Type} {result : Except Error β} {warnings errors : Nat}
    (h : stop? result = some (warnings, errors)) : result = .error (.strict warnings errors) := by
  rcases result with e | b
  · cases e <;> cases h
    rfl
  · cases h

/-- What is noted about the bell and the action. -/
def pealNotes : List Note :=
  [.warning "Object \"bell\" references a missing action \"swing\".",
    .warning "The action \"toll\" has no fcurves."]

/-- What is noted about the file of the player. -/
def pealLate : List Note := [.warning "Runtime file '/player/stroke.ogg' not found."]

/-- The manifest of a bundle has the messages of the walk, of the actions and of the files. The same
project is stopped in strict mode after the walk, and one without messages until then after the
table. -/
theorem peal_reports :
    (∃ text c' s' table source out,
      RunsOn (exportHtml peal "/peal.html" barePlayer) crossed chimeDisk text c' s' ∧
      table.lookup "main.json" = some (.text
        ((Manifest.withMessages out (.ofNotes (pealNotes ++ pealLate))).toText .compact)) ∧
      bundle "$b4w_meta" "" "" (Json.object table).compact (metaTag source) = .ok text) ∧
    (∃ c' notes, Export.Fails (Export.exportScene peal "/main.json" true) wary (.strict 2 0) c' ∧
      Export.Raises peal "/main.json" notes ∧ StoppedBy wary notes 2 0) ∧
    ∃ c' s' notes late,
      FailsOn (exportHtml chime "/chime.html" barePlayer) wary chimeDisk (.strict 1 0) c' s' ∧
      Export.Raises chime "/main.json" notes ∧ StoppedBy wary (notes ++ late) 1 0 := by
  obtain ⟨hscenes, -, hdocuments, -⟩ := @exportHtml_reports Disk _ peal crossed
  obtain ⟨-, hstops, -⟩ := @exportHtml_reports Disk _ peal wary
  obtain ⟨-, -, -, hlater⟩ := @exportHtml_reports Disk _ chime wary
  refine ⟨?_, ?_, ?_⟩
  · obtain ⟨text, c', s', h⟩ := Export.exists_runsOn (m := exportHtml peal "/peal.html" barePlayer)
      (c := crossed) (s := chimeDisk) (by decide +kernel)
    obtain ⟨out, c₁, table, source, notes, late, hscene, hraises, hlate, hlookup, hbundle, -⟩ :=
      hdocuments _ _ _ _ _ _ h
    obtain ⟨notes', hraises', hmessages, -⟩ := hscenes _ _ _ _ hscene
    -- There is one chronicle, so the notes of the document are those of its walk.
    obtain rfl : notes = notes' := ((hraises notes').mp ((hraises' notes').mpr rfl)).symm
    have hvalues : (fun result : Except Error Output × Context => result.1.toOption.map fun out =>
        (out.manifest.messages,
          ((answers result.2.media (inquiries result.2 out.manifest "/player")).run chimeDisk).1))
        (Export.after (Export.exportScene peal "/main.json" true) crossed) =
          some (.ofNotes pealNotes, pealLate) := by decide +kernel
    have hafter : Export.after (Export.exportScene peal "/main.json" true) crossed =
        (.ok out, c₁) := hscene
    rw [hafter] at hvalues
    obtain ⟨hearly, hmissing⟩ := Prod.ext_iff.mp (Option.some.inj hvalues)
    have hwalk : out.manifest.messages = .ofNotes pealNotes := hearly
    obtain rfl : late = pealLate := (congrArg Prod.fst hlate).symm.trans hmissing
    rw [Messages.ofNotes_append, ← hmessages, hwalk, ← Messages.ofNotes_append] at hlookup
    exact ⟨text, c', s', table, source, out.manifest, h, hlookup, hbundle⟩
  · have hstop : stop? (Export.after (Export.exportScene peal "/main.json" true) wary).1 =
        some (2, 0) := by
      decide +kernel
    have hfails : Export.Fails (Export.exportScene peal "/main.json" true) wary (.strict 2 0)
        (Export.after (Export.exportScene peal "/main.json" true) wary).2 :=
          Prod.ext (eq_of_stop? hstop) rfl
    obtain ⟨notes, hraises, hstopped⟩ := hstops _ _ _ _ _ hfails
    exact ⟨_, notes, hfails, hraises, hstopped⟩
  · have hstop :
        stop? (Export.onFiles (exportHtml chime "/chime.html" barePlayer) wary chimeDisk).1.1 =
        some (1, 0) := by decide +kernel
    have hfails : FailsOn (exportHtml chime "/chime.html" barePlayer) wary chimeDisk (.strict 1 0)
        (Export.onFiles (exportHtml chime "/chime.html" barePlayer) wary chimeDisk).1.2
        (Export.onFiles (exportHtml chime "/chime.html" barePlayer) wary chimeDisk).2 :=
      Prod.ext (Prod.ext (eq_of_stop? hstop) rfl) rfl
    obtain ⟨notes, hraises, ⟨hscene, -⟩ | ⟨_, _, late, -, -, hstopped⟩⟩ :=
      hlater _ _ _ _ _ _ _ hfails
    · have hok : (Export.after (Export.exportScene chime "/main.json" true) wary).1.isOk =
          true := by decide +kernel
      have hafter : Export.after (Export.exportScene chime "/main.json" true) wary =
          (.error (.strict 1 0), _) := hscene
      rw [hafter] at hok
      cases hok
    · exact ⟨_, _, notes, late, hfails, hraises, hstopped⟩

end Html

end SceneExport
