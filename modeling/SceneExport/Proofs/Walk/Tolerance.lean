import Mathlib
import SceneExport.Proofs.Walk.Chronicle
import SceneExport.Proofs.Walk.Stepwise

/-!
# Failures on account of messages

Only strict exports fail on account of messages, and only where they count them. All other steps put
up with any messages: whatever they fail with, it is something else.
-/
namespace SceneExport.Export

/-- The numbers of warnings and errors that a failure is on account of. -/
def Error.counts? : Error → Option (Nat × Nat)
  | .strict warnings errors => some (warnings, errors)
  | _ => none

section Tolerant

variable {n : Type → Type} [Monad n] [LawfulMonad n] {β γ : Type}

/-- The step does not fail on account of messages. -/
def Tolerant (m : ExceptT Error n β) : Prop :=
  SatisfiesM (fun result => ∀ e, result = .error e → e.counts? = none) m.run

lemma tolerant_pure (b : β) : Tolerant (pure b : ExceptT Error n β) :=
  SatisfiesM.pure (by simp)

lemma tolerant_throw {e : Error} (h : e.counts? = none) :
    Tolerant (throw e : ExceptT Error n β) := by
  refine SatisfiesM.pure fun e' he => ?_
  cases he
  exact h

lemma tolerant_throw_bind {e : Error} (h : e.counts? = none) (f : β → ExceptT Error n γ) :
    Tolerant (throw e >>= f) := by
  unfold Tolerant
  rw [ExceptT.run_bind, ExceptT.run_throw, pure_bind]
  exact tolerant_throw h

/-- A step that cannot fail. -/
lemma tolerant_lift (m : n β) : Tolerant (ExceptT.lift m) := by
  unfold Tolerant
  rw [ExceptT.run_lift]
  exact (SatisfiesM.trivial (x := m)).map (by simp)

lemma Tolerant.bind {m : ExceptT Error n β} {f : β → ExceptT Error n γ} (hm : Tolerant m)
    (hf : ∀ b, Tolerant (f b)) : Tolerant (m >>= f) := by
  unfold Tolerant
  rw [ExceptT.run_bind]
  refine SatisfiesM.bind hm fun result hresult => ?_
  cases result with
  | error e =>
    refine SatisfiesM.pure fun e' he => ?_
    cases he
    exact hresult e rfl
  | ok b => exact hf b

lemma tolerant_tryCatch {m : ExceptT Error n β} {handle : Error → ExceptT Error n β}
    (hm : Tolerant m) (hhandle : ∀ e, e.counts? = none → Tolerant (handle e)) :
    Tolerant (tryCatch m handle) := by
  unfold Tolerant
  rw [ExceptT.run_tryCatch]
  refine SatisfiesM.bind hm fun result hresult => ?_
  cases result with
  | error e => exact hhandle e (hresult e rfl)
  | ok b => exact tolerant_pure b

lemma tolerant_foldlM {f : γ → β → ExceptT Error n γ} (hf : ∀ a x, Tolerant (f a x)) (xs : List β)
    (a : γ) : Tolerant (xs.foldlM f a) := by
  induction xs generalizing a with
  | nil => exact tolerant_pure a
  | cons x xs ih =>
    rw [List.foldlM_cons]
    exact (hf a x).bind ih

end Tolerant

section States

variable {n : Type → Type} [Monad n] [LawfulMonad n] {σ : Type}

lemma tolerant_get :
    Tolerant (get : ExceptT Error (StateT σ n) σ) := tolerant_lift (get : StateT σ n σ)

lemma tolerant_modify (f : σ → σ) : Tolerant (modify f : ExceptT Error (StateT σ n) PUnit) :=
  tolerant_lift (modify f : StateT σ n PUnit)

/-- A step that cannot fail, and what is known of its result. -/
lemma tolerant_liftM_bind {β γ : Type} {P : β → Prop} {m : n β}
    {f : β → ExceptT Error (StateT σ n) γ} (hm : SatisfiesM P m) (hf : ∀ b, P b → Tolerant (f b)) :
    Tolerant ((liftM m : ExceptT Error (StateT σ n) β) >>= f) := by
  have hlift : SatisfiesM P (StateT.lift m : StateT σ n β) := by
    refine SatisfiesM_StateT_eq.mpr fun s => ?_
    rw [StateT.run_lift]
    exact hm.bind fun b hb => SatisfiesM.pure hb
  have hrun : ExceptT.run ((liftM m : ExceptT Error (StateT σ n) β) >>= f) =
      StateT.lift m >>= fun b => (f b).run := by
    change ExceptT.run (ExceptT.lift (StateT.lift m) >>= f) = _
    rw [ExceptT.run_bind, ExceptT.run_lift, bind_map_left]
  unfold Tolerant
  rw [hrun]
  exact hlift.bind hf

lemma tolerant_liftExcept {β : Type} {result : Except Error β}
    (h : ∀ e, result = .error e → e.counts? = none) :
    Tolerant (liftExcept result : ExportM n β) := by
  cases result with
  | error e => exact tolerant_throw (h e rfl)
  | ok b => exact tolerant_pure b

end States

lemma Tolerant.counts?_of_fails {σ β : Type} {m : ExceptT Error (StateM σ) β} (hm : Tolerant m)
    {w w' : σ} {e : Error} (h : Fails m w e w') : e.counts? = none := by
  have hresult := SatisfiesM_Id_eq.mp (SatisfiesM_StateT_eq.mp hm w) e
  have hrun : StateT.run (ExceptT.run m) w = (.error e, w') := h
  rw [hrun] at hresult
  exact hresult rfl

namespace Walk

open Project (Scene)

variable (p : Project) {β γ : Type}

lemma tolerant_changeContext (f : Context → Context) :
    Tolerant (changeContext f) := tolerant_modify _

lemma tolerant_changeManifest (f : Manifest → Manifest) :
    Tolerant (changeManifest f) := tolerant_modify _

lemma tolerant_push (f : Sections → β × Sections) : Tolerant (push f) :=
  tolerant_get.bind fun _ => (tolerant_changeContext _).bind fun _ => tolerant_pure _

lemma tolerant_once {uuid : String} {write : WalkM Unit} (h : Tolerant write) :
    Tolerant (once uuid write) := by
  refine tolerant_get.bind fun w => (tolerant_changeContext _).bind fun _ => ?_
  split
  · exact h.bind fun _ => tolerant_pure _
  · exact tolerant_pure _

lemma tolerant_mediaPath (filepath : String) (packed : Option Bytes) (usual : String) :
    Tolerant (mediaPath p filepath packed usual) := by
  refine tolerant_get.bind fun w => ?_
  cases packed with
  | some content => exact (tolerant_changeContext _).bind fun _ => tolerant_pure _
  | none =>
    dsimp only
    split
    · exact tolerant_throw_bind rfl _
    · split
      · exact tolerant_pure _
      · exact tolerant_throw rfl

lemma tolerant_writeAction (action : Action Float) : Tolerant (writeAction p action) :=
  tolerant_once (tolerant_get.bind fun _ => (tolerant_changeContext _).bind fun _ =>
    tolerant_changeManifest _)

lemma stepwise_tolerant : Stepwise p fun _ m => Tolerant m where
  done := tolerant_pure
  seq := Tolerant.bind
  refused _ _ := tolerant_throw rfl
  marked := tolerant_once
  warned _ := tolerant_changeContext _
  noted _ := tolerant_changeContext _
  filed _ := tolerant_changeManifest _
  climbed _ hf := tolerant_get.bind fun w => (tolerant_changeContext _).bind fun _ => hf w

lemma recovers_tolerant : Recovers fun _ m => Tolerant m :=
  fun _ _ _ hm hf => tolerant_tryCatch hm fun e he => hf e (tolerant_throw he)

theorem tolerant_run (scenes : List Scene) : Tolerant (run p scenes) := by
  have hsteps := stepwise_tolerant p
  refine hsteps.throughout recovers_tolerant tolerant_push (fun image _ => ?_) (fun sound _ => ?_)
    (tolerant_writeAction p) (fun _ => tolerant_changeManifest _)
    (fun _ => tolerant_changeManifest _) scenes
  · exact hsteps.image recovers_tolerant (tolerant_mediaPath p)
      (fun _ => tolerant_changeManifest _) image
  · exact hsteps.sound (tolerant_mediaPath p) (fun _ => tolerant_changeManifest _) sound

end Walk

section Exports

variable {p : Project} {path : String} {html : Bool} {c c' : Context}

lemma isEmpty_iff {m : Messages} : m.isEmpty = true ↔ m = .empty := by
  obtain ⟨warnings, errors⟩ := m
  simp [Messages.isEmpty, Messages.empty]

/-- In strict mode only an export without messages is let through. -/
lemma checkStrict_eq_ok_iff :
    c.checkStrict = .ok () ↔ (c.config.strict = true → c.messages = .empty) := by
  unfold Context.checkStrict
  rw [← isEmpty_iff]
  split <;> simp_all

lemma checkStrict_eq_strict_iff {warnings errors : Nat} :
    c.checkStrict = .error (.strict warnings errors) ↔
    c.config.strict = true ∧ c.messages ≠ .empty ∧ warnings = c.messages.warnings.length ∧
      errors = c.messages.errors.length := by
  unfold Context.checkStrict
  rw [Ne, ← isEmpty_iff]
  cases c.config.strict with
  | false => simp
  | true =>
    cases c.messages.isEmpty with
    | false => simp [@eq_comm Nat warnings, @eq_comm Nat errors]
    | true => simp

lemma fails_liftExcept {β : Type} {r : Except Error β} {e : Error} :
    Fails (liftExcept r : ContextM β) c e c' ↔ r = .error e ∧ c' = c := by
  cases r with
  | error e => simp [liftExcept, eq_comm]
  | ok a => simp [liftExcept]

lemma fails_of_runWalk {walk : WalkM Unit} {m : Manifest} {e : Error}
    (h : Fails (runWalk walk m) c e c') : ∃ w', Fails walk ⟨c, m⟩ e w' := by
  have hrun : Fails (liftExcept ((after walk ⟨c, m⟩).1.map fun _ => (after walk ⟨c, m⟩).2.manifest))
      (after walk ⟨c, m⟩).2.context e c' := h
  rw [fails_liftExcept] at hrun
  rcases hwalk : after walk ⟨c, m⟩ with ⟨e' | _, w'⟩
  · rw [hwalk] at hrun
    cases hrun.1
    exact ⟨w', hwalk⟩
  · rw [hwalk] at hrun
    cases hrun.1

/-- A strict export that fails on account of messages has come to the end of its walk. -/
theorem fails_exportScene_strict {warnings errors : Nat}
    (h : Fails (exportScene p path html) c (.strict warnings errors) c') :
    ∃ source m, Runs (Walk.run p (p.scenes.filter fun s => !s.doNotExport))
        ⟨c.begin path html, .empty c.config.formatVersion source⟩ () ⟨c', m⟩ ∧
      c'.checkStrict = .error (.strict warnings errors) := by
  unfold exportScene at h
  simp only [fails_bind, not_fails_modify, false_or, runs_modify] at h
  obtain ⟨_, _, rfl, h⟩ := h
  split at h
  · simp at h
  · simp only [fails_bind, fails_liftExcept, runs_liftExcept, not_fails_get, runs_get,
      not_fails_pure, false_or, runs_runWalk] at h
    rcases h with ⟨hsource, -⟩ | ⟨source, _, ⟨-, rfl⟩, _, _, ⟨rfl, rfl⟩,
      hwalk | ⟨m, _, hwalk, _, _, ⟨rfl, rfl⟩, h⟩⟩
    · generalize Path.sourceFromExport p.filepath path = found at hsource
      cases found <;> cases hsource
    · obtain ⟨_, hfail⟩ := fails_of_runWalk hwalk
      cases (Walk.tolerant_run p _).counts?_of_fails hfail
    · simp only [and_false, exists_false, or_false] at h
      obtain ⟨hstrict, rfl⟩ := h
      exact ⟨source, m, hwalk, hstrict⟩

end Exports

end SceneExport.Export
