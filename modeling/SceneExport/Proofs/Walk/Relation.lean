import Mathlib
import SceneExport.Proofs.Walk.Stepwise

/-!
# Walks side by side

Two walks over one project are compared step by step. A walk reads the marks, the sections and the
messages of its state, and only images and sounds read more, for the sake of their files. So two
walks that start from related states end alike, in related states, as soon as this holds for images
and sounds, and the relation does not care for the rest of the manifest. A relation of each state to
itself is an invariant.
-/
namespace SceneExport.Export.Walk

open Manifest (Ref)
open Project (Scene)

/-- Run from related states, the step ends alike and in related states. -/
def Respects {β : Type} (R : Walk → Walk → Prop) (m : WalkM β) : Prop :=
  ∀ ⦃w v⦄, R w v → (after m v).1 = (after m w).1 ∧ R (after m w).2 (after m v).2

/-- The state with other marks, sections and messages. -/
def gathered (w : Walk) (exported : List String) (sections : Sections)
    (messages : Messages) : Walk :=
  { w with context := { w.context with exported, sections, messages } }

section Steps

variable {β γ : Type} {R : Walk → Walk → Prop}

lemma respects_pure (b : β) : Respects R (pure b) := fun _ _ h => ⟨rfl, h⟩

lemma respects_throw (e : Error) : Respects R (throw e : WalkM β) := fun _ _ h => ⟨rfl, h⟩

lemma respects_bind {m : WalkM β} {f : β → WalkM γ} (hm : Respects R m)
    (hf : ∀ b, Respects R (f b)) : Respects R (m >>= f) := by
  intro w v h
  obtain ⟨heq, hnext⟩ := hm h
  rw [after_bind, after_bind]
  rcases hw : after m w with ⟨_ | b, w'⟩
  · rcases hv : after m v with ⟨_ | _, v'⟩
    · simp_all
    · simp_all
  · rcases hv : after m v with ⟨_ | b', v'⟩
    · simp_all
    · rw [hw, hv] at heq hnext
      obtain rfl : b' = b := Except.ok.inj heq
      exact hf b' hnext

lemma respects_tryCatch {m : WalkM β} {f : Error → WalkM β} (hm : Respects R m)
    (hf : ∀ e, Respects R (f e)) : Respects R (tryCatch m f) := by
  intro w v h
  obtain ⟨heq, hnext⟩ := hm h
  rw [after_tryCatch, after_tryCatch]
  rcases hw : after m w with ⟨e | b, w'⟩
  · rcases hv : after m v with ⟨e' | _, v'⟩
    · rw [hw, hv] at heq hnext
      obtain rfl : e' = e := Except.error.inj heq
      exact hf e' hnext
    · simp_all
  · rcases hv : after m v with ⟨_ | _, v'⟩
    · simp_all
    · rw [hw, hv] at heq hnext
      exact ⟨heq, hnext⟩

/-- What a step reads of its state is the same in related states. -/
lemma respects_get_bind {f : Walk → WalkM γ} (hread : ∀ ⦃w v⦄, R w v → f v = f w)
    (hf : ∀ w, Respects R (f w)) : Respects R (get >>= f) := by
  intro w v h
  change (after (f v) v).1 = (after (f w) w).1 ∧ R (after (f w) w).2 (after (f v) v).2
  rw [hread h]
  exact hf w h

lemma recovers_respects : Recovers fun _ m => Respects R m :=
  fun _ _ _ hm hf => respects_tryCatch hm fun e => hf e (respects_throw e)

end Steps

/-- The relation is kept by all steps of a walk, provided that it is kept by those that write images
and sounds. -/
structure Follows (R : Walk → Walk → Prop) : Prop where
  exported : ∀ ⦃w v⦄, R w v → v.context.exported = w.context.exported
  sections : ∀ ⦃w v⦄, R w v → v.context.sections = w.context.sections
  messages : ∀ ⦃w v⦄, R w v → v.context.messages = w.context.messages
  gathered : ∀ ⦃w v⦄, R w v → ∀ exported sections messages,
    R (w.gathered exported sections messages) (v.gathered exported sections messages)
  manifest : ∀ ⦃w v⦄, R w v → ∀ f : Manifest → Manifest,
    (∀ m, (f m).images = m.images ∧ (f m).sounds = m.sounds) →
    R { w with manifest := f w.manifest } { v with manifest := f v.manifest }

namespace Follows

variable {β : Type} {p : Project} {R : Walk → Walk → Prop}

lemma marked (h : Follows R) (uuid : String) {w v : Walk} (hwv : R w v) :
    R (w.marked uuid) (v.marked uuid) := by
  have hstep := h.gathered hwv (uuid :: w.context.exported) w.context.sections w.context.messages
  have heq : v.marked uuid =
      v.gathered (uuid :: w.context.exported) w.context.sections w.context.messages := by
    rw [← h.exported hwv, ← h.sections hwv, ← h.messages hwv]
    rfl
  rw [heq]
  exact hstep

/-- The same marks, sections and messages are set in both states. -/
lemma respects_changeContext (h : Follows R) {f : Context → Context}
    (hf : ∀ ⦃w v⦄, R w v → ∃ exported sections messages,
      f w.context = { w.context with exported, sections, messages } ∧
      f v.context = { v.context with exported, sections, messages }) :
      Respects R (changeContext f) := by
  intro w v hwv
  obtain ⟨exported, sections, messages, hw, hv⟩ := hf hwv
  have hstep := h.gathered hwv exported sections messages
  have hafter : ∀ u : Walk, after (changeContext f) u =
      (.ok (), { u with context := f u.context }) :=
    fun _ => rfl
  rw [hafter, hafter, hw, hv]
  exact ⟨rfl, hstep⟩

lemma respects_changeMessages (h : Follows R) (f : Messages → Messages) :
    Respects R (changeContext fun c => { c with messages := f c.messages }) := by
  refine h.respects_changeContext fun w v hwv =>
    ⟨w.context.exported, w.context.sections, _, rfl, ?_⟩
  rw [← h.exported hwv, ← h.sections hwv, h.messages hwv]

lemma respects_changeManifest (h : Follows R) {f : Manifest → Manifest}
    (hf : ∀ m, (f m).images = m.images ∧ (f m).sounds = m.sounds) : Respects R (changeManifest f) :=
  fun _ _ hwv => ⟨rfl, h.manifest hwv f hf⟩

lemma respects_warn (h : Follows R) (text : String) : Respects R (warn text) :=
  h.respects_changeMessages fun messages => messages.warn text

lemma respects_err (h : Follows R) (text : String) : Respects R (err text) :=
  h.respects_changeMessages fun messages => messages.err text

lemma respects_push (h : Follows R) (f : Sections → β × Sections) : Respects R (push f) := by
  intro w v hwv
  have hstep := h.gathered hwv w.context.exported (f w.context.sections).2 w.context.messages
  have hafter : ∀ u : Walk, after (push f) u = (.ok (f u.context.sections).1,
      u.gathered u.context.exported (f u.context.sections).2 u.context.messages) := fun _ => rfl
  rw [hafter, hafter, h.exported hwv, h.sections hwv, h.messages hwv]
  exact ⟨rfl, hstep⟩

lemma respects_once (h : Follows R) {uuid : String} {write : WalkM Unit}
    (hwrite : Respects R write) : Respects R (once uuid write) := by
  have hafter : ∀ u : Walk, after (once uuid write) u =
      if uuid ∈ u.context.exported then (.ok ⟨uuid⟩, u)
      else after (write >>= fun _ => pure ⟨uuid⟩) (u.marked uuid) := by
    intro u
    by_cases hmem : uuid ∈ u.context.exported
    · rw [if_pos hmem]
      exact runs_once.mpr ⟨rfl, .inl ⟨hmem, rfl⟩⟩
    · rw [if_neg hmem]
      rcases hrun : after (write >>= fun _ => pure ⟨uuid⟩ : WalkM Ref) (u.marked uuid)
        with ⟨e | r, u'⟩
      · have hfails := fails_bind.mp hrun
        simp only [not_fails_pure, and_false, exists_false, or_false] at hfails
        exact fails_once.mpr ⟨hmem, hfails⟩
      · obtain ⟨_, _, hwritten, hlast⟩ := runs_bind.mp hrun
        obtain ⟨rfl, rfl⟩ := runs_pure.mp hlast
        exact runs_once.mpr ⟨rfl, .inr ⟨hmem, hwritten⟩⟩
  intro w v hwv
  rw [hafter, hafter, h.exported hwv]
  split
  · exact ⟨rfl, hwv⟩
  · exact respects_bind hwrite (fun _ => respects_pure _) (h.marked uuid hwv)

lemma respects_writeAction (h : Follows R) (action : Action Float) :
    Respects R (writeAction p action) := by
  apply h.respects_once
  refine respects_get_bind (fun w v hwv => ?_) fun u => ?_
  · dsimp only
    rw [h.sections hwv, h.messages hwv]
  · refine respects_bind ?_ fun _ => h.respects_changeManifest fun _ => ⟨rfl, rfl⟩
    refine h.respects_changeContext fun w v hwv => ⟨w.context.exported, _, _, rfl, ?_⟩
    rw [← h.exported hwv]

/-- Both walks climb to the same objects, since they have the same marks. -/
lemma stepwise (h : Follows R) : Stepwise p fun _ m => Respects R m where
  done := respects_pure
  seq := respects_bind
  refused _ _ := respects_throw _
  marked := h.respects_once
  warned := h.respects_warn
  noted := h.respects_err
  filed hf := h.respects_changeManifest fun m => ⟨(hf m).images, (hf m).sounds⟩
  climbed hread hf := by
    refine respects_get_bind (fun w v hwv => ?_) fun u => respects_bind ?_ fun _ => hf u
    · rw [h.exported hwv, hread w v (h.exported hwv)]
    · refine h.respects_changeContext fun w v hwv =>
        ⟨_, w.context.sections, w.context.messages, rfl, ?_⟩
      rw [← h.sections hwv, ← h.messages hwv]

/-- A walk respects every relation that its images and sounds respect. -/
theorem respects_run (h : Follows R)
    (himage : ∀ image, p.image? image.name = some image → Respects R (writeImage p image))
    (hsound : ∀ sound, p.sound? sound.name = some sound → Respects R (writeSound p sound))
    (scenes : List Scene) : Respects R (run p scenes) := by
  refine h.stepwise.throughout recovers_respects h.respects_push himage hsound
    h.respects_writeAction ?_ ?_ scenes
  · exact fun _ => h.respects_changeManifest fun _ => ⟨rfl, rfl⟩
  · exact fun _ => h.respects_changeManifest fun _ => ⟨rfl, rfl⟩

end Follows

end SceneExport.Export.Walk
