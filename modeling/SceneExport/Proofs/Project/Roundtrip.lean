import Mathlib
import SceneExport.Project.Codec
import SceneExport.Proofs.Bytes.Base64
import SceneExport.Proofs.Json.Roundtrip

/-!
# Projects are read back

A project *fits* when its whole numbers have the widths that they are read with: 32 bits for frames,
64 bits for components of curves and positions of bones. Every kind of datablock is exact on those
that fit. Skeletons pass their check again, and packed content comes back from its base64 form.
-/
namespace SceneExport

open Json (Codec Shape)
open Json.Codec
open Json.Member

lemma Interpolation.exact_codec : Interpolation.codec.Exact fun _ => True :=
  .of_forall fun a => faithful_oneOf (by cases a <;> rfl)

lemma Target.exact_codec : Target.codec.Exact fun _ => True :=
  .of_forall fun a => faithful_oneOf (by cases a <;> rfl)

lemma IdRoot.exact_codec : IdRoot.codec.Exact fun _ => True :=
  .of_forall fun a => faithful_oneOf (by cases a <;> rfl)

lemma Handle.exact_codec : Handle.codec.Exact fun _ => True :=
  exact_double.pair.imap (fun _ _ => ⟨⟨trivial, trivial⟩, rfl⟩) fun _ _ => trivial

lemma Key.exact_codec : Key.codec.Exact fun _ => True :=
  Shape.Exact.codec (.field (exact_required _ Handle.exact_codec) <|
    .field (exact_required _ Handle.exact_codec) <| .field (exact_required _ Handle.exact_codec) <|
    .field (exact_defaulted _ Interpolation.exact_codec trivial) .done)
    (by decide) (fun _ => rfl) (fun _ => rfl) (by simp)

def Curve.Fits (c : Curve Float) : Prop := IsSize c.index

lemma Curve.exact_codec : Curve.codec.Exact Curve.Fits :=
  Shape.Exact.codec
    (.field (exact_required _ Target.exact_codec) <| .field (exact_required _ exact_size) <|
    .field (exact_listed _ Key.exact_codec) .done)
    (by decide) (fun _ => rfl) (fun _ => rfl) (by simp [Curve.Fits])

def Group.Fits (g : Group Float) : Prop := ∀ c ∈ g.channels, c.Fits

lemma Group.exact_codec : Group.codec.Exact Group.Fits :=
  Shape.Exact.codec
    (.field (exact_required _ exact_text) <| .field (exact_listed _ Curve.exact_codec) .done)
    (by decide) (fun _ => rfl) (fun _ => rfl) (by simp [Group.Fits])

def Action.Fits (a : Action Float) : Prop := ∀ g ∈ a.groups, g.Fits

lemma Action.exact_codec : Action.codec.Exact Action.Fits :=
  Shape.Exact.codec (.field (exact_required _ exact_text) <|
    .field (exact_defaulted _ IdRoot.exact_codec trivial) <|
    .field (exact_required _ exact_double.pair) <| .field (exact_listed _ Group.exact_codec) .done)
    (by decide) (fun _ => rfl) (fun _ => rfl) (by simp [Action.Fits])

def Library.Fits (l : Library Float) : Prop := ∀ a ∈ l.actions, a.Fits

lemma Library.exact_codec : Library.codec.Exact Library.Fits :=
  Action.exact_codec.list.imap (fun _ hl => ⟨hl, rfl⟩) fun _ hactions => hactions

lemma Mat.ofEntries_toEntries (m : Mat4 Float) : Mat.ofEntries m.toEntries = m := by
  have hentry : ∀ row column : Fin 4, m.toEntries[4 * column.val + row.val] =
      m.entry row column := by
    intro row column
    have hrow : (4 * column.val + row.val) % 4 = row.val := by omega
    have hcolumn : (4 * column.val + row.val) / 4 = column.val := by omega
    simp [Mat.toEntries, hrow, hcolumn]
  obtain ⟨columns⟩ := m
  simp only [Mat.ofEntries, hentry, Mat.ofFn, Mat.entry, Mat.mk.injEq]
  ext column hcolumn row hrow
  simp

lemma Mat.exact_codec : Mat.codec.Exact fun _ => True :=
  (exact_double.block 16).imap (fun m _ => ⟨fun _ _ => trivial, Mat.ofEntries_toEntries m⟩)
    fun _ _ => trivial

def Bone.Fits (b : Bone Float) : Prop := ∀ i ∈ b.parent, IsSize i

lemma Bone.exact_codec : Bone.codec.Exact Bone.Fits :=
  Shape.Exact.codec
    (.field (exact_required _ exact_text) <| .field (exact_required _ Mat.exact_codec) <|
    .field (exact_nullable _ exact_size fun _ h => nomatch h) <|
    .field (exact_defaulted _ exact_bool trivial) .done)
    (by decide) (fun _ => rfl) (fun _ => rfl) (by simp [Bone.Fits])

def Skeleton.Fits (s : Skeleton Float) : Prop := ∀ b ∈ s.bones, b.Fits

lemma Skeleton.toOption_ofBones {α : Type} {bones : List (Bone α)} {s : Skeleton α} :
    (Skeleton.ofBones bones).toOption = some s ↔ s.bones = bones := by
  unfold Skeleton.ofBones
  constructor
  · intro h
    split at h
    · exact Option.some.inj h ▸ rfl
    · exact nomatch h
  · rintro rfl
    split
    · rfl
    · next hflaw => exact absurd (hflaw.symm.trans s.sound) (by simp)

lemma Skeleton.exact_codec : Skeleton.codec.Exact Skeleton.Fits :=
  Exact.checked
    (Shape.Exact.codec (.field (exact_required _ Bone.exact_codec.list) .done)
      (by decide) (fun _ => rfl) (fun _ => rfl) (fun _ => Iff.rfl))
    (fun _ hs => ⟨⟨hs, trivial⟩, Skeleton.toOption_ofBones.2 rfl⟩)
    fun _ _ hbones hs => by
      obtain rfl := Skeleton.toOption_ofBones.1 hs
      exact hbones.1

def Bake.VertexFrame.Fits (f : Bake.VertexFrame) : Prop := IsInt32 f.frame

lemma Bake.VertexFrame.exact_codec : Bake.VertexFrame.codec.Exact Bake.VertexFrame.Fits :=
  Shape.Exact.codec
    (.field (exact_required _ exact_int32) <|
      .field (exact_required _ (exact_single.vector 6).list) .done)
    (by decide) (fun _ => rfl) (fun _ => rfl) (by simp [Bake.VertexFrame.Fits])

structure Bake.VertexAnimation.Fits (a : Bake.VertexAnimation) : Prop where
  start : IsInt32 a.start
  stop : IsInt32 a.stop
  averagingInterval : IsInt32 a.averagingInterval
  frames : ∀ f ∈ a.frames, f.Fits

lemma Bake.VertexAnimation.exact_codec :
    Bake.VertexAnimation.codec.Exact Bake.VertexAnimation.Fits :=
  Shape.Exact.codec
    (.field (exact_required _ exact_text) <| .field (exact_required _ exact_int32) <|
    .field (exact_required _ exact_int32) <| .field (exact_defaulted _ exact_bool trivial) <|
    .field (exact_defaulted _ exact_int32 (by decide)) <|
    .field (exact_defaulted _ exact_bool trivial) <|
    .field (exact_listed _ Bake.VertexFrame.exact_codec) .done)
    (by decide) (fun _ => rfl) (fun _ => rfl) fun _ =>
      ⟨fun h => ⟨trivial, h.start, h.stop, trivial, h.averagingInterval, trivial,
        h.frames, trivial⟩,
        fun ⟨_, hstart, hstop, _, hinterval, _, hframes, _⟩ => ⟨hstart, hstop, hinterval, hframes⟩⟩

namespace Project

lemma exact_packedCodec : packedCodec.Exact fun _ => True := by
  have hbytes : (Codec.text.checked Base64.decode? Base64.encode).Exact fun _ => True :=
    .of_forall fun bytes => (faithful_text _).checked (Base64.decode?_encode bytes)
  have hoption := hbytes.option fun _ h => nomatch h
  exact ⟨fun o _ => hoption.faithful o fun _ _ => trivial, fun _ _ _ => trivial⟩

structure Scene.Fits (s : Scene) : Prop where
  frameStart : IsInt32 s.frameStart
  frameEnd : IsInt32 s.frameEnd

lemma Scene.exact_codec : Scene.codec.Exact Scene.Fits :=
  Shape.Exact.codec (.field (exact_required _ exact_text) <| .field (exact_optional _) <|
    .field (exact_listed _ exact_text) <| .field (exact_defaulted _ exact_int32 (by decide)) <|
    .field (exact_defaulted _ exact_int32 (by decide)) <|
    .field (exact_defaulted _ exact_double trivial) <|
    .field (exact_optional _) <| .field (exact_defaulted _ exact_bool trivial) .done)
    (by decide) (fun _ => rfl) (fun _ => rfl) fun _ =>
      ⟨fun h => ⟨trivial, trivial, fun _ _ => trivial, h.frameStart, h.frameEnd, trivial, trivial,
        trivial, trivial⟩, fun ⟨_, _, _, hstart, hend, _⟩ => ⟨hstart, hend⟩⟩

lemma ObjectKind.exact_codec : ObjectKind.codec.Exact fun _ => True :=
  .of_forall fun a => faithful_oneOf (by cases a <;> rfl)

lemma AnimationData.exact_codec : AnimationData.codec.Exact fun _ => True :=
  Shape.Exact.codec (.field (exact_optional _) .done) (by decide) (fun _ => rfl)
    (fun _ => rfl) (by simp)

def Object.Fits (o : Object) : Prop := ∀ a ∈ o.vertexAnimations, a.Fits

lemma Object.exact_codec : Object.codec.Exact Object.Fits :=
  Shape.Exact.codec (.field (exact_required _ exact_text) <| .field (exact_optional _) <|
    .field (exact_defaulted _ ObjectKind.exact_codec trivial) <| .field (exact_optional _) <|
    .field (exact_optional _) <|
    .field (exact_defaulted _ (exact_double.vector 16) fun _ _ => trivial) <|
    .field (exact_defaulted _ (AnimationData.exact_codec.option fun _ h => nomatch h)
      fun _ _ => trivial) <|
    .field (exact_listed _ exact_text) <| .field (exact_defaulted _ exact_bool trivial) <|
    .field (exact_listed _ Bake.VertexAnimation.exact_codec) <|
    .field (exact_defaulted _ exact_bool trivial) .done)
    (by decide) (fun _ => rfl) (fun _ => rfl) (by simp [Object.Fits])

lemma Mesh.exact_codec : Mesh.codec.Exact fun _ => True :=
  Shape.Exact.codec (.field (exact_required _ exact_text) <| .field (exact_optional _) <|
    .field (exact_listed _ (exact_single.vector 3)) <|
    .field (exact_listed _ (exact_single.vector 3)) <|
    .field (exact_listed _ exact_word32) <| .field (exact_listed _ exact_text) .done)
    (by decide) (fun _ => rfl) (fun _ => rfl) (by simp)

lemma Material.exact_codec : Material.codec.Exact fun _ => True :=
  Shape.Exact.codec (.field (exact_required _ exact_text) <| .field (exact_optional _) <|
    .field (exact_defaulted _ (exact_single.vector 3) fun _ _ => trivial) <|
    .field (exact_defaulted _ exact_single trivial) <|
    .field (exact_defaulted _ exact_bool trivial) <| .field (exact_listed _ exact_text) .done)
    (by decide) (fun _ => rfl) (fun _ => rfl) (by simp)

lemma Texture.exact_codec : Texture.codec.Exact fun _ => True :=
  Shape.Exact.codec
    (.field (exact_required _ exact_text) <| .field (exact_optional _) <|
      .field (exact_optional _) .done)
    (by decide) (fun _ => rfl) (fun _ => rfl) (by simp)

lemma ImageSource.exact_codec : ImageSource.codec.Exact fun _ => True :=
  .of_forall fun a => faithful_oneOf (by cases a <;> rfl)

lemma Image.exact_codec : Image.codec.Exact fun _ => True :=
  Shape.Exact.codec (.field (exact_required _ exact_text) <| .field (exact_optional _) <|
    .field (exact_defaulted _ exact_text trivial) <|
    .field (exact_defaulted _ ImageSource.exact_codec trivial) <|
    .field (exact_defaulted _ exact_word32.pair ⟨trivial, trivial⟩) <|
    .field (exact_defaulted _ exact_text trivial) <|
    .field (exact_defaulted _ exact_bool trivial) <|
    .field (exact_defaulted _ exact_text trivial) <|
    .field (exact_defaulted _ exact_packedCodec trivial) .done)
    (by decide) (fun _ => rfl) (fun _ => rfl) (by simp)

lemma Sound.exact_codec : Sound.codec.Exact fun _ => True :=
  Shape.Exact.codec (.field (exact_required _ exact_text) <| .field (exact_optional _) <|
    .field (exact_defaulted _ exact_text trivial) <|
    .field (exact_defaulted _ exact_packedCodec trivial) .done)
    (by decide) (fun _ => rfl) (fun _ => rfl) (by simp)

lemma Speaker.exact_codec : Speaker.codec.Exact fun _ => True :=
  Shape.Exact.codec (.field (exact_required _ exact_text) <| .field (exact_optional _) <|
    .field (exact_optional _) <|
    .field (exact_defaulted _ exact_double trivial) <|
    .field (exact_defaulted _ exact_double trivial) <|
    .field (exact_defaulted _ exact_bool trivial) <|
    .field (exact_defaulted _ exact_double trivial) <|
    .field (exact_defaulted _ exact_bool trivial) .done)
    (by decide) (fun _ => rfl) (fun _ => rfl) (by simp)

def Armature.Fits (a : Armature) : Prop := a.skeleton.Fits

lemma Armature.exact_codec : Armature.codec.Exact Armature.Fits :=
  Shape.Exact.codec (.field (exact_required _ exact_text) <| .field (exact_optional _) <|
    .field (exact_required _ Skeleton.exact_codec) .done)
    (by decide) (fun _ => rfl) (fun _ => rfl) (by simp [Armature.Fits])

/-- The whole numbers of the project have the widths that they are read with. -/
structure Fits (p : Project) : Prop where
  scenes : ∀ s ∈ p.scenes, s.Fits
  objects : ∀ o ∈ p.objects, o.Fits
  armatures : ∀ a ∈ p.armatures, a.Fits
  actions : p.actions.Fits

theorem exact_codec : codec.Exact Fits :=
  Shape.Exact.codec (.field (exact_defaulted _ exact_text trivial) <| .field (exact_optional _) <|
    .field (exact_optional _) <| .field (exact_listed _ Scene.exact_codec) <|
    .field (exact_listed _ Object.exact_codec) <| .field (exact_listed _ Mesh.exact_codec) <|
    .field (exact_listed _ Material.exact_codec) <| .field (exact_listed _ Texture.exact_codec) <|
    .field (exact_listed _ Image.exact_codec) <| .field (exact_listed _ Sound.exact_codec) <|
    .field (exact_listed _ Speaker.exact_codec) <| .field (exact_listed _ Armature.exact_codec) <|
    .field (exact_defaulted _ Library.exact_codec fun _ ha => nomatch ha) .done)
    (by decide) (fun _ => rfl) (fun _ => rfl) fun _ =>
      ⟨fun h => ⟨trivial, trivial, trivial, h.scenes, h.objects, fun _ _ => trivial,
        fun _ _ => trivial,
          fun _ _ => trivial, fun _ _ => trivial, fun _ _ => trivial, fun _ _ => trivial,
          h.armatures, h.actions, trivial⟩,
        fun ⟨_, _, _, hscenes, hobjects, _, _, _, _, _, _, harmatures, hactions, _⟩ =>
          ⟨hscenes, hobjects, harmatures, hactions⟩⟩

/-- A project that was read fits, also under another path and with another export path. -/
lemma fits_of_ofText {text : String} {p : Project} (h : codec.ofText text = .ok p)
    (filepath : String) (exportPath : Option String) :
    Fits { p with filepath, exportPathJson := exportPath } := by
  obtain ⟨p', hread, hrest⟩ := bind_eq_ok.1 h
  obtain rfl : p' = p := by
    split_ifs at hrest
    exact Except.ok.inj hrest
  have hfits := exact_codec.sound _ _ hread
  exact ⟨hfits.scenes, hfits.objects, hfits.armatures, hfits.actions⟩

/-- No path is a number. -/
lemma numbers_write (p : Project) (filepath : String) (exportPath : Option String) :
    (codec.write { p with filepath, exportPathJson := exportPath }).numbers =
      (codec.write p).numbers := by
  obtain ⟨_, exportPath', _, _, _, _, _, _, _, _, _, _, _⟩ := p
  cases exportPath <;> cases exportPath' <;> rfl

/-- A settled project from a text is read back once it is saved. -/
theorem ofText_toText {text : String} {p : Project} (h : codec.ofText text = .ok p)
    (hsettled : (codec.write p).Settled) (filepath : String) (exportPath : Option String)
    (style : Json.Style) :
    codec.ofText (codec.toText style { p with filepath, exportPathJson := exportPath }) =
      .ok { p with filepath, exportPathJson := exportPath } := by
  have hfaithful := exact_codec.faithful _ (fits_of_ofText h filepath exportPath)
  refine hfaithful.ofText_toText (fun n hn => hsettled n ?_) style
  rwa [numbers_write] at hn

end Project

end SceneExport
