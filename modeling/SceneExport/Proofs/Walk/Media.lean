import Mathlib
import SceneExport.Proofs.Walk.Relation
import SceneExport.Proofs.Walk.Visits

/-!
# The packed media of a walk

The walk of an export gathers the packed files of images and sounds under names made from their
contents. Its manifest names each of them: an entry of an image or sound with a packed file has the
path that this file is gathered under. Two files get the same name only if their digests agree. So
nothing is lost by gathering the first of them, as long as the digest keeps the contents of the
project's packed files apart.
-/
namespace SceneExport

namespace Identity

lemma length_digest (bytes : Bytes) : (digest bytes).toList.length = 64 := by
  simp [digest, Bytes.hex, Sha256.digest, Bytes.ofWord32]

lemma length_mediaDigest (bytes : Bytes) (html : Bool) :
    (mediaDigest bytes html).toList.length = 64 :=
  length_digest _

/-- A name tells the digest that it starts with. -/
lemma mediaDigest_eq_of_append_eq {a b : Bytes} {html : Bool} {extension extension' : String}
    (h : mediaDigest a html ++ extension = mediaDigest b html ++ extension') :
    mediaDigest a html = mediaDigest b html := by
  have hlist := congrArg String.toList h
  rw [String.toList_append, String.toList_append] at hlist
  have hlength : (mediaDigest a html).toList.length = (mediaDigest b html).toList.length := by
    rw [length_mediaDigest, length_mediaDigest]
  exact String.toList_inj.mp (List.append_inj_left hlist hlength)

end Identity

namespace Project

/-- The contents of all packed files. -/
def packedContents (p : Project) : List Bytes :=
  p.images.filterMap Image.packed ++ p.sounds.filterMap Sound.packed

/-- The digest keeps the contents of the project's packed files apart. -/
def ContentsApart (p : Project) (html : Bool) : Prop :=
  ∀ a ∈ p.packedContents, ∀ b ∈ p.packedContents,
    Identity.mediaDigest a html = Identity.mediaDigest b html → a = b

end Project

namespace Manifest

/-- An entry of an image or sound with this packed content has this path. -/
def Mentions (p : Project) (m : Manifest) (path : String) (content : Bytes) : Prop :=
  (∃ e ∈ m.images, e.filepath = path ∧ (p.image? e.name).bind Project.Image.packed = some content) ∨
    ∃ e ∈ m.sounds, e.filepath = path ∧ (p.sound? e.name).bind Project.Sound.packed = some content

lemma Mentions.mem_packedContents {p : Project} {m : Manifest} {path : String} {content : Bytes}
    (h : m.Mentions p path content) : content ∈ p.packedContents := by
  rcases h with ⟨_, -, -, hpacked⟩ | ⟨_, -, -, hpacked⟩
  · obtain ⟨image, hfound, hcontent⟩ := Option.bind_eq_some_iff.mp hpacked
    have hmem : image ∈ p.images := List.mem_of_find?_eq_some hfound
    exact List.mem_append_left _ (List.mem_filterMap.mpr ⟨image, hmem, hcontent⟩)
  · obtain ⟨sound, hfound, hcontent⟩ := Option.bind_eq_some_iff.mp hpacked
    have hmem : sound ∈ p.sounds := List.mem_of_find?_eq_some hfound
    exact List.mem_append_right _ (List.mem_filterMap.mpr ⟨sound, hmem, hcontent⟩)

end Manifest

namespace Export

open Manifest (ImageEntry SoundEntry)
open Project (Image Sound)

namespace Media

lemma lookup_register_of_lookup {media : Media} {path other : String} {content held : Bytes}
    (h : media.packed.lookup other = some held) :
    (media.register path content).2.packed.lookup other = some held := by
  unfold register
  split
  · exact h
  · rw [List.lookup_append, h, Option.some_or]

lemma lookup_register (media : Media) (path : String) (content : Bytes) :
    (media.register path content).2.packed.lookup path =
      some ((media.packed.lookup path).getD content) := by
  unfold register isPacked
  cases h : media.packed.lookup path with
  | none => simp [h, List.lookup_append]
  | some held => simp [h]

lemma mem_register {media : Media} {path : String} {content : Bytes} {file : String × Bytes}
    (h : file ∈ (media.register path content).2.packed) :
    file ∈ media.packed ∨ file = (path, content) := by
  unfold register at h
  split at h
  · exact .inl h
  · simpa using h

end Media

/-- A packed file is gathered under a path that is made from its content. -/
inductive Gathers (html : Bool) (media : Media) : Option Bytes → String → Media → Prop
  | none {path : String} : Gathers html media none path media
  | some (content : Bytes) (extension : String) :
    Gathers html media (some content) (Identity.mediaDigest content html ++ extension)
      (media.register (Identity.mediaDigest content html ++ extension) content).2

/-- The media hold what the manifest mentions and nothing else, under names made from the
contents. -/
structure Supplied (p : Project) (html : Bool) (media : Media) (m : Manifest) : Prop where
  held : ∀ path content, m.Mentions p path content → media.packed.lookup path = some content
  used : ∀ file ∈ media.packed, m.Mentions p file.1 file.2
  named : ∀ file ∈ media.packed, ∃ extension, file.1 = Identity.mediaDigest file.2 html ++ extension
  images : ∀ e ∈ m.images, ∃ image, p.image? e.name = some image
  sounds : ∀ e ∈ m.sounds, ∃ sound, p.sound? e.name = some sound

namespace Supplied

variable {p : Project} {html : Bool} {media : Media} {m m' : Manifest}

lemma congr (h : Supplied p html media m) (himages : m'.images = m.images)
    (hsounds : m'.sounds = m.sounds) : Supplied p html media m' := by
  have hmentions : m'.Mentions p = m.Mentions p := by
    unfold Manifest.Mentions
    rw [himages, hsounds]
  refine ⟨?_, ?_, h.named, ?_, ?_⟩
  · rw [hmentions]
    exact h.held
  · rw [hmentions]
    exact h.used
  · rw [himages]
    exact h.images
  · rw [hsounds]
    exact h.sounds

/-- An entry is added, and its packed file is gathered under the path of the entry. -/
lemma add (h : Supplied p html media m) (hdigest : p.ContentsApart html) {media' : Media}
    {packed : Option Bytes} {path : String}
    (himages : ∀ e ∈ m'.images, ∃ image, p.image? e.name = some image)
    (hsounds : ∀ e ∈ m'.sounds, ∃ sound, p.sound? e.name = some sound)
    (hmentions : ∀ other content, m'.Mentions p other content ↔
      m.Mentions p other content ∨ path = other ∧ packed = some content)
    (hpath : Gathers html media packed path media') : Supplied p html media' m' := by
  cases hpath with
  | none =>
    have hsame : ∀ other content, m'.Mentions p other content ↔ m.Mentions p other content := by
      intro other content
      rw [hmentions]
      simp
    refine ⟨fun other content hother => ?_, fun file hfile => ?_, h.named, himages, hsounds⟩
    · exact h.held other content ((hsame other content).mp hother)
    · exact (hsame _ _).mpr (h.used file hfile)
  | some content extension =>
    have hnew : m'.Mentions p (Identity.mediaDigest content html ++ extension) content :=
      (hmentions _ _).mpr (.inr ⟨rfl, rfl⟩)
    refine ⟨fun other held hheld => ?_, fun file hfile => ?_, fun file hfile => ?_,
      himages, hsounds⟩
    · rcases (hmentions other held).mp hheld with hheld | ⟨rfl, hcontent⟩
      · exact Media.lookup_register_of_lookup (h.held other held hheld)
      · obtain rfl := Option.some.inj hcontent
        rw [Media.lookup_register]
        cases hlookup : media.packed.lookup (Identity.mediaDigest content html ++ extension) with
        | none => rfl
        | some first =>
          -- the name was in use: then for the same content
          obtain ⟨front, back, hsplit, -⟩ := List.lookup_eq_some_iff.mp hlookup
          have hmem : (Identity.mediaDigest content html ++ extension, first) ∈ media.packed := by
            rw [hsplit]
            simp
          obtain ⟨extension', hname⟩ := h.named _ hmem
          rw [hdigest content hnew.mem_packedContents first (h.used _ hmem).mem_packedContents
            (Identity.mediaDigest_eq_of_append_eq hname)]
          rfl
    · rcases Media.mem_register hfile with hfile | rfl
      · exact (hmentions _ _).mpr (.inl (h.used file hfile))
      · exact hnew
    · rcases Media.mem_register hfile with hfile | rfl
      · exact h.named file hfile
      · exact ⟨extension, rfl⟩

lemma addImage (h : Supplied p html media m) (hdigest : p.ContentsApart html) {media' : Media}
    {e : ImageEntry} {image : Image} (hfound : p.image? e.name = some image)
    (hpath : Gathers html media image.packed e.filepath media') :
    Supplied p html media' { m with images := m.images ++ [e] } := by
  refine h.add hdigest ?_ h.sounds (fun other content => ?_) hpath
  · intro t ht
    rcases List.mem_append.mp ht with ht | ht
    · exact h.images t ht
    · rw [List.mem_singleton.mp ht]
      exact ⟨image, hfound⟩
  · simp only [Manifest.Mentions, List.mem_append, List.mem_singleton, or_and_right, exists_or,
      exists_eq_left, hfound, Option.bind_some]
    exact or_right_comm

lemma addSound (h : Supplied p html media m) (hdigest : p.ContentsApart html) {media' : Media}
    {e : SoundEntry} {sound : Sound} (hfound : p.sound? e.name = some sound)
    (hpath : Gathers html media sound.packed e.filepath media') :
    Supplied p html media' { m with sounds := m.sounds ++ [e] } := by
  refine h.add hdigest h.images ?_ (fun other content => ?_) hpath
  · intro t ht
    rcases List.mem_append.mp ht with ht | ht
    · exact h.sounds t ht
    · rw [List.mem_singleton.mp ht]
      exact ⟨sound, hfound⟩
  · simp only [Manifest.Mentions, List.mem_append, List.mem_singleton, or_and_right, exists_or,
      exists_eq_left, hfound, Option.bind_some]
    exact or_assoc.symm

end Supplied

namespace Walk

variable {p : Project} {html : Bool} {w w' : Walk}

/-- Each state stands next to itself, and its media are those of its manifest. -/
def SelfSupplied (p : Project) (html : Bool) (w v : Walk) : Prop :=
  v = w ∧ w.context.html = html ∧ Supplied p html w.context.media w.manifest

lemma follows_selfSupplied : Follows (SelfSupplied p html) where
  exported := by
    rintro w v ⟨rfl, -⟩
    rfl
  sections := by
    rintro w v ⟨rfl, -⟩
    rfl
  messages := by
    rintro w v ⟨rfl, -⟩
    rfl
  gathered := by
    rintro w v ⟨rfl, hhtml, hsupplied⟩ exported sections messages
    exact ⟨rfl, hhtml, hsupplied⟩
  manifest := by
    rintro w v ⟨rfl, hhtml, hsupplied⟩ f hf
    exact ⟨rfl, hhtml, hsupplied.congr (hf _).1 (hf _).2⟩

/-- A step that keeps the invariant however it ends. -/
lemma respects_selfSupplied {β : Type} {m : WalkM β}
    (hruns : ∀ ⦃w b w'⦄, Runs m w b w' → SelfSupplied p html w w → SelfSupplied p html w' w')
    (hfails : ∀ ⦃w e w'⦄, Fails m w e w' → SelfSupplied p html w w → SelfSupplied p html w' w') :
    Respects (SelfSupplied p html) m := by
  rintro w v ⟨rfl, hw⟩
  refine ⟨rfl, ?_⟩
  rcases hrun : after m v with ⟨e | b, w'⟩
  · exact hfails hrun ⟨rfl, hw⟩
  · exact hruns hrun ⟨rfl, hw⟩

/-- The path of a packed file is where it is gathered. -/
lemma runs_mediaPath_gathers {filepath usual r : String} {packed : Option Bytes}
    (h : Runs (mediaPath p filepath packed usual) w r w') :
    w'.manifest = w.manifest ∧ w'.context.html = w.context.html ∧
      Gathers w.context.html w.context.media packed r w'.context.media := by
  cases naming_of_runs h with
  | packed content extension => exact ⟨rfl, rfl, .some content extension⟩
  | found => exact ⟨rfl, rfl, .none⟩

lemma respects_writeImage (hdigest : p.ContentsApart html) {image : Image}
    (hfound : p.image? image.name = some image) :
    Respects (SelfSupplied p html) (writeImage p image) := by
  refine respects_selfSupplied (fun w r w' h => ?_) fun w e w' h => ?_
  · rintro ⟨-, hhtml, hw⟩
    obtain ⟨-, ⟨-, rfl⟩ | ⟨-, h⟩⟩ := runs_once.mp h
    · exact ⟨rfl, hhtml, hw⟩
    split at h
    · next hgenerated =>
      simp only [runs_bind, runs_pure, runs_changeManifest] at h
      obtain ⟨_, _, ⟨rfl, rfl⟩, rfl⟩ := h
      have hpacked : image.packed = none :=
        Option.isNone_iff_eq_none.mp (Bool.and_eq_true_iff.mp hgenerated).2
      exact ⟨rfl, hhtml, hw.addImage hdigest hfound (hpacked ▸ .none)⟩
    · simp only [runs_bind, runs_tryCatch, runs_changeManifest, not_runs_throw, and_false,
        exists_false, or_false] at h
      obtain ⟨filepath, v, hv, rfl⟩ := h
      obtain ⟨hmanifest, hsame, hgathers⟩ := runs_mediaPath_gathers hv
      have hv' : v.context.html = html := hsame.trans hhtml
      refine ⟨rfl, hv', ?_⟩
      dsimp only
      rw [hmanifest]
      exact hw.addImage hdigest hfound (hhtml ▸ hgathers)
  · rintro ⟨-, hhtml, hw⟩
    obtain ⟨-, h⟩ := fails_once.mp h
    split at h
    · simp at h
    · simp only [fails_bind, fails_tryCatch, fails_throw, not_fails_changeManifest, and_false,
        exists_false, or_false] at h
      obtain ⟨_, v, hfails, -, rfl⟩ := h
      rw [(fails_mediaPath hfails).1]
      exact ⟨rfl, hhtml, hw⟩

lemma respects_writeSound (hdigest : p.ContentsApart html) {sound : Sound}
    (hfound : p.sound? sound.name = some sound) :
    Respects (SelfSupplied p html) (writeSound p sound) := by
  refine respects_selfSupplied (fun w r w' h => ?_) fun w e w' h => ?_
  · rintro ⟨-, hhtml, hw⟩
    obtain ⟨-, ⟨-, rfl⟩ | ⟨-, h⟩⟩ := runs_once.mp h
    · exact ⟨rfl, hhtml, hw⟩
    simp only [runs_bind, runs_changeManifest] at h
    obtain ⟨filepath, v, hv, rfl⟩ := h
    obtain ⟨hmanifest, hsame, hgathers⟩ := runs_mediaPath_gathers hv
    refine ⟨rfl, hsame.trans hhtml, ?_⟩
    dsimp only
    rw [hmanifest]
    exact hw.addSound hdigest hfound (hhtml ▸ hgathers)
  · rintro ⟨-, hhtml, hw⟩
    obtain ⟨-, h⟩ := fails_once.mp h
    simp only [fails_bind, not_fails_changeManifest, and_false, exists_false, or_false] at h
    rw [(fails_mediaPath h).1]
    exact ⟨rfl, hhtml, hw⟩

end Walk

variable {p : Project} {path : String} {html : Bool} {c c' : Context} {out : Output}

lemma supplied_empty (p : Project) (html : Bool) (version source : String) :
    Supplied p html .empty (.empty version source) where
  held _ _ h := by simp [Manifest.Mentions, Manifest.empty] at h
  used := by simp [Media.empty]
  named := by simp [Media.empty]
  images := by simp [Manifest.empty]
  sounds := by simp [Manifest.empty]

/-- After an export the media hold what its manifest mentions. -/
theorem supplied_exportScene (hdigest : p.ContentsApart html)
    (h : Runs (exportScene p path html) c out c') : Supplied p html c'.media out.manifest := by
  obtain ⟨-, source, m, -, hwalk, -, rfl⟩ := runs_exportScene.mp h
  have hstart : Walk.SelfSupplied p html ⟨c.begin path html, .empty c.config.formatVersion source⟩
      ⟨c.begin path html, .empty c.config.formatVersion source⟩ :=
    ⟨rfl, rfl, supplied_empty p html c.config.formatVersion source⟩
  have hrun := Walk.follows_selfSupplied.respects_run (fun _ => Walk.respects_writeImage hdigest)
    (fun _ => Walk.respects_writeSound hdigest) (p.scenes.filter fun s => !s.doNotExport) hstart
  rw [hwalk] at hrun
  exact hrun.2.2.2.congr rfl rfl

end Export

end SceneExport
