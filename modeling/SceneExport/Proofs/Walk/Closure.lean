import Mathlib
import SceneExport.Proofs.Basics
import SceneExport.Proofs.Walk.Reach

/-!
# Which exports are closed

Every reference of an exported manifest leads to an entry of the right collection, but for
references to sounds. A sound without a relative path is left out, and the speaker that was about to
be written gets no sound and an error message. The mark of the sound stays, so a second speaker with
this sound takes it for written and refers to an entry that does not exist. An export is closed if
and only if this does not happen.

Identifiers of different kinds never agree as long as the digest keeps apart the texts that it is
applied to: the kinds differ in the first two letters of these texts.
-/
namespace SceneExport

open Manifest (Entry Ref SpeakerEntry)

/-- The word for a kind that identifiers start from. -/
def Kind.label : Kind → String
  | .scene => "Scene"
  | .object => "Object"
  | .mesh => "Mesh"
  | .material => "Material"
  | .texture => "Texture"
  | .image => "Image"
  | .sound => "Sound"
  | .speaker => "Speaker"
  | .armature => "Armature"
  | .action => "Action"

/-- The kind that a text starts with the word for, told from two letters. -/
def Kind.ofText? : List Char → Option Kind
  | 'S' :: 'c' :: _ => some .scene
  | 'O' :: 'b' :: _ => some .object
  | 'M' :: 'e' :: _ => some .mesh
  | 'M' :: 'a' :: _ => some .material
  | 'T' :: 'e' :: _ => some .texture
  | 'I' :: 'm' :: _ => some .image
  | 'S' :: 'o' :: _ => some .sound
  | 'S' :: 'p' :: _ => some .speaker
  | 'A' :: 'r' :: _ => some .armature
  | 'A' :: 'c' :: _ => some .action
  | _ => none

lemma Kind.ofText?_label (k : Kind) (rest : List Char) :
    Kind.ofText? (k.label.toList ++ rest) = some k := by
  cases k <;> rfl

namespace Project

/-- The library that a datablock is linked from. -/
def Block.library : Block → Option String
  | .scene b => b.library
  | .object b => b.library
  | .mesh b => b.library
  | .material b => b.library
  | .texture b => b.library
  | .image b => b.library
  | .sound b => b.library
  | .speaker b => b.library
  | .armature b => b.library
  | .action _ => none

/-- The text whose digest identifies a datablock. -/
def identityText (p : Project) (b : Block) : String :=
  b.kind.label ++ b.name ++ b.library.getD p.filepath ++ ""

lemma identifier_eq_uuid (p : Project) (b : Block) :
    p.identifier b = Identity.uuid b.kind.label b.name b.library p.filepath "" := by
  cases b <;> rfl

lemma identifier_eq_digest (p : Project) (b : Block) :
    p.identifier b = Identity.digest (Bytes.ofText (p.identityText b)) := by
  rw [identifier_eq_uuid, Identity.uuid, identityText]

/-- The digest keeps the texts of the project's datablocks apart. -/
def DigestsApart (p : Project) : Prop :=
  ∀ a ∈ p.datablocks, ∀ b ∈ p.datablocks,
    Identity.digest (Bytes.ofText (p.identityText a)) =
      Identity.digest (Bytes.ofText (p.identityText b)) → p.identityText a = p.identityText b

lemma kind_eq_of_identifier_eq {p : Project} (hdigest : p.DigestsApart) {a b : Block}
    (ha : a ∈ p.datablocks) (hb : b ∈ p.datablocks) (h : p.identifier a = p.identifier b) :
    a.kind = b.kind := by
  rw [identifier_eq_digest, identifier_eq_digest] at h
  have htext := congrArg (fun text => Kind.ofText? text.toList) (hdigest a ha b hb h)
  simp only [identityText, String.toList_append, List.append_assoc, Kind.ofText?_label] at htext
  exact Option.some.inj htext

/-- The sound of the speaker of that name. -/
def voice? (p : Project) (name : String) : Option Sound :=
  ((p.speaker? name).bind Speaker.sound).bind p.sound?

lemma mem_sounds_of_voice? {p : Project} {name : String} {x : Sound} (h : p.voice? name = some x) :
    x ∈ p.sounds := by
  obtain ⟨_, -, hfound⟩ := Option.bind_eq_some_iff.mp h
  exact mem_of_named? hfound

/-- The sounds of written speakers, in the order in which these are written. -/
def voices (p : Project) (speakers : List SpeakerEntry) : List Sound :=
  speakers.filterMap fun e => p.voice? e.name

/-- What a speaker that is written after others refers to: its sound, unless that is left out and
comes up for the first time. -/
def voiceRef? (p : Project) (path : String) (before : List SpeakerEntry) (e : SpeakerEntry) :
    Option Ref :=
  (p.voice? e.name).bind fun x =>
    if p.isUnheard path (.sound x) = true ∧ p.uuid x ∉ (p.voices before).map p.uuid then none
    else some ⟨p.uuid x⟩

end Project

namespace Export

open Project (Block Sound Speaker)

/-- What is known of speakers and sounds all along a tour: the marked sounds are those that written
speakers have, the speakers refer to sounds as told above, and a sound has its entry if it was heard
when it came up first. -/
structure Tuned (p : Project) (s : Record) : Prop where
  marked : ∀ x ∈ p.sounds,
    p.uuid x ∈ s.marks ↔ p.uuid x ∈ (p.voices s.manifest.speakers).map p.uuid
  refs : ∀ before e after, s.manifest.speakers = before ++ e :: after →
    e.sound = p.voiceRef? s.path before e
  sounds : ∀ u, (∃ e ∈ s.manifest.sounds, e.uuid = u) ↔
    ∃ x, (p.voices s.manifest.speakers).find? (fun y => p.uuid y = u) = some x ∧
      p.isUnheard s.path (.sound x) = false

namespace Tuned

variable {p : Project} {s t : Record} {b : Block} {e : Entry}

/-- Marks of other datablocks are not those of sounds. -/
lemma mark (hdigest : p.DigestsApart) (hb : b ∈ p.datablocks) (hkind : b.kind ≠ .sound)
    (h : Tuned p s) : Tuned p (s.mark (p.identifier b)) := by
  refine ⟨fun x hx => ?_, h.refs, h.sounds⟩
  have hother : p.uuid x ≠ p.identifier b := by
    intro heq
    have hsound : Block.sound x ∈ p.datablocks := by simp [Project.datablocks, hx]
    exact hkind (Project.kind_eq_of_identifier_eq hdigest hb hsound heq.symm)
  simp [hother, h.marked x hx]

/-- Entries of other kinds change nothing here. -/
lemma add (hsound : e.kind ≠ .sound) (hspeaker : e.kind ≠ .speaker) (h : Tuned p s) :
    Tuned p (s.add e) := by
  cases e with
  | sound => exact absurd rfl hsound
  | speaker => exact absurd rfl hspeaker
  | _ => exact ⟨h.marked, h.refs, h.sounds⟩

/-- One more speaker. -/
lemma speak (h : Tuned p s) {e : SpeakerEntry}
    (hspeakers : t.manifest.speakers = s.manifest.speakers ++ [e]) (hpath : t.path = s.path)
    (href : e.sound = p.voiceRef? s.path s.manifest.speakers e)
    (hmarks : ∀ u, u ∈ t.marks ↔ u ∈ s.marks ∨ ∃ x, p.voice? e.name = some x ∧ p.uuid x = u)
    (hsounds : ∀ u, (∃ a ∈ t.manifest.sounds, a.uuid = u) ↔ (∃ a ∈ s.manifest.sounds, a.uuid = u) ∨
      ∃ x, p.voice? e.name = some x ∧ p.uuid x = u ∧ u ∉ s.marks ∧
        p.isUnheard s.path (.sound x) = false) : Tuned p t := by
  have hvoices : p.voices t.manifest.speakers =
      p.voices s.manifest.speakers ++ (p.voice? e.name).toList := by
    rw [hspeakers]
    cases hvoice : p.voice? e.name <;> simp [Project.voices, hvoice]
  refine ⟨fun x hx => ?_, fun before a after hsplit => ?_, fun u => ?_⟩
  · rw [hmarks, h.marked x hx, hvoices]
    simp
  · rw [hpath]
    rcases split_concat (hspeakers.symm.trans hsplit) with ⟨rfl, rfl⟩ | ⟨rest, hsplit⟩
    · exact href
    · exact h.refs before a rest hsplit
  · have hfind : (p.voices t.manifest.speakers).find? (fun y => p.uuid y = u) =
        ((p.voices s.manifest.speakers).find? fun y => p.uuid y = u).or
          ((p.voice? e.name).filter fun y => p.uuid y = u) := by
      rw [hvoices, List.find?_append]
      cases p.voice? e.name <;> simp [Option.filter, List.find?_singleton]
    have hmarked : ∀ x, p.voice? e.name = some x →
        (p.uuid x ∈ s.marks ↔ p.uuid x ∈ (p.voices s.manifest.speakers).map p.uuid) :=
      fun x hx => h.marked x (Project.mem_sounds_of_voice? hx)
    rw [hsounds, h.sounds, hpath, hfind]
    cases hfirst : (p.voices s.manifest.speakers).find? fun y => p.uuid y = u with
    | some y =>
      have hy : u ∈ (p.voices s.manifest.speakers).map p.uuid := by
        have huuid := List.find?_some hfirst
        exact List.mem_map.mpr ⟨y, List.mem_of_find?_eq_some hfirst, by simpa using huuid⟩
      have hlater : ¬ ∃ x, p.voice? e.name = some x ∧ p.uuid x = u ∧ u ∉ s.marks ∧
          p.isUnheard s.path (.sound x) = false := by
        rintro ⟨x, hx, rfl, hm, -⟩
        exact hm ((hmarked x hx).mpr hy)
      simp [hlater]
    | none =>
      have hu : u ∉ (p.voices s.manifest.speakers).map p.uuid := by
        simpa using hfirst
      simp only [reduceCtorEq, false_and, exists_false, false_or, Option.none_or,
        Option.filter_eq_some_iff, decide_eq_true_eq]
      constructor
      · rintro ⟨x, hx, huuid, -, hheard⟩
        exact ⟨x, ⟨hx, huuid⟩, hheard⟩
      · rintro ⟨x, ⟨hx, rfl⟩, hheard⟩
        exact ⟨x, hx, rfl, fun hm => hu ((hmarked x hx).mp hm), hheard⟩

section Speakers

variable {e : SpeakerEntry} {x : Sound} {u : String}

lemma speak_nothing (h : Tuned p s) (hvoice : p.voice? e.name = none) (hsound : e.sound = none) :
    Tuned p (s.add (.speaker e)) := by
  refine h.speak (e := e) rfl rfl ?_ ?_ ?_
  · simp [Project.voiceRef?, hvoice, hsound]
  · simp [hvoice]
  · simp [hvoice, Manifest.add]

lemma speak_known (h : Tuned p s) (hvoice : p.voice? e.name = some x) (hu : p.uuid x = u)
    (hm : u ∈ s.marks) (hsound : e.sound = some ⟨u⟩) : Tuned p (s.add (.speaker e)) := by
  have hcame : p.uuid x ∈ (p.voices s.manifest.speakers).map p.uuid :=
    (h.marked x (Project.mem_sounds_of_voice? hvoice)).mp (hu ▸ hm)
  refine h.speak (e := e) rfl rfl ?_ ?_ ?_
  · simp only [Project.voiceRef?, hvoice, Option.bind_some]
    rw [if_neg fun hfirst => hfirst.2 hcame, hu, hsound]
  · intro v
    simp only [hvoice, Option.some.injEq, exists_eq_left', hu, Record.add_marks]
    exact ⟨.inl, fun hv => hv.elim id fun hv => hv ▸ hm⟩
  · intro v
    simp only [hvoice, Option.some.injEq, exists_eq_left', hu]
    exact ⟨.inl, fun hv => hv.elim id fun hv => absurd (hv.1 ▸ hm) hv.2.1⟩

lemma speak_unheard (h : Tuned p s) (hvoice : p.voice? e.name = some x) (hu : p.uuid x = u)
    (hm : u ∉ s.marks) (hun : p.isUnheard s.path (.sound x) = true) (hsound : e.sound = none) :
    Tuned p ((s.mark u).add (.speaker e)) := by
  have hcame : p.uuid x ∉ (p.voices s.manifest.speakers).map p.uuid :=
    fun hcame => hm (hu ▸ (h.marked x (Project.mem_sounds_of_voice? hvoice)).mpr hcame)
  refine h.speak (e := e) rfl rfl ?_ ?_ ?_
  · simp only [Project.voiceRef?, hvoice, Option.bind_some]
    rw [if_pos ⟨hun, hcame⟩, hsound]
  · intro v
    simp [hvoice, hu, or_comm, eq_comm]
  · intro v
    simp [hvoice, hun, Manifest.add]

lemma speak_fresh (h : Tuned p s) {a : Manifest.SoundEntry} (hvoice : p.voice? e.name = some x)
    (hu : p.uuid x = u) (hm : u ∉ s.marks) (hun : p.isUnheard s.path (.sound x) = false)
    (ha : a.uuid = u) (hsound : e.sound = some ⟨u⟩) :
    Tuned p (((s.mark u).add (.sound a)).add (.speaker e)) := by
  refine h.speak (e := e) rfl rfl ?_ ?_ ?_
  · simp only [Project.voiceRef?, hvoice, Option.bind_some]
    rw [if_neg fun hfirst => by simp [hun] at hfirst, hu, hsound]
  · intro v
    simp [hvoice, hu, or_comm, eq_comm]
  · intro v
    have hnew : u = v ∧ v ∉ s.marks ↔ u = v := and_iff_left_of_imp fun hv => hv ▸ hm
    simp [hvoice, hun, hu, ha, hnew, Manifest.add, or_and_right, exists_or]

lemma sound_eq_of_links {x : Option Sound}
    (h : (Entry.speaker e).links = (x.map Block.sound).toList.map p.link) :
    e.sound = x.map fun x => ⟨p.uuid x⟩ := by
  cases hsound : e.sound with
  | none => cases x <;> simp_all [Entry.links]
  | some r =>
    cases x with
    | none => simp [Entry.links, hsound] at h
    | some x =>
      simp only [Entry.links, hsound, Option.toList_some, List.map_cons, List.map_nil,
        Option.map_some, Project.link, List.cons.injEq, Manifest.Link.mk.injEq] at h
      exact congrArg (fun u => some (Ref.mk u)) h.1.2

end Speakers

/-- A speaker is written: its sound is known already, or left out, or written just before. -/
lemma speaker (hdigest : p.DigestsApart) (h : Tuned p s) {b : Speaker} {r : Record}
    {targets : List Block} (hb : Block.speaker b ∈ p.datablocks)
    (hfound : p.speaker? b.name = some b)
    (hin : Tour p (s.mark (p.identifier (.speaker b))) (p.references (.speaker b)) targets r)
    (hd : p.Describes (.speaker b) targets e) : Tuned p (r.add e) := by
  replace h := h.mark hdigest hb (by simp [Block.kind])
  generalize s.mark (p.identifier (.speaker b)) = s at h hin
  cases e with
  | speaker e =>
    have hvoice : p.voice? e.name = b.sound.bind p.sound? := by
      have hname : e.name = b.name := hd.name
      simp [Project.voice?, hname, hfound]
    have hlinks := hd.links
    rw [Project.references] at hin
    cases hx : b.sound.bind p.sound? with
    | none =>
      rw [hx] at hin hvoice
      cases hin
      exact h.speak_nothing hvoice (sound_eq_of_links (x := none) hlinks)
    | some x =>
      rw [hx] at hin hvoice
      cases hin with
      | known hm htail =>
        cases htail
        exact h.speak_known hvoice rfl hm (sound_eq_of_links (x := some x) hlinks)
      | unheard hm hun htail =>
        cases htail
        exact h.speak_unheard hvoice rfl hm hun (sound_eq_of_links (x := none) hlinks)
      | @fresh _ _ _ _ _ _ _ a hm hun hin hd' htail =>
        cases htail
        cases hin
        cases a with
        | sound a =>
          exact h.speak_fresh hvoice rfl hm hun hd'.uuid (sound_eq_of_links (x := some x) hlinks)
        | _ => cases hd'.kind
  | _ => cases hd.kind

end Tuned

/-- Not a sound, and if it is a speaker then the first of its name: the speaker that written entries
of this name stand for. -/
def Leading (p : Project) : Block → Prop
  | .sound _ => False
  | .speaker b => p.speaker? b.name = some b
  | _ => True

lemma leading_of_shown? {p : Project} {o : Project.Object} {b : Block} (h : p.shown? o = some b) :
    Leading p b := by
  rcases Project.shown?_eq_some h
    with ⟨_, _, -, -, rfl⟩ | ⟨_, _, -, -, rfl⟩ | ⟨_, _, -, hfound, rfl⟩
  · trivial
  · trivial
  · exact Project.named?_name hfound

lemma leading_of_mem_references {p : Project} {b c : Block} (hb : b.kind ≠ .speaker)
    (hc : c ∈ p.references b) : Leading p c := by
  cases b with
  | speaker => exact absurd rfl hb
  | object b =>
    simp only [Project.references, List.mem_append, Option.mem_toList, Option.map_eq_some_iff] at hc
    obtain (⟨_, -, rfl⟩ | hshown) | ⟨_, -, rfl⟩ := hc
    · trivial
    · exact leading_of_shown? hshown
    · trivial
  | scene b | mesh b | material b =>
    obtain ⟨_, -, rfl⟩ := List.mem_map.mp hc
    trivial
  | texture b =>
    obtain ⟨_, -, rfl⟩ := Option.map_eq_some_iff.mp (Option.mem_toList.mp hc)
    trivial
  | image b | sound b | armature b | action b => simp [Project.references] at hc

theorem Tour.tuned {p : Project} {s t : Record} {bs ls : List Block} (hdigest : p.DigestsApart)
    (h : Tour p s bs ls t) (hmem : ∀ b ∈ bs, b ∈ p.datablocks) (hlead : ∀ b ∈ bs, Leading p b)
    (hs : Tuned p s) : Tuned p t := by
  induction h with
  | done => exact hs
  | known _ _ ih => exact ih (by grind) (by grind) hs
  | @unheard _ _ b _ _ _ hun _ _ =>
    have hb := hlead b List.mem_cons_self
    cases b <;> simp [Project.isUnheard] at hun
    exact hb.elim
  | @fresh _ r _ b _ _ _ e _ _ hin hd _ ihin ih =>
    have hb := hlead b List.mem_cons_self
    have hb' := hmem b List.mem_cons_self
    refine ih (by grind) (by grind) ?_
    by_cases hkind : b.kind = .speaker
    · cases b with
      | speaker b => exact hs.speaker hdigest hb' hb hin hd
      | _ => cases hkind
    · have hsound : b.kind ≠ .sound := by
        intro hsound
        cases b with
        | sound => exact hb
        | _ => cases hsound
      rw [← hd.kind] at hsound hkind
      refine Tuned.add hsound hkind (ihin ?_ ?_ ?_)
      · exact fun c hc => Project.mem_datablocks_of_mem_references hc
      · exact fun c hc => leading_of_mem_references (hd.kind ▸ hkind) hc
      · exact hs.mark hdigest hb' (hd.kind ▸ hsound)

variable {p : Project} {path : String} {html : Bool} {c c' : Context} {out : Output}

lemma mem_datablocks_of_mem_origins {b : Block} (h : b ∈ origins p) : b ∈ p.datablocks :=
  (mem_origins h).mem_datablocks

lemma leading_of_mem_origins {b : Block} (h : b ∈ origins p) : Leading p b := by
  simp only [origins, Walk.roots, List.mem_append, List.mem_map] at h
  rcases h with ⟨_, -, rfl⟩ | ⟨_, -, rfl⟩
  · trivial
  · trivial

lemma tuned_empty (version source path : String) : Tuned p ⟨[], .empty version source, path⟩ := by
  refine ⟨?_, ?_, ?_⟩ <;> simp [Manifest.empty, Project.voices]

/-- A link that is not one to a sound leads to the entry of a datablock that has the same identifier
as the one it was made for, and hence its kind. -/
lemma linked_of_ne_sound {s t : Record} (hdigest : p.DigestsApart)
    (htour : Tour p s (origins p) (origins p) t) (hmarks : s.marks = [])
    (hcontents : s.manifest.contents = []) {e : Entry} (he : e ∈ t.manifest.contents)
    {l : Manifest.Link} (hl : l ∈ e.links) (hkind : l.kind ≠ some .sound) :
    ∃ a ∈ t.manifest.contents, some a.kind = l.kind ∧ a.uuid = l.uuid := by
  have hclosed : ∀ b ∈ p.datablocks, ∀ c ∈ p.references b, c ∈ p.datablocks :=
    fun _ _ _ hc => Project.mem_datablocks_of_mem_references hc
  rcases htour.founded hclosed (fun _ => mem_datablocks_of_mem_origins) he
    with he | ⟨b, targets, hb, hf⟩
  · simp [hcontents] at he
  rw [hf.describes.links] at hl
  obtain ⟨target, htarget, rfl⟩ := List.mem_map.mp hl
  have hmem := hclosed b hb target (hf.sublist.subset htarget)
  rcases htour.settled hclosed (fun _ => mem_datablocks_of_mem_origins)
    (hf.marked target htarget) with
    hm | ⟨a, ha, heq, hset⟩
  · simp [hmarks] at hm
  have hsame : a.kind = target.kind := Project.kind_eq_of_identifier_eq hdigest ha hmem heq
  have hheard : p.isUnheard t.path a = false := by
    cases a with
    | sound => exact absurd (congrArg some hsame.symm) hkind
    | _ => rfl
  obtain ⟨a', ha', _, hd⟩ := hset.entry hheard
  refine ⟨a', ha', ?_, ?_⟩
  · rw [hd.kind, hsame]
    rfl
  · rw [hd.uuid, heq]
    rfl

lemma dataKind_ne_sound (label : String) : Manifest.dataKind? label ≠ some .sound := by
  unfold Manifest.dataKind?
  split_ifs <;> simp

lemma mem_links_sound {e : Entry} {l : Manifest.Link} (hl : l ∈ e.links)
    (hkind : l.kind = some .sound) : ∃ a, e = .speaker a ∧ a.sound = some ⟨l.uuid⟩ := by
  cases e with
  | speaker a =>
    obtain ⟨r, hr, rfl⟩ := List.mem_map.mp hl
    exact ⟨a, rfl, Option.mem_toList.mp hr⟩
  | object a =>
    simp only [Entry.links, List.mem_append, List.mem_map] at hl
    obtain (⟨r, -, rfl⟩ | ⟨r, -, rfl⟩) | ⟨r, -, rfl⟩ := hl
    · cases hkind
    · exact absurd hkind (dataKind_ne_sound _)
    · cases hkind
  | scene a | mesh a | material a | texture a =>
    obtain ⟨r, -, rfl⟩ := List.mem_map.mp hl
    cases hkind
  | image a | sound a | armature a | action a => simp [Entry.links] at hl

namespace Tuned

variable {t : Record}

/-- A speaker that has a left out sound refers to it if the sound came up before. -/
lemma linked_again (h : Tuned p t) {as bs : List Sound} {x : Sound}
    (hvoices : p.voices t.manifest.speakers = as ++ x :: bs) (hagain : p.uuid x ∈ bs.map p.uuid) :
    ∃ e ∈ t.manifest.speakers, e.sound = some ⟨p.uuid x⟩ := by
  obtain ⟨y, hy, huuid⟩ := List.mem_map.mp hagain
  rw [List.append_cons] at hvoices
  obtain ⟨l₁, l₂, hsplit, h₁, h₂⟩ := List.filterMap_eq_append_iff.mp hvoices
  rw [← h₂] at hy
  obtain ⟨e, he, hvoice⟩ := List.mem_filterMap.mp hy
  obtain ⟨before, after, rfl⟩ := List.append_of_mem he
  have href := h.refs (l₁ ++ before) e after (by rw [hsplit, List.append_assoc])
  have hcame : p.uuid y ∈ (p.voices (l₁ ++ before)).map p.uuid := by
    rw [huuid]
    refine List.mem_map_of_mem ?_
    rw [Project.voices, List.filterMap_append, h₁]
    simp
  refine ⟨e, by simp [hsplit], ?_⟩
  simp only [Project.voiceRef?, hvoice, Option.bind_some] at href
  rw [href, if_neg fun hfirst => hfirst.2 hcame, huuid]

theorem sounds_linked_iff (h : Tuned p t) :
    (∀ e ∈ t.manifest.speakers, ∀ r, e.sound = some r → ∃ a ∈ t.manifest.sounds, a.uuid = r.uuid) ↔
      ∀ u x, (p.voices t.manifest.speakers).find? (fun y => p.uuid y = u) = some x →
        p.isUnheard t.path (.sound x) = true →
          ((p.voices t.manifest.speakers).map p.uuid).count u = 1 := by
  constructor
  · intro hlinked u x hfirst hun
    obtain ⟨hx, as, bs, hvoices, hbefore⟩ := List.find?_eq_some_iff_append.mp hfirst
    obtain rfl : p.uuid x = u := by simpa using hx
    have hbefore : p.uuid x ∉ as.map p.uuid := by simpa using hbefore
    have hafter : p.uuid x ∉ bs.map p.uuid := by
      intro hagain
      obtain ⟨e, he, hsound⟩ := h.linked_again hvoices hagain
      obtain ⟨y, hy, hheard⟩ := (h.sounds _).mp (hlinked e he _ hsound)
      rw [hfirst] at hy
      rw [← Option.some.inj hy, hun] at hheard
      cases hheard
    simp [hvoices, List.count_eq_zero.mpr hbefore, List.count_eq_zero.mpr hafter]
  · intro honce e he r hr
    obtain ⟨before, after, hsplit⟩ := List.append_of_mem he
    have href := h.refs before e after hsplit
    rw [hr] at href
    obtain ⟨y, hvoice, href⟩ := Option.bind_eq_some_iff.mp href.symm
    split_ifs at href with hskip
    obtain rfl := Option.some.inj href
    have hvoices : p.voices t.manifest.speakers = p.voices before ++ y :: p.voices after := by
      simp [Project.voices, hsplit, hvoice]
    cases hfirst : (p.voices t.manifest.speakers).find? fun x => p.uuid x = p.uuid y with
    | none => simp [hvoices] at hfirst
    | some x =>
      refine (h.sounds _).mpr ⟨x, hfirst, ?_⟩
      by_contra hun
      have hun : p.isUnheard t.path (.sound x) = true := by simpa using hun
      have hcount := honce _ x hfirst hun
      have hbefore : p.uuid y ∉ (p.voices before).map p.uuid := by
        rw [hvoices, List.map_append, List.map_cons, List.count_append,
          List.count_cons_self] at hcount
        exact List.count_eq_zero.mp (by omega)
      have hnone : (p.voices before).find? (fun x => p.uuid x = p.uuid y) = none := by
        simpa using hbefore
      rw [hvoices, List.find?_append, hnone] at hfirst
      obtain rfl : y = x := by simpa using hfirst
      exact hskip ⟨hun, hbefore⟩

end Tuned

/-- An export is closed if and only if every sound that is left out where it comes up first comes up
only there. -/
theorem exportScene_closed_iff (hdigest : p.DigestsApart)
    (h : Runs (exportScene p path html) c out c') :
    out.manifest.Closed ↔
      ∀ u x, (p.voices out.manifest.speakers).find? (fun y => p.uuid y = u) = some x →
        p.isUnheard path (.sound x) = true →
          ((p.voices out.manifest.speakers).map p.uuid).count u = 1 := by
  obtain ⟨version, source, t, htour, hout⟩ := tour_exportScene h
  have htuned : Tuned p t := htour.tuned hdigest (fun _ => mem_datablocks_of_mem_origins)
    (fun _ => leading_of_mem_origins) (tuned_empty version source path)
  have hspeakers : out.manifest.speakers = t.manifest.speakers := by rw [hout]
  have hpath : t.path = path := htour.path_eq
  rw [hspeakers, ← hpath, ← htuned.sounds_linked_iff, Manifest.Closed, contents_eq hout]
  constructor
  · intro hclosed e he r hr
    obtain ⟨a, ha, hkind, huuid⟩ := hclosed (.speaker e) (by simpa [Manifest.contents] using he)
      ⟨some .sound, r.uuid⟩ (by simp [Entry.links, hr])
    cases a with
    | sound a => exact ⟨a, by simpa [Manifest.contents] using ha, huuid⟩
    | _ => cases hkind
  · intro hlinked e he l hl
    by_cases hkind : l.kind = some .sound
    · obtain ⟨a, rfl, hsound⟩ := mem_links_sound hl hkind
      obtain ⟨b, hb, huuid⟩ := hlinked a (by simpa [Manifest.contents] using he) _ hsound
      exact ⟨.sound b, by simpa [Manifest.contents] using hb, hkind.symm, huuid⟩
    · exact linked_of_ne_sound hdigest htour rfl rfl he hl hkind

lemma duet_voices {out : Output} {c' : Context}
    (h : Runs (exportScene duet "/duet.json" false) blank out c') :
    ∃ u, (duet.voices out.manifest.speakers).map duet.uuid = [u, u] := by
  have hvoices : (after (exportScene duet "/duet.json" false) blank).1.toOption.map
      (fun out => (duet.voices out.manifest.speakers).map duet.uuid) =
        some (duet.sounds.flatMap fun x => [duet.uuid x, duet.uuid x]) := by decide +kernel
  rw [h] at hvoices
  exact ⟨_, Option.some.inj hvoices⟩

/-- Both speakers have the sound that is left out, so the second one refers to nothing. -/
theorem duet_not_closed :
    duet.DigestsApart ∧ ∃ out c', Runs (exportScene duet "/duet.json" false) blank out c' ∧
      ¬ out.manifest.Closed := by
  have hdigest : duet.DigestsApart := by
    intro a ha b hb heq
    rw [← Project.identifier_eq_digest, ← Project.identifier_eq_digest] at heq
    rw [duet_distinct a ha b hb heq]
  obtain ⟨out, c', h⟩ := duet_runs
  refine ⟨hdigest, out, c', h, fun hclosed => ?_⟩
  have honce := (exportScene_closed_iff hdigest h).mp hclosed
  obtain ⟨u, hvoices⟩ := duet_voices h
  have hunheard : ∀ x ∈ duet.sounds, duet.isUnheard "/duet.json" (.sound x) = true := by
    decide +kernel
  cases hfirst : (duet.voices out.manifest.speakers).find? fun x => duet.uuid x = u with
  | none =>
    have hnone : u ∉ (duet.voices out.manifest.speakers).map duet.uuid := by simpa using hfirst
    simp [hvoices] at hnone
  | some x =>
    obtain ⟨e, -, hvoice⟩ := List.mem_filterMap.mp (List.mem_of_find?_eq_some hfirst)
    have hcount := honce u x hfirst (hunheard x (Project.mem_sounds_of_voice? hvoice))
    simp [hvoices] at hcount

end Export

end SceneExport
