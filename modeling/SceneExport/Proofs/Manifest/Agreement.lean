import Mathlib
import SceneExport.Manifest.Codec
import SceneExport.Proofs.Json.Thorough

/-!
# The two readers of a manifest agree

One reader takes in the whole manifest, with the members it does not know, the other one only the
two members of the header, and passes over the rest. Where the first one succeeds, all other members
can be passed over, and the two members of the header are texts that stand there once at most. So
the second reader succeeds as well and finds the same texts. Only what a missing path stands for
differs: the empty text for the first reader, nothing for the second.
-/
namespace SceneExport

open Json (Codec Document Fault Member MemberKey Shape Tree)
open Json.Codec

namespace Json

/-- The keys of the object that a text holds. -/
def Document.keys (d : Document) : List String :=
  match d.tree with
  | .object members _ => members.filterMap fun m => m.1.content
  | _ => []

namespace Shape

variable {β σ : Type}

/-- The slot of a field is filled. -/
def holds (name : String) : {β : Type} → (s : Shape β) → s.Slots → Prop
  | _, .done, _ => False
  | _, @field α _ f rest, slots =>
    let found : Option α := slots.1
    (f.name = name ∧ found.isSome = true) ∨ rest.holds name slots.2

lemma notMem_names_of_put {s : Shape β} {key : String} {t : Tree} {slots : s.Slots}
    (h : s.put key t slots = none) : key ∉ s.names := by
  induction s with
  | done => simp [names]
  | field f rest ih =>
    obtain ⟨found, slots⟩ := slots
    rw [put_field] at h
    split_ifs at h with hname
    simp only [names, List.mem_cons, not_or]
    exact ⟨Ne.symm hname, ih (Option.map_eq_none_iff.1 h)⟩

/-- A member that is read fills the slot of its name and no other. -/
lemma holds_of_put {s : Shape β} {key : String} {t : Tree} {slots slots' : s.Slots}
    (h : s.put key t slots = some (.ok slots')) (name : String) :
    s.holds name slots' ↔ s.holds name slots ∨ key = name := by
  induction s with
  | done => cases h
  | field f rest ih =>
    obtain ⟨found, slots⟩ := slots
    rw [put_field] at h
    split_ifs at h with hname hfound
    · cases h
    · obtain ⟨a, -, rfl⟩ := map_eq_ok.1 (Option.some.inj h)
      subst hname
      simp only [holds, hfound]
      tauto
    · obtain ⟨r, hr, h⟩ := Option.map_eq_some_iff.1 h
      obtain ⟨others, rfl, rfl⟩ := map_eq_ok.1 h
      simp only [holds, ih hr]
      tauto

/-- In the end the slots are filled whose names stand in the object. -/
lemma holds_of_readMembers {s : Shape β} {other : σ → String → Tree → Except Fault σ}
    {slots : s.Slots} {acc : σ} {members : List (MemberKey × Tree)} {r : s.Slots × σ}
    (h : s.readMembers other slots acc members = .ok r) {name : String} (hname : name ∈ s.names) :
    s.holds name r.1 ↔ s.holds name slots ∨ name ∈ members.filterMap fun m => m.1.content := by
  induction members generalizing slots acc with
  | nil =>
    obtain rfl := Except.ok.inj h
    simp
  | cons m members ih =>
    obtain ⟨⟨_ | key, plain⟩, t⟩ := m
    · cases h
    · have hkeys :
          (((⟨some key, plain⟩, t) :: members).filterMap fun m : MemberKey × Tree => m.1.content) =
          key :: members.filterMap fun m => m.1.content := rfl
      rw [hkeys, List.mem_cons]
      cases hput : s.put key t slots with
      | some found =>
        rw [readMembers_put hput] at h
        obtain ⟨slots', rfl, h⟩ := bind_eq_ok.1 h
        rw [ih h, holds_of_put hput, or_assoc, eq_comm]
      | none =>
        have hne : name ≠ key := fun heq => notMem_names_of_put hput (heq ▸ hname)
        rw [readMembers_other hput] at h
        obtain ⟨acc', -, h⟩ := bind_eq_ok.1 h
        rw [ih h, or_iff_right hne]

variable {γ : Type} {large : Shape β} {small : Shape γ} {part : large.Slots → small.Slots}

/-- Wherever the large record reads a member, the small one reads it as well, into the part of the
slots that it has, or has no field for it. -/
structure Projects (large : Shape β) (small : Shape γ)
    (part : large.Slots → small.Slots) : Prop where
  put : ∀ {key t slots slots'}, large.put key t slots = some (.ok slots') →
    small.put key t (part slots) = some (.ok (part slots')) ∨
      (small.put key t (part slots) = none ∧ part slots' = part slots)
  other : ∀ {key t slots}, large.put key t slots = none → small.put key t (part slots) = none

lemma projects_done (large : Shape β) : Projects large .done fun _ => () :=
  ⟨fun _ => .inr ⟨rfl, rfl⟩, fun _ => rfl⟩

/-- Both records have a field of this name, and the small one reads it as a view of what the large
one reads. -/
lemma Projects.field {α α' : Type} (h : Projects large small part) (f : Member α) (f' : Member α')
    {view : α → α'} (hname : f'.name = f.name)
    (hview : ∀ t a, f.codec.read t = .ok a → f'.codec.read t = .ok (view a)) :
    Projects (.field f large) (.field f' small) fun slots =>
      ((slots.1 : Option α).map view, part slots.2) := by
  constructor
  · rintro key t ⟨found, slots⟩ slots' hput
    rw [put_field] at hput ⊢
    rw [hname]
    by_cases hkey : f.name = key
    · rw [if_pos hkey] at hput ⊢
      cases found with
      | some _ => cases hput
      | none =>
        obtain ⟨a, ha, rfl⟩ := map_eq_ok.1 (Option.some.inj hput)
        exact .inl (congrArg some (map_eq_ok.2 ⟨_, hview t a ha, rfl⟩))
    · rw [if_neg hkey] at hput ⊢
      obtain ⟨r, hr, hput⟩ := Option.map_eq_some_iff.1 hput
      obtain ⟨others, rfl, rfl⟩ := map_eq_ok.1 hput
      rcases h.put hr with hsmall | ⟨hsmall, hpart⟩
      · left
        rw [hsmall]
        rfl
      · right
        rw [hsmall, hpart]
        exact ⟨rfl, rfl⟩
  · rintro key t ⟨found, slots⟩ hput
    rw [put_field] at hput ⊢
    rw [hname]
    split_ifs at hput ⊢ with hkey
    rw [h.other (Option.map_eq_none_iff.1 hput)]
    rfl

/-- The small record reads every object that the large one does, if the other members can be passed
over. -/
lemma Projects.readMembers (h : Projects large small part)
    {other : σ → String → Tree → Except Fault σ} {slots : large.Slots} {acc : σ}
    {r : large.Slots × σ} {members : List (MemberKey × Tree)}
    (hskip : Tree.skipMembers members = .ok ())
    (hread : large.readMembers other slots acc members = .ok r) :
    small.readMembers ignore (part slots) () members = .ok (part r.1, ()) := by
  induction members generalizing slots acc with
  | nil =>
    obtain rfl := Except.ok.inj hread
    rfl
  | cons m members ih =>
    obtain ⟨⟨_ | key, plain⟩, t⟩ := m
    · cases hread
    · obtain ⟨_, ht, hrest⟩ := bind_eq_ok.1 hskip
      cases hput : large.put key t slots with
      | some found =>
        rw [readMembers_put hput] at hread
        obtain ⟨slots', rfl, hread⟩ := bind_eq_ok.1 hread
        rcases h.put hput with hsmall | ⟨hsmall, hslots⟩
        · rw [readMembers_put hsmall]
          exact ih hrest hread
        · rw [readMembers_other hsmall, ← hslots]
          exact bind_eq_ok.2 ⟨_, ht, ih hrest hread⟩
      | none =>
        rw [readMembers_other hput] at hread
        obtain ⟨acc', -, hread⟩ := bind_eq_ok.1 hread
        rw [readMembers_other (h.other hput)]
        exact bind_eq_ok.2 ⟨_, ht, ih hrest hread⟩

end Shape

end Json

lemma Range.thorough_codec : Range.codec.Thorough := thorough_size.pair.imap

lemma Sections.Table.thorough_codec : Sections.Table.codec.Thorough :=
  Shape.thorough_codec ⟨thorough_text.option, thorough_size, thorough_size, thorough_size,
    thorough_size, thorough_size, trivial⟩

lemma Message.thorough_codec : Message.codec.Thorough :=
  Shape.thorough_codec ⟨thorough_text, thorough_oneOf _, trivial⟩

namespace Manifest

lemma Ref.thorough_codec : Ref.codec.Thorough :=
  Shape.thorough_codec ⟨thorough_text, trivial⟩

lemma CurveEntry.thorough_codec : CurveEntry.codec.Thorough :=
  Shape.thorough_codec ⟨Range.thorough_codec, thorough_size, thorough_word32, trivial⟩

lemma ActionEntry.thorough_codec : ActionEntry.codec.Thorough :=
  Shape.thorough_codec ⟨thorough_text, thorough_text, (thorough_whole _ _).pair,
    CurveEntry.thorough_codec.table.table, trivial⟩

lemma ImageEntry.thorough_codec : ImageEntry.codec.Thorough :=
  Shape.thorough_codec ⟨thorough_text, thorough_text, thorough_text, thorough_word32.pair,
    thorough_text, thorough_text, trivial⟩

lemma TextureEntry.thorough_codec : TextureEntry.codec.Thorough :=
  Shape.thorough_codec ⟨thorough_text, thorough_text, thorough_text,
    Ref.thorough_codec.option, trivial⟩

lemma thorough_slotCodec : slotCodec.Thorough :=
  Shape.thorough_codec ⟨Ref.thorough_codec, trivial⟩

lemma MaterialEntry.thorough_codec : MaterialEntry.codec.Thorough :=
  Shape.thorough_codec ⟨thorough_text, thorough_text, thorough_double.vector 3, thorough_double,
    thorough_bool, thorough_slotCodec.list, trivial⟩

lemma SubmeshEntry.thorough_codec : SubmeshEntry.codec.Thorough :=
  Shape.thorough_codec ⟨thorough_size, Range.thorough_codec, Range.thorough_codec,
    Range.thorough_codec, trivial⟩

lemma VertexAnimationEntry.thorough_codec : VertexAnimationEntry.codec.Thorough :=
  Shape.thorough_codec ⟨thorough_text, thorough_whole _ _, thorough_whole _ _, thorough_bool,
    thorough_whole _ _, thorough_bool, Range.thorough_codec, trivial⟩

lemma MeshEntry.thorough_codec : MeshEntry.codec.Thorough :=
  Shape.thorough_codec ⟨thorough_text, thorough_text, Ref.thorough_codec.list,
    SubmeshEntry.thorough_codec.list, VertexAnimationEntry.thorough_codec.list, trivial⟩

lemma BoneEntry.thorough_codec : BoneEntry.codec.Thorough :=
  Shape.thorough_codec ⟨thorough_text, thorough_text.option, thorough_double.list, trivial⟩

lemma ArmatureEntry.thorough_codec : ArmatureEntry.codec.Thorough :=
  Shape.thorough_codec ⟨thorough_text, thorough_text, BoneEntry.thorough_codec.list, trivial⟩

lemma SoundEntry.thorough_codec : SoundEntry.codec.Thorough :=
  Shape.thorough_codec ⟨thorough_text, thorough_text, thorough_text, trivial⟩

lemma SpeakerEntry.thorough_codec : SpeakerEntry.codec.Thorough :=
  Shape.thorough_codec ⟨thorough_text, thorough_text, Ref.thorough_codec.option, thorough_double,
    thorough_double, thorough_bool, thorough_double, thorough_bool, trivial⟩

lemma AnimationEntry.thorough_codec : AnimationEntry.codec.Thorough :=
  Shape.thorough_codec ⟨Ref.thorough_codec.option, trivial⟩

lemma ObjectEntry.thorough_codec : ObjectEntry.codec.Thorough :=
  Shape.thorough_codec ⟨thorough_text, thorough_text, thorough_text, Ref.thorough_codec.option,
    Ref.thorough_codec.option, thorough_double.list, AnimationEntry.thorough_codec.option, trivial⟩

lemma SceneEntry.thorough_codec : SceneEntry.codec.Thorough :=
  Shape.thorough_codec ⟨thorough_text, thorough_text, Ref.thorough_codec.list, thorough_whole _ _,
    thorough_whole _ _, thorough_double, Ref.thorough_codec.option, trivial⟩

lemma thorough_shape : shape.Thorough :=
  ⟨thorough_text, thorough_text, ActionEntry.thorough_codec.list, ImageEntry.thorough_codec.list,
    TextureEntry.thorough_codec.list, MaterialEntry.thorough_codec.list,
    MeshEntry.thorough_codec.list,
    ArmatureEntry.thorough_codec.list, SoundEntry.thorough_codec.list,
    SpeakerEntry.thorough_codec.list,
    ObjectEntry.thorough_codec.list, SceneEntry.thorough_codec.list,
    Sections.Table.thorough_codec.list,
    Message.thorough_codec.list, Message.thorough_codec.list, trivial⟩

/-- The two fields of a header. -/
def Header.shape : Shape (Option String × Option String × Unit) :=
  .field (.defaulted "b4w_format_version" (.option .text) none) <|
    .field (.defaulted "b4w_filepath_blend" (.option .text) none) .done

/-- A text can be read as an optional one. -/
lemma read_option_text (t : Tree) (s : String) (h : Codec.text.read t = .ok s) :
    (Codec.option .text).read t = .ok (some s) := by
  simp only [Codec.text] at h
  split at h
  · obtain rfl := Except.ok.inj h
    rfl
  · cases h

/-- The slots of the header among those of a manifest. -/
def headerSlots (slots : shape.Slots) : Header.shape.Slots :=
  ((slots.1 : Option String).map some, (slots.2.1 : Option String).map some, ())

lemma projects_header : Shape.Projects shape Header.shape headerSlots :=
  ((Shape.projects_done _).field (.defaulted "b4w_filepath_blend" .text "")
    (.defaulted "b4w_filepath_blend" (.option .text) none) rfl read_option_text).field
    (.required "b4w_format_version" .text) (.defaulted "b4w_format_version" (.option .text) none)
    rfl read_option_text

/-- The member of the path fills its slot. -/
lemma holds_source {slots : Header.shape.Slots} :
    Header.shape.holds "b4w_filepath_blend" slots ↔
      (slots.2.1 : Option (Option String)).isSome = true := by
  have hversion : "b4w_format_version" ≠ "b4w_filepath_blend" := by decide
  change ("b4w_format_version" = "b4w_filepath_blend" ∧ _) ∨
    (("b4w_filepath_blend" = "b4w_filepath_blend" ∧ _) ∨ False) ↔ _
  simp [hversion]

/-- Whatever is read as a manifest is read as its header, whose path stands in the object or is
missing. -/
lemma exists_read_header {m : Manifest} {t : Tree} (h : codec.read t = .ok m) :
    ∃ (members : List (MemberKey × Tree)) (source : Option String), t = .object members none ∧
      source.or (some "") = some m.source ∧
      (source.isSome = true ↔ "b4w_filepath_blend" ∈ members.filterMap fun e => e.1.content) ∧
      Header.codec.read t = .ok ⟨some m.formatVersion, source⟩ := by
  simp only [codec] at h
  split at h
  · next members stop =>
    obtain ⟨⟨⟨version, source, slots⟩, extra⟩, hmembers, h⟩ := bind_eq_ok.1 h
    obtain ⟨_, hstop, h⟩ := bind_eq_ok.1 h
    obtain ⟨fields, hclose, h⟩ := bind_eq_ok.1 h
    obtain rfl := Except.ok.inj h
    obtain rfl := Json.Tree.checkStored_eq_ok.1 hstop
    obtain ⟨hversion, hclose⟩ := Shape.close_eq_ok.1 hclose
    obtain ⟨hsource, -⟩ := Shape.close_eq_ok.1 hclose
    have hskip : Tree.skipMembers members = .ok () := by
      refine Shape.skipMembers_of_readMembers thorough_shape (fun _ _ t _ hother => ?_) hmembers
      obtain ⟨_, hstore, -⟩ := bind_eq_ok.1 hother
      exact Tree.skip_of_store t hstore
    have hheader := projects_header.readMembers hskip hmembers
    have hholds :=
      Shape.holds_of_readMembers hheader (by decide : "b4w_filepath_blend" ∈ Header.shape.names)
    refine ⟨members, source, rfl, hsource, ?_, map_eq_ok.2 ⟨(some fields.1, source, ()), ?_, rfl⟩⟩
    · rw [holds_source, holds_source] at hholds
      simpa [headerSlots, shape, Shape.vacant] using hholds
    · refine bind_eq_ok.2 ⟨_, hheader, bind_eq_ok.2 ⟨(), rfl, Shape.close_eq_ok.2 ⟨?_, ?_⟩⟩⟩
      · obtain rfl : version = some fields.1 := by simpa [Member.required] using hversion
        rfl
      · exact Shape.close_eq_ok.2 ⟨by cases source <;> rfl, rfl⟩
  · cases h

/-- Every text that is read as a manifest has a header. The version is the same, and so is the path
if the text has one; a manifest without a path has none in its header. -/
theorem header_ofText {s : String} {m : Manifest} (h : ofText s = .ok m) :
    ∃ header, Header.ofText s = .ok header ∧ header.version? = Version.ofText? m.formatVersion ∧
      header.source = if "b4w_filepath_blend" ∈ (Document.ofText s).keys then some m.source
      else none := by
  have hread : codec.ofText s = .ok m := by
    simp only [ofText] at h
    split at h
    · cases h
    · next m' hm =>
      split_ifs at h
      exact Except.ok.inj h ▸ hm
  obtain ⟨m', hm, hend⟩ := bind_eq_ok.1 hread
  obtain ⟨htrailing, rfl⟩ : (Document.ofText s).trailing = false ∧ m' = m := by
    split_ifs at hend with htrailing
    exact ⟨Bool.eq_false_iff.2 htrailing, Except.ok.inj hend⟩
  obtain ⟨members, source, htree, hsource, hkey, hheader⟩ := exists_read_header hm
  have hkeys : (Document.ofText s).keys = members.filterMap fun e => e.1.content := by
    rw [Document.keys, htree]
  refine ⟨_, bind_eq_ok.2 ⟨_, hheader, if_neg (Bool.eq_false_iff.1 htrailing)⟩, rfl, ?_⟩
  rw [hkeys]
  cases source with
  | none => rw [if_neg fun hmem => Bool.false_ne_true (hkey.2 hmem)]
  | some path => rw [if_pos (hkey.1 rfl), ← hsource, Option.some_or]

/-- A text with a member that this version does not know, twice, and with a path whose key is
written with an escape. -/
def escapedPath : String :=
  "\x7b\"b4w_format_version\":\"5.7\",\"old\":[1e9],\"b4w_filepath\\u005fblend\":\"a.blend\"," ++
    "\"old\":\x7b\"b4w_filepath_blend\":null\x7d\x7d"

theorem escapedPath_header_ofText :
    ∃ m header, ofText escapedPath = .ok m ∧ Header.ofText escapedPath = .ok header ∧
      header.version? = Version.ofText? m.formatVersion ∧ header.source = some m.source := by
  have hok : (ofText escapedPath).isOk = true := by decide +kernel
  have hkey : "b4w_filepath_blend" ∈ (Document.ofText escapedPath).keys := by decide +kernel
  cases hm : ofText escapedPath with
  | error e => simp [hm, Except.isOk, Except.toBool] at hok
  | ok m =>
    obtain ⟨header, hread, hversion, hsource⟩ := header_ofText hm
    rw [if_pos hkey] at hsource
    exact ⟨m, header, rfl, hread, hversion, hsource⟩

end Manifest

end SceneExport
