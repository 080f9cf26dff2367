import Mathlib
import SceneExport.Manifest.Codec
import SceneExport.Proofs.Json.Roundtrip

/-!
# Manifests are read back

A manifest comes back from its text in either style, whatever its members of other names hold. These
members are stored as they stand, in their own order; the objects inside them come back ordered by
key, which is how they are kept in the first place. Curves keep the order of their paths and
components. A manifest *fits* when its whole numbers have the widths that they are read with and no
table has a key twice.
-/
namespace SceneExport

/-- The number can come from a text: it is whole and has 64 bits, or has double width. -/
def Number.Stored : Number → Prop
  | .whole n => -0x8000000000000000 ≤ n ∧ n ≤ 0xffffffffffffffff
  | .double _ => True
  | .single _ => False

lemma Number.reread_of_settled {n : Number} (hstored : n.Stored) (hsettled : n.Settled) :
    n.reread = .number (some n) := by
  cases n with
  | whole n => exact reread_whole hstored.1 hstored.2
  | single x => exact hstored.elim
  | double x =>
    rw [Number.Settled] at hsettled
    rcases reread_double x with hnull | ⟨_ | y, hread⟩
    · rw [hnull] at hsettled
      exact nomatch hsettled
    · rw [hread] at hsettled
      exact nomatch hsettled
    · rw [hread] at hsettled ⊢
      rw [Option.map_some, Except.ok.inj hsettled]

namespace Json

mutual

/-- How many containers stand inside each other. -/
def depth : Json → Nat
  | .list items => depthOfItems items + 1
  | .object members => depthOfMembers members + 1
  | .null | .bool _ | .number _ | .text _ => 0

def depthOfItems : List Json → Nat
  | [] => 0
  | item :: items => max (depth item) (depthOfItems items)

def depthOfMembers : List (String × Json) → Nat
  | [] => 0
  | (_, value) :: members => max (depth value) (depthOfMembers members)

end

mutual

/-- The value is as a reader stores it: the members of its objects are ordered by key, and its
numbers can come from a text. -/
def Stored : Json → Prop
  | .number n => n.Stored
  | .list items => StoredItems items
  | .object members => (members.map Prod.fst).Pairwise (· < ·) ∧ StoredMembers members
  | .null | .bool _ | .text _ => True

def StoredItems : List Json → Prop
  | [] => True
  | item :: items => Stored item ∧ StoredItems items

def StoredMembers : List (String × Json) → Prop
  | [] => True
  | (_, value) :: members => Stored value ∧ StoredMembers members

end

/-- A key behind all others is put at the end. -/
lemma putSorted_of_lt {key : String} {value : Json} {members : List (String × Json)}
    (h : ∀ k ∈ members.map Prod.fst, k < key) :
    putSorted key value members = members ++ [(key, value)] := by
  induction members with
  | nil => rfl
  | cons m members ih =>
    obtain ⟨hlt, hrest⟩ := List.forall_mem_cons.1 h
    rw [putSorted, if_neg (ne_of_lt hlt), if_neg (lt_asymm hlt), ih hrest, List.cons_append]

mutual

/-- A value is stored as it was written. -/
theorem store_reread :
    (v : Json) → v.Stored → v.Settled → ∀ levels, v.depth ≤ levels → v.reread.store levels = .ok v
  | .null, _, _, _, _ => rfl
  | .bool _, _, _, _, _ => rfl
  | .text _, _, _, _, _ => rfl
  | .number n, hstored, hsettled, levels, _ => by
    rw [reread, Number.reread_of_settled hstored (hsettled n List.mem_cons_self)]
    rfl
  | .list items, hstored, hsettled, levels, hdepth => by
    obtain ⟨levels, rfl⟩ := Nat.exists_eq_add_of_lt (Nat.lt_of_lt_of_le (Nat.succ_pos _) hdepth)
    have hitems :=
      storeItems_reread items hstored (settled_list.1 hsettled) levels
        (by simpa [depth] using hdepth)
    rw [Nat.zero_add, reread, Tree.store]
    exact bind_eq_ok.2 ⟨items, hitems, rfl⟩
  | .object members, hstored, hsettled, levels, hdepth => by
    obtain ⟨levels, rfl⟩ := Nat.exists_eq_add_of_lt (Nat.lt_of_lt_of_le (Nat.succ_pos _) hdepth)
    have hmembers := storeMembers_reread members hstored.2 (settled_object.1 hsettled) levels
      (by simpa [depth] using hdepth) [] hstored.1
    rw [Nat.zero_add, reread, Tree.store]
    exact bind_eq_ok.2 ⟨members, hmembers, rfl⟩

theorem storeItems_reread : (items : List Json) → StoredItems items → (∀ v ∈ items, v.Settled) →
    ∀ levels, depthOfItems items ≤ levels → Tree.storeItems levels (rereadItems items) = .ok items
  | [], _, _, _, _ => rfl
  | item :: items, hstored, hsettled, levels, hdepth => by
    obtain ⟨hitem, hitems⟩ := List.forall_mem_cons.1 hsettled
    obtain ⟨hdepthItem, hdepthItems⟩ := max_le_iff.1 hdepth
    refine bind_eq_ok.2 ⟨item, store_reread item hstored.1 hitem levels hdepthItem,
      bind_eq_ok.2 ⟨items, ?_, rfl⟩⟩
    exact storeItems_reread items hstored.2 hitems levels hdepthItems

/-- Members that stand in order are appended one by one. -/
theorem storeMembers_reread : (members : List (String × Json)) → StoredMembers members →
    (∀ m ∈ members, m.2.Settled) → ∀ levels, depthOfMembers members ≤ levels →
    ∀ done : List (String × Json), ((done ++ members).map Prod.fst).Pairwise (· < ·) →
    Tree.storeMembers levels done (rereadMembers members) = .ok (done ++ members)
  | [], _, _, _, _, done, _ => by simp [rereadMembers, Tree.storeMembers]
  | (key, value) :: members, hstored, hsettled, levels, hdepth, done, hordered => by
    obtain ⟨hvalue, hmembers⟩ := List.forall_mem_cons.1 hsettled
    obtain ⟨hdepthValue, hdepthMembers⟩ := max_le_iff.1 hdepth
    have hlast : ∀ k ∈ done.map Prod.fst, k < key := by
      rw [List.map_append, List.pairwise_append] at hordered
      exact fun k hk => hordered.2.2 k hk key List.mem_cons_self
    rw [List.append_cons] at hordered ⊢
    refine bind_eq_ok.2 ⟨value, store_reread value hstored.1 hvalue levels hdepthValue, ?_⟩
    rw [putSorted_of_lt hlast]
    exact storeMembers_reread members hstored.2 hmembers levels hdepthMembers _ hordered

end

lemma rereadMembers_append (front back : List (String × Json)) :
    rereadMembers (front ++ back) = rereadMembers front ++ rereadMembers back := by
  simp only [rereadMembers_eq_map, List.map_append]

/-- Nothing is escaped in a run of digits. -/
lemma isPlain_digits {cs : List Char} (h : ∀ c ∈ cs, Text.isDigit c = true) :
    isPlain (cs.flatMap escapeChar ++ ['"']) = true := by
  have hchar : ∀ c ∈ cs, escapeChar c = [c] := by
    intro c hc
    have hne := ne_of_isDigit (h c hc)
    have hcontrol : ¬ c.toNat < 0x20 := by
      have hdigit : '0' ≤ c ∧ c ≤ '9' := by simpa [Text.isDigit] using h c hc
      have hle : 48 ≤ c.toNat := hdigit.1
      omega
    simp [escapeChar, hne '"' rfl, hne '\\' rfl, hne '\n' rfl, hne '\r' rfl, hne '\t' rfl,
      hne '\x08' rfl, hne '\x0c' rfl, hcontrol]
  have hescape : cs.flatMap escapeChar = cs := by
    rw [List.flatMap_congr hchar]
    simp
  have htake : (cs ++ ['"']).takeWhile (· ≠ '"') = cs := by
    rw [List.takeWhile_append_of_pos fun c hc => by simpa using ne_of_isDigit (h c hc) '"' rfl]
    simp
  have hback : '\\' ∉ cs := fun hmem => ne_of_isDigit (h _ hmem) '\\' rfl rfl
  rw [hescape, isPlain, htake]
  simpa using hback

end Json

open Json (Codec MemberKey Shape)
open Json.Codec

/-- The number has a signed form of 64 bits. -/
abbrev IsInt64 (n : Int) : Prop := -0x8000000000000000 ≤ n ∧ n ≤ 0x7fffffffffffffff

lemma faithful_int64 {n : Int} (hn : IsInt64 n) : int64.Faithful n :=
  faithful_whole (by decide) (by decide) hn

abbrev Range.Fits (r : Range) : Prop := IsSize r.offset ∧ IsSize r.length

lemma Range.faithful_codec {r : Range} (h : r.Fits) : Range.codec.Faithful r :=
  .imap (.pair (exact_size.faithful _ h.1) (exact_size.faithful _ h.2)) rfl

structure Sections.Table.Fits (t : Sections.Table) : Prop where
  int : IsSize t.int
  float : IsSize t.float
  short : IsSize t.short
  ushort : IsSize t.ushort
  uchar : IsSize t.uchar

lemma Sections.Table.faithful_codec {t : Sections.Table} (h : t.Fits) :
    Sections.Table.codec.Faithful t :=
  Shape.faithful_codec (by decide) ⟨faithful_optionalText _, exact_size.faithful _ h.int,
    exact_size.faithful _ h.float, exact_size.faithful _ h.short, exact_size.faithful _ h.ushort,
    exact_size.faithful _ h.uchar, trivial⟩ rfl

lemma Message.faithful_codec (m : Message) : Message.codec.Faithful m :=
  Shape.faithful_codec (by decide) ⟨faithful_text _, faithful_oneOf (by cases m.audience <;> rfl),
    trivial⟩ rfl

namespace Manifest

lemma Ref.faithful_codec (r : Ref) : Ref.codec.Faithful r :=
  Shape.faithful_codec (by decide) ⟨faithful_text _, trivial⟩ rfl

lemma faithful_link (r : Option Ref) : Ref.codec.option.Faithful r :=
  .option (fun _ _ => Ref.faithful_codec _) fun _ h => nomatch h

lemma digitsValue_toDigits (n : Nat) : Text.digitsValue (Nat.toDigits 10 n) = n := by
  have hvalue : Nat.ofDigitChars 10 (Nat.toDigits 10 n) 0 = n := Nat.ofDigitChars_ten_toDigits
  simp only [Nat.ofDigitChars, mul_comm] at hvalue
  exact hvalue

lemma component?_of_digits {s : String} {n : Nat} (hdigits : ∀ c ∈ s.toList, Text.isDigit c = true)
    (hvalue : Text.digitsValue s.toList = n) (hs : toString n = s) (hn : IsSize n) :
    component? (Json.keyOf s) = some n := by
  have hplain : Json.isPlain (s.toList.flatMap Json.escapeChar ++ ['"']) = true :=
    Json.isPlain_digits hdigits
  have hall : s.toList.all Text.isDigit = true := List.all_eq_true.2 hdigits
  have hlt : n < 0x10000000000000000 := Nat.lt_succ_of_le hn
  simp only [component?, Json.keyOf, Option.bind_eq_bind, Option.bind_some, hvalue, hplain,
    hall, hs, hlt]
  rfl

/-- A component is read back from its key. -/
lemma component?_toString {n : Nat} (h : IsSize n) :
    component? (Json.keyOf (toString n)) = some n := by
  have hchars : (toString n).toList = Nat.toDigits 10 n := Nat.toList_repr
  exact component?_of_digits (hchars ▸ (digits_toDigits n).2)
    (hchars ▸ digitsValue_toDigits n) rfl h

structure CurveEntry.Fits (e : CurveEntry) : Prop where
  data : e.data.Fits
  lastRecord : IsSize e.lastRecord

lemma CurveEntry.faithful_codec {e : CurveEntry} (h : e.Fits) : CurveEntry.codec.Faithful e :=
  Shape.faithful_codec (by decide)
    ⟨Range.faithful_codec h.data, exact_size.faithful _ h.lastRecord, faithful_word32 _,
      trivial⟩ rfl

/-- The curves of one path. -/
structure ComponentsFit (components : List (Nat × CurveEntry)) : Prop where
  nodup : (components.map Prod.fst).Nodup
  keys : ∀ c ∈ components, IsSize c.1
  entries : ∀ c ∈ components, c.2.Fits

structure ActionEntry.Fits (e : ActionEntry) : Prop where
  start : IsInt64 e.range.1
  stop : IsInt64 e.range.2
  paths : (e.curves.map Prod.fst).Nodup
  curves : ∀ c ∈ e.curves, ComponentsFit c.2

lemma ActionEntry.faithful_codec {e : ActionEntry} (h : e.Fits) : ActionEntry.codec.Faithful e := by
  have hcomponents : ∀ c ∈ e.curves,
      (Codec.table toString component? CurveEntry.codec).Faithful c.2 := fun c hc =>
    .table (h.curves c hc).nodup (fun i hi => component?_toString ((h.curves c hc).keys i hi))
      fun i hi => CurveEntry.faithful_codec ((h.curves c hc).entries i hi)
  exact Shape.faithful_codec (by decide) ⟨faithful_text _, faithful_text _,
    .pair (faithful_int64 h.start) (faithful_int64 h.stop),
    .table h.paths (fun _ _ => rfl) hcomponents, trivial⟩ rfl

lemma ImageEntry.faithful_codec (e : ImageEntry) : ImageEntry.codec.Faithful e :=
  Shape.faithful_codec (by decide) ⟨faithful_text _, faithful_text _, faithful_text _,
    .pair (faithful_word32 _) (faithful_word32 _), faithful_text _, faithful_text _, trivial⟩ rfl

lemma TextureEntry.faithful_codec (e : TextureEntry) : TextureEntry.codec.Faithful e :=
  Shape.faithful_codec (by decide) ⟨faithful_text _, faithful_text _, faithful_text _,
    faithful_link _, trivial⟩ rfl

lemma MaterialEntry.faithful_codec (e : MaterialEntry) : MaterialEntry.codec.Faithful e :=
  Shape.faithful_codec (by decide) ⟨faithful_text _, faithful_text _,
    .vector fun _ _ => faithful_double _, faithful_double _, faithful_bool _,
    .list fun r _ => Shape.faithful_codec (by decide) ⟨Ref.faithful_codec r, trivial⟩ rfl,
    trivial⟩ rfl

structure SubmeshEntry.Fits (e : SubmeshEntry) : Prop where
  vertices : IsSize e.vertices
  position : e.position.Fits
  normal : e.normal.Fits
  indices : e.indices.Fits

lemma SubmeshEntry.faithful_codec {e : SubmeshEntry} (h : e.Fits) : SubmeshEntry.codec.Faithful e :=
  Shape.faithful_codec (by decide) ⟨exact_size.faithful _ h.vertices,
    Range.faithful_codec h.position, Range.faithful_codec h.normal, Range.faithful_codec h.indices,
    trivial⟩ rfl

structure VertexAnimationEntry.Fits (e : VertexAnimationEntry) : Prop where
  frameStart : IsInt32 e.frameStart
  frameEnd : IsInt32 e.frameEnd
  averagingInterval : IsInt32 e.averagingInterval
  frames : e.frames.Fits

lemma VertexAnimationEntry.faithful_codec {e : VertexAnimationEntry} (h : e.Fits) :
    VertexAnimationEntry.codec.Faithful e :=
  Shape.faithful_codec (by decide) ⟨faithful_text _, exact_int32.faithful _ h.frameStart,
    exact_int32.faithful _ h.frameEnd, faithful_bool _, exact_int32.faithful _ h.averagingInterval,
    faithful_bool _, Range.faithful_codec h.frames, trivial⟩ rfl

structure MeshEntry.Fits (e : MeshEntry) : Prop where
  submeshes : ∀ s ∈ e.submeshes, s.Fits
  vertexAnimations : ∀ v ∈ e.vertexAnimations, v.Fits

lemma MeshEntry.faithful_codec {e : MeshEntry} (h : e.Fits) : MeshEntry.codec.Faithful e :=
  Shape.faithful_codec (by decide) ⟨faithful_text _, faithful_text _,
    .list fun _ _ => Ref.faithful_codec _,
    .list fun s hs => SubmeshEntry.faithful_codec (h.submeshes s hs),
    .list fun v hv => VertexAnimationEntry.faithful_codec (h.vertexAnimations v hv), trivial⟩ rfl

lemma BoneEntry.faithful_codec (e : BoneEntry) : BoneEntry.codec.Faithful e :=
  Shape.faithful_codec (by decide)
    ⟨faithful_text _, faithful_optionalText _, .list fun _ _ => faithful_double _, trivial⟩ rfl

lemma ArmatureEntry.faithful_codec (e : ArmatureEntry) : ArmatureEntry.codec.Faithful e :=
  Shape.faithful_codec (by decide)
    ⟨faithful_text _, faithful_text _, .list fun _ _ => BoneEntry.faithful_codec _, trivial⟩ rfl

lemma SoundEntry.faithful_codec (e : SoundEntry) : SoundEntry.codec.Faithful e :=
  Shape.faithful_codec (by decide) ⟨faithful_text _, faithful_text _, faithful_text _, trivial⟩ rfl

lemma SpeakerEntry.faithful_codec (e : SpeakerEntry) : SpeakerEntry.codec.Faithful e :=
  Shape.faithful_codec (by decide) ⟨faithful_text _, faithful_text _, faithful_link _,
    faithful_double _, faithful_double _, faithful_bool _, faithful_double _, faithful_bool _,
    trivial⟩ rfl

lemma AnimationEntry.faithful_codec (e : AnimationEntry) : AnimationEntry.codec.Faithful e :=
  Shape.faithful_codec (by decide) ⟨faithful_link _, trivial⟩ rfl

lemma ObjectEntry.faithful_codec (e : ObjectEntry) : ObjectEntry.codec.Faithful e :=
  Shape.faithful_codec (by decide) ⟨faithful_text _, faithful_text _, faithful_text _,
    faithful_link _, faithful_link _, .list fun _ _ => faithful_double _,
    .option (fun _ _ => AnimationEntry.faithful_codec _) (fun _ h => nomatch h), trivial⟩ rfl

structure SceneEntry.Fits (e : SceneEntry) : Prop where
  frameStart : IsInt32 e.frameStart
  frameEnd : IsInt32 e.frameEnd

lemma SceneEntry.faithful_codec {e : SceneEntry} (h : e.Fits) : SceneEntry.codec.Faithful e :=
  Shape.faithful_codec (by decide) ⟨faithful_text _, faithful_text _,
    .list fun _ _ => Ref.faithful_codec _, exact_int32.faithful _ h.frameStart,
    exact_int32.faithful _ h.frameEnd, faithful_double _, faithful_link _, trivial⟩ rfl

/-- The whole numbers of the manifest have the widths that they are read with, no table has a key
twice, and its other members are as a reader stores them. -/
structure Fits (m : Manifest) : Prop where
  actions : ∀ e ∈ m.actions, e.Fits
  meshes : ∀ e ∈ m.meshes, e.Fits
  scenes : ∀ e ∈ m.scenes, e.Fits
  binaries : ∀ e ∈ m.binaries, e.Fits
  keys : (m.extra.map Prod.fst).Nodup
  extra : ∀ e ∈ m.extra, e.2.Stored

/-- Other members are kept in their order. -/
lemma readMembers_keepExtra {extra : List (String × Json)} (hnames : ∀ e ∈ extra, e.1 ∉ shape.names)
    (hstored : ∀ e ∈ extra, e.2.Stored) (hdepth : ∀ e ∈ extra, e.2.depth < 127)
    (hsettled : ∀ e ∈ extra, e.2.Settled) {slots : shape.Slots} {done : List (String × Json)}
    (hkeys : ((done ++ extra).map Prod.fst).Nodup) :
    shape.readMembers keepExtra slots done (Json.rereadMembers extra) =
      .ok (slots, done ++ extra) := by
  induction extra generalizing done with
  | nil => simp [Json.rereadMembers, Shape.readMembers]
  | cons e extra ih =>
    obtain ⟨key, value⟩ := e
    rw [List.forall_mem_cons] at hnames hstored hdepth hsettled
    have hvalue : (Json.reread value).store 126 = .ok value :=
      Json.store_reread value hstored.1 hsettled.1 126 (Nat.le_of_lt_succ hdepth.1)
    have hnew : key ∉ done.map Prod.fst := by
      rw [List.map_append, List.nodup_append] at hkeys
      exact fun hmem => hkeys.2.2 _ hmem _ List.mem_cons_self rfl
    have hkeep : keepExtra done key (Json.reread value) = .ok (done ++ [(key, value)]) := by
      refine bind_eq_ok.2 ⟨value, hvalue, ?_⟩
      rw [Entries.put_of_notMem hnew]
      rfl
    rw [List.append_cons] at hkeys ⊢
    refine (Shape.readMembers_other (Shape.put_eq_none hnames.1 _ slots) keepExtra
      done _ _).trans ?_
    rw [hkeep]
    exact ih hnames.2 hstored.2 hdepth.2 hsettled.2 hkeys

/-- What the fields of a manifest hold. -/
def fields (m : Manifest) :
    String × String × List ActionEntry × List ImageEntry × List TextureEntry ×
    List MaterialEntry × List MeshEntry × List ArmatureEntry × List SoundEntry × List SpeakerEntry ×
    List ObjectEntry × List SceneEntry × List Sections.Table × List Message × List Message × Unit :=
  (m.formatVersion, m.source, m.actions, m.images, m.textures, m.materials, m.meshes,
    m.armatures, m.sounds, m.speakers, m.objects, m.scenes, m.binaries, m.warnings, m.errors, ())

lemma faithful_fields {m : Manifest} (hfits : m.Fits) : shape.Faithful m.fields :=
  ⟨faithful_text _, faithful_text _,
    .list fun e he => ActionEntry.faithful_codec (hfits.actions e he),
    .list fun e _ => ImageEntry.faithful_codec e,
    .list fun e _ => TextureEntry.faithful_codec e, .list fun e _ => MaterialEntry.faithful_codec e,
    .list fun e he => MeshEntry.faithful_codec (hfits.meshes e he),
    .list fun e _ => ArmatureEntry.faithful_codec e,
    .list fun e _ => SoundEntry.faithful_codec e, .list fun e _ => SpeakerEntry.faithful_codec e,
    .list fun e _ => ObjectEntry.faithful_codec e,
    .list fun e he => SceneEntry.faithful_codec (hfits.scenes e he),
    .list fun e he => Sections.Table.faithful_codec (hfits.binaries e he),
    .list fun e _ => Message.faithful_codec e, .list fun e _ => Message.faithful_codec e, trivial⟩

lemma faithful_codec {m : Manifest} (hfits : m.Fits) (hnames : ∀ e ∈ m.extra, e.1 ∉ shape.names)
    (hdepth : ∀ e ∈ m.extra, e.2.depth < 127) : codec.Faithful m := by
  intro hsettled
  change codec.read (Json.object (shape.writeMembers m.fields ++ m.extra)).reread = _
  obtain ⟨hfields, hextra⟩ := List.forall_mem_append.1 (Json.settled_object.1 hsettled)
  have hread : shape.readMembers keepExtra shape.vacant []
      (Json.rereadMembers (shape.writeMembers m.fields ++ m.extra)) =
      .ok (shape.filled m.fields, m.extra) := by
    rw [Json.rereadMembers_append, Shape.readMembers_append,
      Shape.readMembers_writeMembers (by decide) (faithful_fields hfits) hfields]
    exact readMembers_keepExtra hnames hfits.extra hdepth hextra hfits.keys
  rw [Json.reread]
  refine bind_eq_ok.2 ⟨_, hread, bind_eq_ok.2 ⟨(), rfl, ?_⟩⟩
  exact bind_eq_ok.2 ⟨m.fields, shape.close_filled _, rfl⟩

/-- A manifest comes back from its text in either style. Its version has to be one, its other
members must not have the names of fields and must not nest too deep, and its numbers must not
drift; those that are not finite do. -/
theorem ofText_toText_of_fits {m : Manifest} (hfits : m.Fits)
    (hversion : (Version.ofText? m.formatVersion).isSome)
    (hnames : ∀ e ∈ m.extra, e.1 ∉ shape.names) (hdepth : ∀ e ∈ m.extra, e.2.depth < 127)
    (hsettled : (codec.write m).Settled) (style : Json.Style) :
    ofText (m.toText style) = .ok m := by
  rw [ofText, toText, (faithful_codec hfits hnames hdepth).ofText_toText hsettled style]
  exact if_pos hversion

/-- A manifest with curves and with members that are no fields, neither of them in order of their
keys. -/
def patchwork : Manifest :=
  { empty "6.03" "\"a\".blend" with
    actions := [⟨"wave", "u", (-1, 24),
      [("scale", [(2, ⟨⟨0, 3⟩, 0, 1⟩), (0, ⟨⟨3, 6⟩, 3, 1⟩)]), ("location", [(1, ⟨⟨9, 3⟩, 0, 1⟩)])]⟩]
    materials := [⟨"skin", "v", #v[0.1, 0.5, 1], 1, false, [⟨"w"⟩]⟩]
    scenes := [⟨"stage", "s", [⟨"o"⟩], 1, 250, 29.97, none⟩]
    binaries := [⟨some "a.bin", 0, 0, 48, 48, 48⟩]
    extra := [("seed", .number (.whole (-7))),
      ("note",
        .object [("by", .text "\n"), ("with", .list [.null, .number (.double 0.1), .object []])])] }

theorem patchwork_reads_back :
    patchwork.Fits ∧ (codec.write patchwork).Settled ∧
    ofText (patchwork.toText .compact) = .ok patchwork ∧
      ofText (patchwork.toText .wide) = .ok patchwork := by
  have hfits : patchwork.Fits := by
    refine ⟨?_, List.forall_mem_nil _, ?_, ?_, by decide, ?_⟩
    · refine List.forall_mem_singleton.2
        ⟨by decide, by decide, by decide, List.forall_mem_cons.2 ⟨?_, ?_⟩⟩
      · refine ⟨by decide, by decide, List.forall_mem_cons.2 ⟨⟨by decide, by decide⟩, ?_⟩⟩
        exact List.forall_mem_singleton.2 ⟨by decide, by decide⟩
      · refine List.forall_mem_singleton.2 ⟨by decide, by decide, ?_⟩
        exact List.forall_mem_singleton.2 ⟨by decide, by decide⟩
    · exact List.forall_mem_singleton.2 ⟨by decide, by decide⟩
    · exact List.forall_mem_singleton.2 ⟨by decide, by decide, by decide, by decide, by decide⟩
    · refine List.forall_mem_cons.2 ⟨⟨by decide, by decide⟩, ?_⟩
      refine List.forall_mem_singleton.2 ⟨by decide, trivial, ?_, trivial⟩
      exact ⟨trivial, trivial, ⟨List.Pairwise.nil, trivial⟩, trivial⟩
  have hversion : (Version.ofText? patchwork.formatVersion).isSome := by decide +kernel
  have hnames : ∀ e ∈ patchwork.extra, e.1 ∉ shape.names := by decide
  have hdepth : ∀ e ∈ patchwork.extra, e.2.depth < 127 := by decide
  have hsettled : (codec.write patchwork).Settled := by decide +kernel
  exact ⟨hfits, hsettled, ofText_toText_of_fits hfits hversion hnames hdepth hsettled .compact,
    ofText_toText_of_fits hfits hversion hnames hdepth hsettled .wide⟩

end Manifest

end SceneExport
