import Mathlib
import SceneExport.Json.Codec
import SceneExport.Proofs.Basics
import SceneExport.Proofs.Entries
import SceneExport.Proofs.Json.Reading

/-!
# Codecs read back what they write

A number may drift when its text is read, because its digits are scaled with a rounding of their
own. A value is *settled* when none of its numbers drifts. A codec is *faithful* at a value when it
reads the settled written form back as this value. It is *exact* on a domain when it reads into the
domain and is faithful on all of it. Both are proved constructor by constructor, and a record has
them from its fields.
-/
namespace SceneExport

open Json (Codec Fault Tree)

/-- The number is read back from its text. -/
def Number.Settled : Number → Prop
  | .whole _ => True
  | .double x => Codec.double.read (Number.double x).reread = .ok x
  | .single x => Codec.single.read (Number.single x).reread = .ok x

instance Number.decidableSettled : (n : Number) → Decidable n.Settled
  | .whole _ => .isTrue trivial
  | .double x => inferInstanceAs (Decidable (Codec.double.read (Number.double x).reread = .ok x))
  | .single x => inferInstanceAs (Decidable (Codec.single.read (Number.single x).reread = .ok x))

namespace Json

mutual

/-- The numbers of a value, in the order of its text. -/
def numbers : Json → List Number
  | .number n => [n]
  | .list items => numbersOfItems items
  | .object members => numbersOfMembers members
  | .null | .bool _ | .text _ => []

def numbersOfItems : List Json → List Number
  | [] => []
  | item :: items => numbers item ++ numbersOfItems items

def numbersOfMembers : List (String × Json) → List Number
  | [] => []
  | (_, value) :: members => numbers value ++ numbersOfMembers members

end

/-- No number of the value drifts when its text is read. -/
def Settled (v : Json) : Prop := ∀ n ∈ v.numbers, n.Settled

instance decidableSettled (v : Json) : Decidable v.Settled :=
  inferInstanceAs (Decidable (∀ n ∈ v.numbers, n.Settled))

lemma settled_list {items : List Json} : (Json.list items).Settled ↔ ∀ v ∈ items, v.Settled := by
  have hnumbers : (Json.list items).numbers = items.flatMap numbers := by
    rw [numbers]
    induction items with
    | nil => rfl
    | cons item items ih => rw [numbersOfItems, ih, List.flatMap_cons]
  simp only [Settled, hnumbers, List.mem_flatMap]
  exact ⟨fun h v hv n hn => h n ⟨v, hv, hn⟩, fun h n ⟨v, hv, hn⟩ => h v hv n hn⟩

lemma settled_object {members : List (String × Json)} :
    (Json.object members).Settled ↔ ∀ m ∈ members, m.2.Settled := by
  have hnumbers : (Json.object members).numbers = members.flatMap fun m => numbers m.2 := by
    rw [numbers]
    induction members with
    | nil => rfl
    | cons m members ih => rw [numbersOfMembers, ih, List.flatMap_cons]
  simp only [Settled, hnumbers, List.mem_flatMap]
  exact ⟨fun h m hm n hn => h n ⟨m, hm, hn⟩, fun h n ⟨m, hm, hn⟩ => h m hm n hn⟩

namespace Codec

variable {α β : Type}

/-- The written form of a value, when it is settled, is read back. -/
def Faithful (c : Codec α) (a : α) : Prop :=
  (c.write a).Settled → c.read (c.write a).reread = .ok a

/-- The codec is faithful on the domain and reads nothing else. -/
structure Exact (c : Codec α) (D : α → Prop) : Prop where
  faithful : ∀ a, D a → c.Faithful a
  sound : ∀ t a, c.read t = .ok a → D a

lemma Exact.of_forall {c : Codec α} (h : ∀ a, c.Faithful a) : c.Exact fun _ => True :=
  ⟨fun a _ => h a, fun _ _ _ => trivial⟩

lemma faithful_bool (b : Bool) : Codec.bool.Faithful b := fun _ => rfl

lemma exact_bool : Codec.bool.Exact fun _ => True := .of_forall faithful_bool

lemma faithful_text (s : String) : Codec.text.Faithful s := fun _ => rfl

lemma exact_text : Codec.text.Exact fun _ => True := .of_forall faithful_text

lemma faithful_double (x : Float) :
    Codec.double.Faithful x := fun h => h (.double x) List.mem_cons_self

lemma exact_double : Codec.double.Exact fun _ => True := .of_forall faithful_double

lemma faithful_single (x : Float32) :
    Codec.single.Faithful x := fun h => h (.single x) List.mem_cons_self

lemma exact_single : Codec.single.Exact fun _ => True := .of_forall faithful_single

lemma faithful_whole {lo hi n : Int} (hlo : -0x8000000000000000 ≤ lo)
    (hhi : hi ≤ 0xffffffffffffffff) (hn : lo ≤ n ∧ n ≤ hi) : (whole lo hi).Faithful n := by
  intro _
  have hread : (Json.number (.whole n)).reread = .number (some (.whole n)) := by
    rw [reread, Number.reread_whole (by omega) (by omega)]
  exact (congrArg (whole lo hi).read hread).trans (if_pos hn)

lemma le_of_read_whole {lo hi n : Int} {t : Tree} (h : (whole lo hi).read t = .ok n) :
    lo ≤ n ∧ n ≤ hi := by
  simp only [whole] at h
  split at h
  · split_ifs at h with hn
    · exact Except.ok.inj h ▸ hn
  · exact nomatch h

lemma exact_whole {lo hi : Int} (hlo : -0x8000000000000000 ≤ lo) (hhi : hi ≤ 0xffffffffffffffff) :
    (whole lo hi).Exact fun n => lo ≤ n ∧ n ≤ hi :=
  ⟨fun _ hn => faithful_whole hlo hhi hn, fun _ _ h => le_of_read_whole h⟩

/-- The number has a signed form of 32 bits. -/
abbrev IsInt32 (n : Int) : Prop := -0x80000000 ≤ n ∧ n ≤ 0x7fffffff

lemma exact_int32 : int32.Exact IsInt32 := exact_whole (by decide) (by decide)

lemma Faithful.imap {c : Codec α} {forth : α → β} {back : β → α} {b : β} (h : c.Faithful (back b))
    (hb : forth (back b) = b) : (c.imap forth back).Faithful b := by
  intro hsettled
  exact (congrArg (Except.map forth) (h hsettled)).trans (congrArg _ hb)

lemma Exact.imap {c : Codec α} {D : α → Prop} {E : β → Prop} {forth : α → β} {back : β → α}
    (h : c.Exact D) (hback : ∀ b, E b → D (back b) ∧ forth (back b) = b)
    (hforth : ∀ a, D a → E (forth a)) : (c.imap forth back).Exact E := by
  refine ⟨fun b hb => (h.faithful _ (hback b hb).1).imap (hback b hb).2, fun t b hread => ?_⟩
  obtain ⟨a, hread', rfl⟩ := map_eq_ok.1 hread
  exact hforth a (h.sound t a hread')

lemma Faithful.checked {c : Codec α} {forth : α → Option β} {back : β → α} {b : β}
    (h : c.Faithful (back b)) (hb : forth (back b) = some b) :
    (c.checked forth back).Faithful b := by
  intro hsettled
  refine bind_eq_ok.2 ⟨back b, h hsettled, ?_⟩
  rw [hb]

lemma Exact.checked {c : Codec α} {D : α → Prop} {E : β → Prop} {forth : α → Option β}
    {back : β → α} (h : c.Exact D) (hback : ∀ b, E b → D (back b) ∧ forth (back b) = some b)
    (hforth : ∀ a b, D a → forth a = some b → E b) : (c.checked forth back).Exact E := by
  refine ⟨fun b hb => (h.faithful _ (hback b hb).1).checked (hback b hb).2, fun t b hread => ?_⟩
  obtain ⟨a, hread', hcheck⟩ := bind_eq_ok.1 hread
  split at hcheck
  · rename_i b' hb
    exact Except.ok.inj hcheck ▸ hforth a b' (h.sound t a hread') hb
  · exact nomatch hcheck

/-- The number has an unsigned form of 64 bits. -/
abbrev IsSize (n : Nat) : Prop := n ≤ 0xffffffffffffffff

lemma exact_size : size.Exact IsSize :=
  (exact_whole (by decide) (by decide)).imap
    (fun _ hn => ⟨⟨Int.natCast_nonneg _, Int.ofNat_le.2 hn⟩, rfl⟩) fun _ hn => Int.toNat_le.2 hn.2

lemma faithful_word32 (w : UInt32) : word32.Faithful w := by
  have hw : w.toNat ≤ 0xffffffff := Nat.le_of_lt_succ w.toNat_lt
  refine Faithful.imap (faithful_whole (by decide) (by decide) ⟨Int.natCast_nonneg _, ?_⟩) ?_
  · exact Int.ofNat_le.2 hw
  · exact UInt32.ofNat_toNat

lemma exact_word32 : word32.Exact fun _ => True := .of_forall faithful_word32

lemma Faithful.option {c : Codec α} {o : Option α} (h : ∀ a ∈ o, c.Faithful a)
    (hnull : ∀ a, c.read .null ≠ .ok a) : c.option.Faithful o := by
  intro hsettled
  cases o with
  | none => rfl
  | some a =>
    have hread := h a rfl hsettled
    simp only [Codec.option]
    split
    · rename_i hnull'
      exact absurd (hnull' ▸ hread) (hnull a)
    · exact map_eq_ok.2 ⟨a, hread, rfl⟩

lemma faithful_optionalText (o : Option String) : text.option.Faithful o :=
  .option (fun s _ => faithful_text s) fun _ h => nomatch h

lemma Exact.option {c : Codec α} {D : α → Prop} (h : c.Exact D)
    (hnull : ∀ a, c.read .null ≠ .ok a) : c.option.Exact fun o => ∀ a ∈ o, D a := by
  refine ⟨fun o ho => .option (fun a ha => h.faithful a (ho a ha)) hnull, fun t o hread => ?_⟩
  simp only [Codec.option] at hread
  split at hread
  · exact Except.ok.inj hread ▸ fun _ ha => nomatch ha
  · obtain ⟨a, hread', rfl⟩ := map_eq_ok.1 hread
    exact fun _ ha => Option.some.inj ha ▸ h.sound _ a hread'

/-- Every item of a list that is read was read on its own. -/
lemma exists_read_of_readAll {read : Tree → Except Fault α} {ts : List Tree} {as : List α}
    (h : readAll read ts = .ok as) : ∀ a ∈ as, ∃ t, read t = .ok a := by
  induction ts generalizing as with
  | nil => exact Except.ok.inj h ▸ fun _ ha => nomatch ha
  | cons t ts ih =>
    obtain ⟨a, ha, h⟩ := bind_eq_ok.1 h
    obtain ⟨as', has, h⟩ := bind_eq_ok.1 h
    exact Except.ok.inj h ▸ List.forall_mem_cons.2 ⟨⟨t, ha⟩, ih has⟩

lemma readAll_map {read : Tree → Except Fault α} {f : α → Tree} {as : List α}
    (h : ∀ a ∈ as, read (f a) = .ok a) : readAll read (as.map f) = .ok as := by
  induction as with
  | nil => rfl
  | cons a as ih =>
    obtain ⟨ha, has⟩ := List.forall_mem_cons.1 h
    exact bind_eq_ok.2 ⟨a, ha, bind_eq_ok.2 ⟨as, ih has, rfl⟩⟩

lemma reread_list_map (write : α → Json) (as : List α) :
    (Json.list (as.map write)).reread = .list (as.map fun a => (write a).reread) none := by
  rw [reread, rereadItems_eq_map, List.map_map]
  rfl

lemma settled_of_mem {write : α → Json} {as : List α} (h : (Json.list (as.map write)).Settled) :
    ∀ a ∈ as, (write a).Settled :=
  fun _ ha => settled_list.1 h _ (List.mem_map_of_mem ha)

lemma Faithful.list {c : Codec α} {as : List α} (h : ∀ a ∈ as, c.Faithful a) :
    (Codec.list c).Faithful as := by
  intro hsettled
  have hread : readAll c.read (as.map fun a => (c.write a).reread) = .ok as :=
    readAll_map fun a ha => h a ha (settled_of_mem hsettled a ha)
  change (Codec.list c).read (Json.list (as.map c.write)).reread = _
  rw [reread_list_map]
  exact bind_eq_ok.2 ⟨as, hread, rfl⟩

lemma Exact.list {c : Codec α} {D : α → Prop} (h : c.Exact D) :
    (Codec.list c).Exact fun as => ∀ a ∈ as, D a := by
  refine ⟨fun as has => .list fun a ha => h.faithful a (has a ha), fun t as hread => ?_⟩
  simp only [Codec.list] at hread
  split at hread
  · obtain ⟨as', hall, hread⟩ := bind_eq_ok.1 hread
    obtain ⟨-, -, hread⟩ := bind_eq_ok.1 hread
    obtain rfl := Except.ok.inj hread
    exact fun a ha => (exists_read_of_readAll hall a ha).elim fun t ht => h.sound t a ht
  · exact nomatch hread

lemma exists_read_of_readSome {read : Tree → Except Fault α} {stop : Option Stop} {n : Nat}
    {ts rest : List Tree} {as : Vector α n} (h : readSome read stop n ts = .ok (as, rest)) :
    ∀ a ∈ as.toList, ∃ t, read t = .ok a := by
  induction n generalizing ts rest with
  | zero =>
    obtain rfl := as.eq_empty
    exact fun _ ha => nomatch ha
  | succ n ih =>
    cases ts with
    | nil =>
      obtain ⟨-, -, h⟩ := bind_eq_ok.1 h
      exact nomatch h
    | cons t ts =>
      obtain ⟨a, ha, h⟩ := bind_eq_ok.1 h
      obtain ⟨⟨as', rest'⟩, has, h⟩ := bind_eq_ok.1 h
      have htail := ih has
      obtain rfl := (Prod.mk.inj (Except.ok.inj h)).1
      have hlist : (⟨#[a] ++ as'.toArray, by simp; omega⟩ : Vector α (n + 1)).toList =
          a :: as'.toList := by
        simp [Vector.toList]
      rw [hlist]
      exact List.forall_mem_cons.2 ⟨⟨t, ha⟩, htail⟩

lemma readSome_map {read : Tree → Except Fault α} {f : α → Tree} (stop : Option Stop) {as : List α}
    (h : ∀ a ∈ as, read (f a) = .ok a) :
    readSome read stop as.length (as.map f) = .ok (⟨as.toArray, rfl⟩, []) := by
  induction as with
  | nil => rfl
  | cons a as ih =>
    obtain ⟨ha, has⟩ := List.forall_mem_cons.1 h
    refine bind_eq_ok.2 ⟨a, ha, bind_eq_ok.2 ⟨_, ih has, ?_⟩⟩
    simp [pure, Except.pure]

/-- The items of a vector are read back. -/
lemma readSome_toList {c : Codec α} {n : Nat} {as : Vector α n} (h : ∀ a ∈ as.toList, c.Faithful a)
    (hsettled : (Json.list (as.toList.map c.write)).Settled) :
    readSome c.read none n (as.toList.map fun a => (c.write a).reread) = .ok (as, []) := by
  obtain ⟨⟨as⟩, rfl⟩ := as
  exact readSome_map none fun a ha => h a ha (settled_of_mem hsettled a ha)

/-- A codec of vectors reads one item after another, whatever it does with items that are left. -/
structure ReadsItems {n : Nat} (full : Codec (Vector α n)) (c : Codec α) : Prop where
  write_eq : ∀ as, full.write as = .list (as.toList.map c.write)
  read_list : ∀ {items as}, readSome c.read none n items = .ok (as, []) →
    full.read (.list items none) = .ok as
  exists_readSome : ∀ {t as}, full.read t = .ok as →
    ∃ items stop rest, readSome c.read stop n items = .ok (as, rest)

section Items

variable {n : Nat} {full : Codec (Vector α n)} {c : Codec α}

lemma ReadsItems.faithful (hfull : full.ReadsItems c) {as : Vector α n}
    (h : ∀ a ∈ as.toList, c.Faithful a) : full.Faithful as := by
  intro hsettled
  rw [hfull.write_eq] at hsettled ⊢
  rw [reread_list_map]
  exact hfull.read_list (readSome_toList h hsettled)

lemma ReadsItems.exact {D : α → Prop} (hfull : full.ReadsItems c) (h : c.Exact D) :
    full.Exact fun as => ∀ a ∈ as.toList, D a := by
  refine ⟨fun as has => hfull.faithful fun a ha => h.faithful a (has a ha), ?_⟩
  intro t as hread a ha
  obtain ⟨items, stop, rest, hsome⟩ := hfull.exists_readSome hread
  obtain ⟨item, hitem⟩ := exists_read_of_readSome hsome a ha
  exact h.sound item a hitem

lemma readsItems_vector (n : Nat) (c : Codec α) : (Codec.vector n c).ReadsItems c where
  write_eq _ := rfl
  read_list h := bind_eq_ok.2 ⟨_, h, rfl⟩
  exists_readSome := by
    intro t as hread
    simp only [Codec.vector] at hread
    split at hread
    · obtain ⟨⟨as', rest⟩, hsome, hread⟩ := bind_eq_ok.1 hread
      split_ifs at hread
      · cases hread
      · obtain ⟨-, -, hread⟩ := bind_eq_ok.1 hread
        obtain rfl : as' = as := Except.ok.inj hread
        exact ⟨_, _, rest, hsome⟩
    · cases hread

lemma readsItems_block (n : Nat) (c : Codec α) : (Codec.block n c).ReadsItems c where
  write_eq _ := rfl
  read_list h := bind_eq_ok.2 ⟨_, h, rfl⟩
  exists_readSome := by
    intro t as hread
    simp only [Codec.block] at hread
    split at hread
    · obtain ⟨⟨as', rest⟩, hsome, hread⟩ := bind_eq_ok.1 hread
      cases rest with
      | nil =>
        obtain ⟨-, -, hread⟩ := bind_eq_ok.1 hread
        obtain rfl : as' = as := Except.ok.inj hread
        exact ⟨_, _, [], hsome⟩
      | cons t ts =>
        obtain ⟨-, -, hread⟩ := bind_eq_ok.1 hread
        cases hread
    · cases hread

end Items

lemma Faithful.vector {c : Codec α} {n : Nat} {as : Vector α n}
    (h : ∀ a ∈ as.toList, c.Faithful a) : (Codec.vector n c).Faithful as :=
  (readsItems_vector n c).faithful h

lemma Exact.vector {c : Codec α} {D : α → Prop} (n : Nat) (h : c.Exact D) :
    (Codec.vector n c).Exact fun as => ∀ a ∈ as.toList, D a :=
  (readsItems_vector n c).exact h

lemma Exact.block {c : Codec α} {D : α → Prop} (n : Nat) (h : c.Exact D) :
    (Codec.block n c).Exact fun as => ∀ a ∈ as.toList, D a :=
  (readsItems_block n c).exact h

lemma Faithful.pair {c : Codec α} {a b : α} (ha : c.Faithful a) (hb : c.Faithful b) :
    c.pair.Faithful (a, b) := by
  refine Faithful.imap (Faithful.vector ?_) rfl
  exact List.forall_mem_cons.2 ⟨ha, List.forall_mem_singleton.2 hb⟩

lemma Exact.pair {c : Codec α} {D : α → Prop} (h : c.Exact D) :
    c.pair.Exact fun p => D p.1 ∧ D p.2 := by
  refine (h.vector 2).imap (fun p hp => ⟨?_, rfl⟩) fun v hv => ⟨hv _ (by simp), hv _ (by simp)⟩
  exact List.forall_mem_cons.2 ⟨hp.1, List.forall_mem_singleton.2 hp.2⟩

lemma readTable_map {κ : Type} [DecidableEq κ] {key? : MemberKey → Option κ}
    {read : Tree → Except Fault α} {f : κ × α → MemberKey × Tree} {done entries : List (κ × α)}
    (hnodup : ((done ++ entries).map Prod.fst).Nodup)
    (h : ∀ e ∈ entries, key? (f e).1 = some e.1 ∧ read (f e).2 = .ok e.2) :
    readTable key? read done (entries.map f) = .ok (done ++ entries) := by
  induction entries generalizing done with
  | nil => simp [readTable]
  | cons e entries ih =>
    obtain ⟨⟨hkey, hread⟩, hentries⟩ := List.forall_mem_cons.1 h
    have hnew : e.1 ∉ done.map Prod.fst := by
      rw [List.map_append, List.nodup_append] at hnodup
      exact fun hmem => hnodup.2.2 _ hmem _ List.mem_cons_self rfl
    have hput : Entries.put e.1 e.2 done = done ++ [e] := Entries.put_of_notMem hnew
    rw [List.append_cons] at hnodup ⊢
    simp only [List.map_cons, readTable, hkey]
    exact bind_eq_ok.2 ⟨e.2, hread, by rw [hput, ih hnodup hentries]⟩

/-- Tables with distinct keys are read back if every key is. -/
lemma Faithful.table {κ : Type} [DecidableEq κ] {name : κ → String} {key? : MemberKey → Option κ}
    {c : Codec α} {entries : List (κ × α)} (hnodup : (entries.map Prod.fst).Nodup)
    (hkey : ∀ e ∈ entries, key? (keyOf (name e.1)) = some e.1) (h : ∀ e ∈ entries, c.Faithful e.2) :
    (Codec.table name key? c).Faithful entries := by
  intro hsettled
  have hread :
      readTable key? c.read [] (entries.map fun e => (keyOf (name e.1), (c.write e.2).reread)) =
        .ok entries :=
    readTable_map hnodup fun e he =>
      ⟨hkey e he, h e he (settled_object.1 hsettled _ (List.mem_map_of_mem he))⟩
  change (Codec.table name key? c).read
    (Json.object (entries.map fun e => (name e.1, c.write e.2))).reread = _
  rw [reread, rereadMembers_eq_map, List.map_map]
  exact bind_eq_ok.2 ⟨entries, hread, rfl⟩

/-- A name is read back when no value before it in the list has the same. -/
lemma faithful_oneOf [DecidableEq α] {names : List (String × α)} {a : α}
    (h : names.lookup (((names.find? fun p => p.2 = a).map Prod.fst).getD "") = some a) :
    (oneOf names).Faithful a := by
  intro _
  change oneOf.named names _ = _
  rw [oneOf.named, h]

end Codec

/-- The codec of the field is exact, and what stands for the field when it is left out is in the
domain. -/
structure Member.Exact {α : Type} (f : Member α) (D : α → Prop) : Prop where
  codec : f.codec.Exact D
  absent : ∀ a, f.absent = some a → D a
  beyond : ∀ a, f.beyond = some a → D a

namespace Member

variable {α : Type} {c : Codec α} {D : α → Prop}

/-- The field can get this value: it is read, or it stands for the field when that is left out. -/
def Gives (f : Member α) (a : α) : Prop :=
  (∃ t, f.codec.read t = .ok a) ∨ f.absent = some a ∨ f.beyond = some a

lemma Exact.of_gives {f : Member α} (h : f.Exact D) {a : α} (ha : f.Gives a) : D a := by
  rcases ha with ⟨t, hread⟩ | habsent | hbeyond
  · exact h.codec.sound t a hread
  · exact h.absent a habsent
  · exact h.beyond a hbeyond

lemma exact_required (name : String) (h : c.Exact D) : (required name c).Exact D :=
  ⟨h, fun _ ha => (nomatch ha), fun _ ha => (nomatch ha)⟩

lemma exact_nullable (name : String) (h : c.Exact D) (hnull : ∀ a, c.read .null ≠ .ok a) :
    (nullable name c).Exact fun o => ∀ a ∈ o, D a :=
  ⟨h.option hnull, fun _ ha => Option.some.inj ha ▸ fun _ hnone => (nomatch hnone),
    fun _ ha => (nomatch ha)⟩

lemma exact_defaulted (name : String) {value : α} (h : c.Exact D) (hvalue : D value) :
    (defaulted name c value).Exact D :=
  ⟨h, fun _ ha => Option.some.inj ha ▸ hvalue, fun _ ha => Option.some.inj ha ▸ hvalue⟩

/-- A list that may be left out. -/
lemma exact_listed (name : String) (h : c.Exact D) :
    (defaulted name (.list c) []).Exact fun as => ∀ a ∈ as, D a :=
  exact_defaulted name h.list fun _ ha => nomatch ha

/-- A name that may be left out. -/
lemma exact_optional (name : String) : (defaulted name (.option .text) none).Exact fun _ => True :=
  exact_defaulted name (.of_forall Codec.faithful_optionalText) trivial

end Member

namespace Shape

variable {α β σ : Type}

def names : {β : Type} → Shape β → List String
  | _, .done => []
  | _, .field f rest => f.name :: rest.names

/-- Every field is read back. -/
def Faithful : {β : Type} → Shape β → β → Prop
  | _, .done, _ => True
  | _, .field f rest, (a, b) => f.codec.Faithful a ∧ rest.Faithful b

/-- Every field is exact on its part of the domain. -/
inductive Exact : {β : Type} → Shape β → (β → Prop) → Prop
  | done : Exact .done fun _ => True
  | field {α β : Type} {f : Member α} {rest : Shape β} {D : α → Prop} {E : β → Prop} :
    f.Exact D → Exact rest E → Exact (.field f rest) fun p => D p.1 ∧ E p.2

/-- The slots of a record whose members were all read. -/
def filled : {β : Type} → (s : Shape β) → β → s.Slots
  | _, .done, _ => ()
  | _, .field _ rest, (a, b) => (some a, rest.filled b)

lemma names_writeMembers (s : Shape β) (b : β) : (s.writeMembers b).map Prod.fst = s.names := by
  induction s with
  | done => rfl
  | field f rest ih =>
    obtain ⟨a, b⟩ := b
    simp only [writeMembers, List.map_cons, names, ih]

lemma put_field (f : Member α) (rest : Shape β) (key : String) (t : Tree) (found : Option α)
    (slots : rest.Slots) :
    (field f rest).put key t (found, slots) =
      if f.name = key then
        some (if found.isSome then .error .mismatch
          else (f.codec.read t).map fun a => (some a, slots))
      else (rest.put key t slots).map fun r => r.map fun others => (found, others) := rfl

lemma readMembers_put {s : Shape β} {key : String} {t : Tree} {slots : s.Slots}
    {r : Except Fault s.Slots} (h : s.put key t slots = some r)
    (other : σ → String → Tree → Except Fault σ) (acc : σ) (plain : Bool)
    (members : List (MemberKey × Tree)) :
    s.readMembers other slots acc ((⟨some key, plain⟩, t) :: members) =
      r >>= fun slots => s.readMembers other slots acc members := by
  simp only [readMembers, h]

lemma readMembers_other {s : Shape β} {key : String} {t : Tree} {slots : s.Slots}
    (h : s.put key t slots = none) (other : σ → String → Tree → Except Fault σ) (acc : σ)
    (plain : Bool) (members : List (MemberKey × Tree)) :
    s.readMembers other slots acc ((⟨some key, plain⟩, t) :: members) =
      other acc key t >>= fun acc => s.readMembers other slots acc members := by
  simp only [readMembers, h]

lemma close_eq_ok {f : Member α} {rest : Shape β} {found : Option α} {slots : rest.Slots}
    {p : α × β} :
    (field f rest).close (found, slots) = .ok p ↔
      found.or f.absent = some p.1 ∧ rest.close slots = .ok p.2 := by
  simp only [close]
  cases found.or f.absent with
  | none => exact ⟨fun h => (nomatch h), fun h => (nomatch h.1)⟩
  | some a =>
    refine ⟨fun h => ?_, fun ⟨ha, hb⟩ => ?_⟩
    · obtain ⟨_, ha, h⟩ := bind_eq_ok.1 h
      obtain ⟨b, hb, h⟩ := bind_eq_ok.1 h
      obtain rfl := Except.ok.inj h
      exact ⟨congrArg some (Except.ok.inj ha), hb⟩
    · obtain rfl := Option.some.inj ha
      exact bind_eq_ok.2 ⟨_, rfl, bind_eq_ok.2 ⟨p.2, hb, rfl⟩⟩

lemma readItems_nil {f : Member α} {rest : Shape β} {stop : Option Stop} {p : α × β}
    {items : List Tree} (h : (field f rest).readItems stop [] = .ok (p, items)) :
    f.beyond = some p.1 ∧ rest.readItems stop [] = .ok (p.2, items) := by
  obtain ⟨-, -, h⟩ := bind_eq_ok.1 h
  cases hbeyond : f.beyond with
  | none =>
    rw [hbeyond] at h
    exact nomatch h
  | some a =>
    rw [hbeyond] at h
    obtain ⟨_, ha, h⟩ := bind_eq_ok.1 h
    obtain ⟨⟨b, items'⟩, hb, h⟩ := bind_eq_ok.1 h
    obtain rfl := Except.ok.inj ha
    obtain ⟨rfl, rfl⟩ := Prod.mk.inj (Except.ok.inj h)
    exact ⟨rfl, hb⟩

lemma put_eq_none {s : Shape β} {key : String} (h : key ∉ s.names) (t : Tree) (slots : s.Slots) :
    s.put key t slots = none := by
  induction s with
  | done => rfl
  | field f rest ih =>
    obtain ⟨found, slots⟩ := slots
    obtain ⟨hname, hrest⟩ : key ≠ f.name ∧ key ∉ rest.names := by simpa [names] using h
    rw [put_field, if_neg hname.symm, ih hrest]
    rfl

lemma readMembers_append (s : Shape β) (other : σ → String → Tree → Except Fault σ)
    (slots : s.Slots) (acc : σ) (front back : List (MemberKey × Tree)) :
    s.readMembers other slots acc (front ++ back) =
      s.readMembers other slots acc front >>= fun r => s.readMembers other r.1 r.2 back := by
  induction front generalizing slots acc with
  | nil => rfl
  | cons m front ih =>
    obtain ⟨⟨content, plain⟩, t⟩ := m
    cases content with
    | none => rfl
    | some key =>
      rw [List.cons_append]
      cases hput : s.put key t slots with
      | none =>
        rw [readMembers_other hput, readMembers_other hput]
        cases other acc key t with
        | error e => rfl
        | ok acc => exact ih slots acc
      | some r =>
        rw [readMembers_put hput, readMembers_put hput]
        cases r with
        | error e => rfl
        | ok slots => exact ih slots acc

/-- Written members that are no fields are passed over. -/
lemma readMembers_ignore {s : Shape β} {members : List (String × Json)}
    (h : ∀ m ∈ members, m.1 ∉ s.names) (slots : s.Slots) :
    s.readMembers ignore slots () (rereadMembers members) = .ok (slots, ()) := by
  induction members with
  | nil => rfl
  | cons m members ih =>
    obtain ⟨key, value⟩ := m
    obtain ⟨hkey, hmembers⟩ := List.forall_mem_cons.1 h
    refine (readMembers_other (put_eq_none hkey _ slots) ignore () _ _).trans ?_
    rw [ignore, skip_reread]
    exact ih hmembers

/-- Members with other names than the first field go past it. -/
lemma readMembers_field (f : Member α) (rest : Shape β) (other : σ → String → Tree → Except Fault σ)
    {members : List (MemberKey × Tree)}
    (h : ∀ m ∈ members, ∃ key, m.1.content = some key ∧ f.name ≠ key) (found : Option α)
    (slots : rest.Slots) (acc : σ) :
    (field f rest).readMembers other (found, slots) acc members =
      (rest.readMembers other slots acc members).map fun (slots, acc) => ((found, slots), acc) := by
  induction members generalizing slots acc with
  | nil => rfl
  | cons m members ih =>
    obtain ⟨⟨content, plain⟩, t⟩ := m
    obtain ⟨⟨key, rfl, hkey⟩, hmembers⟩ := List.forall_mem_cons.1 h
    have hput : (field f rest).put key t (found, slots) =
        (rest.put key t slots).map fun r => r.map fun others => (found, others) := if_neg hkey
    cases hrest : rest.put key t slots with
    | none =>
      rw [hrest] at hput
      rw [readMembers_other hput, readMembers_other hrest]
      cases hother : other acc key t with
      | error e => rfl
      | ok acc => exact ih hmembers slots acc
    | some r =>
      rw [hrest] at hput
      rw [readMembers_put hput, readMembers_put hrest]
      cases r with
      | error e => rfl
      | ok slots => exact ih hmembers slots acc

/-- The written members of a record fill its slots. -/
lemma readMembers_writeMembers {s : Shape β} (hnames : s.names.Nodup) {b : β} (h : s.Faithful b)
    (hsettled : ∀ m ∈ s.writeMembers b, m.2.Settled) (other : σ → String → Tree → Except Fault σ)
    (acc : σ) :
    s.readMembers other s.vacant acc (rereadMembers (s.writeMembers b)) =
      .ok (s.filled b, acc) := by
  induction s with
  | done => rfl
  | @field α' _ f rest ih =>
    obtain ⟨a, b⟩ := b
    obtain ⟨ha, hb⟩ := h
    obtain ⟨hname, hnames⟩ := List.nodup_cons.1 hnames
    obtain ⟨hsettledA, hsettledB⟩ := List.forall_mem_cons.1 hsettled
    have hput : (field f rest).put f.name (f.codec.write a).reread (none, rest.vacant) =
        some (.ok (some a, rest.vacant)) := by
      rw [put_field, if_pos rfl, ha hsettledA]
      rfl
    have hothers : ∀ m ∈ rereadMembers (rest.writeMembers b), ∃ key, m.1.content = some key ∧
        f.name ≠ key := by
      intro m hm
      rw [rereadMembers_eq_map] at hm
      obtain ⟨⟨key, value⟩, hmem, rfl⟩ := List.mem_map.1 hm
      refine ⟨key, rfl, ?_⟩
      rintro rfl
      exact hname (names_writeMembers rest b ▸ List.mem_map_of_mem (f := Prod.fst) hmem)
    have hrest := readMembers_field f rest other hothers (some a) rest.vacant acc
    rw [ih hnames hb hsettledB] at hrest
    exact (readMembers_put hput other acc _ _).trans hrest

lemma close_filled (s : Shape β) (b : β) : s.close (s.filled b) = .ok b := by
  induction s with
  | done => rfl
  | field f rest ih =>
    obtain ⟨a, b⟩ := b
    exact close_eq_ok.2 ⟨rfl, ih b⟩

lemma faithful_codec {s : Shape β} {forth : β → α} {back : α → β} (hnames : s.names.Nodup) {a : α}
    (h : s.Faithful (back a)) (ha : forth (back a) = a) : (s.codec forth back).Faithful a := by
  intro hsettled
  have hread := readMembers_writeMembers hnames h (settled_object.1 hsettled) ignore ()
  refine map_eq_ok.2 ⟨back a, ?_, ha⟩
  exact bind_eq_ok.2 ⟨_, hread, close_filled s (back a)⟩

/-- Every field can get its value. -/
def Gives : {β : Type} → Shape β → β → Prop
  | _, .done, _ => True
  | _, .field f rest, (a, b) => f.Gives a ∧ rest.Gives b

/-- What fills a slot was read by the codec of its field. -/
def Kept : {β : Type} → (s : Shape β) → s.Slots → Prop
  | _, .done, _ => True
  | _, @field α _ f rest, slots =>
    (∀ a ∈ (slots.1 : Option α), ∃ t, f.codec.read t = .ok a) ∧ rest.Kept slots.2

lemma kept_vacant (s : Shape β) : s.Kept s.vacant := by
  induction s with
  | done => trivial
  | field f rest ih => exact ⟨fun _ ha => (nomatch ha), ih⟩

lemma kept_put {s : Shape β} {key : String} {t : Tree} {slots slots' : s.Slots}
    (hkept : s.Kept slots) (hput : s.put key t slots = some (.ok slots')) : s.Kept slots' := by
  induction s with
  | done => exact nomatch hput
  | field f rest ih =>
    obtain ⟨found, slots⟩ := slots
    rw [put_field] at hput
    split_ifs at hput with hname hfound
    · exact nomatch hput
    · obtain ⟨a, hread, rfl⟩ := map_eq_ok.1 (Option.some.inj hput)
      exact ⟨fun b hb => Option.some.inj hb ▸ ⟨t, hread⟩, hkept.2⟩
    · obtain ⟨r, hrest, hput⟩ := Option.map_eq_some_iff.1 hput
      obtain ⟨others, rfl, rfl⟩ := map_eq_ok.1 hput
      exact ⟨hkept.1, ih hkept.2 hrest⟩

lemma kept_readMembers {s : Shape β} {other : σ → String → Tree → Except Fault σ}
    {members : List (MemberKey × Tree)} {slots slots' : s.Slots} {acc acc' : σ}
    (hkept : s.Kept slots) (hread : s.readMembers other slots acc members = .ok (slots', acc')) :
    s.Kept slots' := by
  induction members generalizing slots acc with
  | nil => exact (Prod.mk.inj (Except.ok.inj hread)).1 ▸ hkept
  | cons m members ih =>
    obtain ⟨⟨content, plain⟩, t⟩ := m
    cases content with
    | none => exact nomatch hread
    | some key =>
      cases hput : s.put key t slots with
      | none =>
        rw [readMembers_other hput] at hread
        obtain ⟨acc, -, hread⟩ := bind_eq_ok.1 hread
        exact ih hkept hread
      | some r =>
        rw [readMembers_put hput] at hread
        obtain ⟨slots, rfl, hread⟩ := bind_eq_ok.1 hread
        exact ih (kept_put hkept hput) hread

lemma gives_close {s : Shape β} {slots : s.Slots} {b : β} (hkept : s.Kept slots)
    (hclose : s.close slots = .ok b) : s.Gives b := by
  induction s with
  | done => trivial
  | field f rest ih =>
    obtain ⟨found, slots⟩ := slots
    obtain ⟨a, b⟩ := b
    obtain ⟨hor, hclose⟩ := close_eq_ok.1 hclose
    refine ⟨?_, ih hkept.2 hclose⟩
    rcases Option.or_eq_some_iff.1 hor with hfound | ⟨-, habsent⟩
    · exact .inl (hkept.1 a hfound)
    · exact .inr (.inl habsent)

lemma gives_readItems {s : Shape β} {stop : Option Stop} {ts rest : List Tree} {b : β}
    (hread : s.readItems stop ts = .ok (b, rest)) : s.Gives b := by
  induction s generalizing ts with
  | done => trivial
  | field f tail ih =>
    cases ts with
    | nil =>
      obtain ⟨a, b⟩ := b
      obtain ⟨hbeyond, hread⟩ := readItems_nil hread
      exact ⟨.inr (.inr hbeyond), ih hread⟩
    | cons t ts =>
      obtain ⟨a, ha, hread⟩ := bind_eq_ok.1 hread
      obtain ⟨⟨b, items⟩, hb, hread⟩ := bind_eq_ok.1 hread
      obtain ⟨rfl, rfl⟩ := Prod.mk.inj (Except.ok.inj hread)
      exact ⟨.inl ⟨t, ha⟩, ih hb⟩

/-- Records are read from objects and from lists. -/
lemma gives_read {s : Shape β} {t : Tree} {b : β} (hread : s.read t = .ok b) : s.Gives b := by
  unfold read at hread
  split at hread
  · obtain ⟨⟨slots, _⟩, hmembers, hread⟩ := bind_eq_ok.1 hread
    obtain ⟨-, -, hclose⟩ := bind_eq_ok.1 hread
    exact gives_close (kept_readMembers s.kept_vacant hmembers) hclose
  · obtain ⟨⟨b', rest⟩, hitems, hread⟩ := bind_eq_ok.1 hread
    have hb : b' = b := by
      dsimp only at hread
      split_ifs at hread
      · exact nomatch hread
      · obtain ⟨-, -, hread⟩ := bind_eq_ok.1 hread
        exact Except.ok.inj hread
    exact hb ▸ gives_readItems hitems
  · exact nomatch hread

lemma Exact.of_gives {s : Shape β} {E : β → Prop} (h : s.Exact E) {b : β} (hb : s.Gives b) :
    E b := by
  induction h with
  | done => trivial
  | field hf _ ih => exact ⟨hf.of_gives hb.1, ih hb.2⟩

lemma Exact.faithful {s : Shape β} {E : β → Prop} (h : s.Exact E) {b : β} (hb : E b) :
    s.Faithful b := by
  induction h with
  | done => trivial
  | field hf _ ih => exact ⟨hf.codec.faithful _ hb.1, ih hb.2⟩

theorem Exact.codec {s : Shape β} {E : β → Prop} {D : α → Prop} {forth : β → α} {back : α → β}
    (h : s.Exact E) (hnames : s.names.Nodup) (hback : ∀ a, forth (back a) = a)
    (hforth : ∀ b, back (forth b) = b) (hD : ∀ a, D a ↔ E (back a)) :
    (s.codec forth back).Exact D := by
  refine ⟨fun a ha => faithful_codec hnames (h.faithful ((hD a).1 ha)) (hback a),
    fun t a hread => ?_⟩
  obtain ⟨b, hread', rfl⟩ := map_eq_ok.1 hread
  rw [hD, hforth]
  exact h.of_gives (gives_read hread')

end Shape

/-- A text that a codec wrote in either style is read back. -/
theorem Codec.Faithful.ofText_toText {α : Type} {c : Codec α} {a : α} (h : c.Faithful a)
    (hsettled : (c.write a).Settled) (style : Style) : c.ofText (c.toText style a) = .ok a := by
  rw [Codec.ofText, Codec.toText, ofText_render]
  exact bind_eq_ok.2 ⟨a, h hsettled, rfl⟩

end Json

end SceneExport
