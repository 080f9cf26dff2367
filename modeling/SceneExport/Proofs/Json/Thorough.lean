import Mathlib
import SceneExport.Proofs.Json.Roundtrip

/-!
# What is read can be passed over

A reader of one kind of value meets faults that a reader who only passes over values does not:
numbers out of range, halves of surrogate pairs, containers that nest too deep. A codec is
*thorough* when it looks at every part of a value, so that whatever it reads could have been passed
over as well. All codecs are made from thorough parts, and so is a value that is stored as it
stands.
-/
namespace SceneExport.Json

namespace Tree

lemma checkStored_eq_ok {stop : Option Stop} {u : Unit} :
    checkStored stop = .ok u ↔ stop = none := by
  cases stop with
  | none => simp [checkStored]
  | some stop => simp [checkStored]

lemma skip_list {items : List Tree} (h : skipItems items = .ok ()) :
    (Tree.list items none).skip = .ok () := by
  rw [skip, h]
  rfl

lemma skip_object {members : List (MemberKey × Tree)} (h : skipMembers members = .ok ()) :
    (Tree.object members none).skip = .ok () := by
  rw [skip, h]
  rfl

lemma skipItems_cons {t : Tree} {ts : List Tree} (ht : t.skip = .ok ())
    (hts : skipItems ts = .ok ()) : skipItems (t :: ts) = .ok () := by
  rw [skipItems, ht]
  exact hts

lemma skipMembers_cons {key : MemberKey} {t : Tree} {members : List (MemberKey × Tree)}
    (ht : t.skip = .ok ()) (hmembers : skipMembers members = .ok ()) :
    skipMembers ((key, t) :: members) = .ok () := by
  rw [skipMembers, ht]
  exact hmembers

mutual

/-- A value that can be stored can be passed over. -/
theorem skip_of_store {levels : Nat} {v : Json} :
    (t : Tree) → t.store levels = .ok v → t.skip = .ok ()
  | .null, _ | .bool _, _ | .number _, _ | .text _, _ => rfl
  | .broken _, h => by cases h
  | .list items stop, h => by
    cases levels with
    | zero => cases h
    | succ levels =>
      obtain ⟨_, hitems, h⟩ := bind_eq_ok.1 h
      obtain ⟨_, hstop, -⟩ := bind_eq_ok.1 h
      obtain rfl := checkStored_eq_ok.1 hstop
      exact skip_list (skipItems_of_storeItems items hitems)
  | .object members stop, h => by
    cases levels with
    | zero => cases h
    | succ levels =>
      obtain ⟨_, hmembers, h⟩ := bind_eq_ok.1 h
      obtain ⟨_, hstop, -⟩ := bind_eq_ok.1 h
      obtain rfl := checkStored_eq_ok.1 hstop
      exact skip_object (skipMembers_of_storeMembers members hmembers)

theorem skipItems_of_storeItems {levels : Nat} {vs : List Json} :
    (ts : List Tree) → storeItems levels ts = .ok vs → skipItems ts = .ok ()
  | [], _ => rfl
  | t :: ts, h => by
    obtain ⟨_, ht, h⟩ := bind_eq_ok.1 h
    obtain ⟨_, hts, -⟩ := bind_eq_ok.1 h
    exact skipItems_cons (skip_of_store t ht) (skipItems_of_storeItems ts hts)

theorem skipMembers_of_storeMembers {levels : Nat} {done vs : List (String × Json)} :
    (members : List (MemberKey × Tree)) → storeMembers levels done members = .ok vs →
    skipMembers members = .ok ()
  | [], _ => rfl
  | (⟨none, _⟩, _) :: _, h => by cases h
  | (⟨some _, _⟩, t) :: rest, h => by
    obtain ⟨_, ht, h⟩ := bind_eq_ok.1 h
    exact skipMembers_cons (skip_of_store t ht) (skipMembers_of_storeMembers rest h)

end

end Tree

open Json.Tree
  (skipItems skipMembers checkStored_eq_ok skip_list skip_object skipItems_cons skipMembers_cons)

namespace Codec

variable {α β : Type}

/-- Whatever the codec reads could have been passed over. -/
def Thorough (c : Codec α) : Prop :=
  ∀ t a, c.read t = .ok a → t.skip = .ok ()

lemma thorough_bool : Codec.bool.Thorough := by
  intro t a h
  simp only [Codec.bool] at h
  split at h
  · rfl
  · cases h

lemma thorough_text : Codec.text.Thorough := by
  intro t a h
  simp only [Codec.text] at h
  split at h
  · rfl
  · cases h

lemma thorough_whole (lo hi : Int) : (whole lo hi).Thorough := by
  intro t a h
  simp only [whole] at h
  split at h
  · rfl
  · cases h

lemma thorough_double : Codec.double.Thorough := by
  intro t a h
  simp only [Codec.double] at h
  split at h
  · rfl
  · rfl
  · rfl
  · cases h

lemma thorough_oneOf [DecidableEq α] (names : List (String × α)) : (oneOf names).Thorough := by
  intro t a h
  simp only [oneOf] at h
  split at h
  · rfl
  · next s plain value rest stop =>
    obtain ⟨_, -, hvalue⟩ := bind_eq_ok.1 h
    split at hvalue
    · split_ifs at hvalue with hrest
      · obtain rfl := List.isEmpty_iff.1 hrest
        cases stop with
        | none => rfl
        | some stop => cases hvalue
      · cases hvalue
    · cases hvalue
  · cases h
  · cases h
  · cases h

lemma Thorough.imap {c : Codec α} {forth : α → β} {back : β → α} (h : c.Thorough) :
    (c.imap forth back).Thorough := by
  intro t b hread
  obtain ⟨a, ha, -⟩ := map_eq_ok.1 hread
  exact h t a ha

lemma thorough_size : size.Thorough := (thorough_whole _ _).imap

lemma thorough_word32 : word32.Thorough := (thorough_whole _ _).imap

lemma Thorough.option {c : Codec α} (h : c.Thorough) : c.option.Thorough := by
  intro t o hread
  simp only [Codec.option] at hread
  split at hread
  · rfl
  · obtain ⟨a, ha, -⟩ := map_eq_ok.1 hread
    exact h _ a ha

lemma skipItems_of_readAll {c : Codec α} (h : c.Thorough) {ts : List Tree} {as : List α}
    (hread : readAll c.read ts = .ok as) : skipItems ts = .ok () := by
  induction ts generalizing as with
  | nil => rfl
  | cons t ts ih =>
    obtain ⟨a, ha, hread⟩ := bind_eq_ok.1 hread
    obtain ⟨_, has, -⟩ := bind_eq_ok.1 hread
    exact skipItems_cons (h t a ha) (ih has)

lemma Thorough.list {c : Codec α} (h : c.Thorough) : (Codec.list c).Thorough := by
  intro t as hread
  simp only [Codec.list] at hread
  split at hread
  · obtain ⟨_, hall, hread⟩ := bind_eq_ok.1 hread
    obtain ⟨_, hstop, -⟩ := bind_eq_ok.1 hread
    obtain rfl := checkStored_eq_ok.1 hstop
    exact skip_list (skipItems_of_readAll h hall)
  · cases hread

/-- A vector leaves no items behind it. -/
lemma skipItems_of_readSome {c : Codec α} (h : c.Thorough) {stop : Option Stop} {n : Nat}
    {ts : List Tree} {as : Vector α n} (hread : readSome c.read stop n ts = .ok (as, [])) :
    skipItems ts = .ok () := by
  induction n generalizing ts with
  | zero =>
    obtain ⟨-, rfl⟩ := Prod.mk.inj (Except.ok.inj hread)
    rfl
  | succ n ih =>
    cases ts with
    | nil => rfl
    | cons t ts =>
      obtain ⟨a, ha, hread⟩ := bind_eq_ok.1 hread
      obtain ⟨⟨as', rest⟩, has, hread⟩ := bind_eq_ok.1 hread
      obtain ⟨-, rfl⟩ := Prod.mk.inj (Except.ok.inj hread)
      exact skipItems_cons (h t a ha) (ih has)

lemma Thorough.vector {c : Codec α} (h : c.Thorough) (n : Nat) : (Codec.vector n c).Thorough := by
  intro t as hread
  simp only [Codec.vector] at hread
  split at hread
  · obtain ⟨⟨_, rest⟩, hsome, hread⟩ := bind_eq_ok.1 hread
    cases rest with
    | cons => cases hread
    | nil =>
      obtain ⟨_, hstop, -⟩ := bind_eq_ok.1 hread
      obtain rfl := checkStored_eq_ok.1 hstop
      exact skip_list (skipItems_of_readSome h hsome)
  · cases hread

lemma Thorough.pair {c : Codec α} (h : c.Thorough) : c.pair.Thorough := (h.vector 2).imap

lemma skipMembers_of_readTable {κ : Type} [DecidableEq κ] {key? : MemberKey → Option κ}
    {c : Codec α} (h : c.Thorough) {done entries : List (κ × α)} {members : List (MemberKey × Tree)}
    (hread : readTable key? c.read done members = .ok entries) : skipMembers members = .ok () := by
  induction members generalizing done with
  | nil => rfl
  | cons m members ih =>
    obtain ⟨key, t⟩ := m
    simp only [readTable] at hread
    split at hread
    · cases hread
    · obtain ⟨a, ha, hread⟩ := bind_eq_ok.1 hread
      exact skipMembers_cons (h t a ha) (ih hread)

lemma Thorough.table {κ : Type} [DecidableEq κ] {name : κ → String} {key? : MemberKey → Option κ}
    {c : Codec α} (h : c.Thorough) : (Codec.table name key? c).Thorough := by
  intro t entries hread
  simp only [Codec.table] at hread
  split at hread
  · obtain ⟨_, htable, hread⟩ := bind_eq_ok.1 hread
    obtain ⟨_, hstop, -⟩ := bind_eq_ok.1 hread
    obtain rfl := checkStored_eq_ok.1 hstop
    exact skip_object (skipMembers_of_readTable h htable)
  · cases hread

end Codec

namespace Shape

variable {α β σ : Type}

/-- All fields have thorough codecs. -/
def Thorough : {β : Type} → Shape β → Prop
  | _, .done => True
  | _, .field f rest => f.codec.Thorough ∧ rest.Thorough

lemma skip_of_put {s : Shape β} (h : s.Thorough) {key : String} {t : Tree} {slots slots' : s.Slots}
    (hput : s.put key t slots = some (.ok slots')) : t.skip = .ok () := by
  induction s with
  | done => cases hput
  | field f rest ih =>
    obtain ⟨found, slots⟩ := slots
    rw [put_field] at hput
    split_ifs at hput with hname hfound
    · cases hput
    · obtain ⟨a, ha, -⟩ := map_eq_ok.1 (Option.some.inj hput)
      exact h.1 t a ha
    · obtain ⟨r, hr, hput⟩ := Option.map_eq_some_iff.1 hput
      obtain ⟨others, rfl, -⟩ := map_eq_ok.1 hput
      exact ih h.2 hr

/-- All members of an object that is read can be passed over, if those that are no fields can. -/
lemma skipMembers_of_readMembers {s : Shape β} (h : s.Thorough)
    {other : σ → String → Tree → Except Fault σ}
    (hother : ∀ acc key t acc', other acc key t = .ok acc' → t.skip = .ok ()) {slots : s.Slots}
    {acc : σ} {members : List (MemberKey × Tree)} {r : s.Slots × σ}
    (hread : s.readMembers other slots acc members = .ok r) :
    skipMembers members = .ok () := by
  induction members generalizing slots acc with
  | nil => rfl
  | cons m members ih =>
    obtain ⟨⟨_ | key, plain⟩, t⟩ := m
    · cases hread
    · cases hput : s.put key t slots with
      | some found =>
        rw [readMembers_put hput] at hread
        obtain ⟨slots', rfl, hread⟩ := bind_eq_ok.1 hread
        exact skipMembers_cons (skip_of_put h hput) (ih hread)
      | none =>
        rw [readMembers_other hput] at hread
        obtain ⟨acc', hacc, hread⟩ := bind_eq_ok.1 hread
        exact skipMembers_cons (hother acc key t acc' hacc) (ih hread)

lemma skipItems_of_readItems {s : Shape β} (h : s.Thorough) {stop : Option Stop} {items : List Tree}
    {b : β} (hread : s.readItems stop items = .ok (b, [])) : skipItems items = .ok () := by
  induction s generalizing items with
  | done =>
    obtain ⟨-, rfl⟩ := Prod.mk.inj (Except.ok.inj hread)
    rfl
  | field f rest ih =>
    cases items with
    | nil => rfl
    | cons t ts =>
      obtain ⟨a, ha, hread⟩ := bind_eq_ok.1 hread
      obtain ⟨⟨_, items'⟩, hrest, hread⟩ := bind_eq_ok.1 hread
      obtain ⟨-, rfl⟩ := Prod.mk.inj (Except.ok.inj hread)
      exact skipItems_cons (h.1 t a ha) (ih h.2 hrest)

lemma thorough_codec {s : Shape β} {forth : β → α} {back : α → β} (h : s.Thorough) :
    (s.codec forth back).Thorough := by
  intro t a hread
  obtain ⟨b, hread, -⟩ := map_eq_ok.1 hread
  simp only [Shape.read] at hread
  split at hread
  · obtain ⟨_, hmembers, hread⟩ := bind_eq_ok.1 hread
    obtain ⟨_, hstop, -⟩ := bind_eq_ok.1 hread
    obtain rfl := checkStored_eq_ok.1 hstop
    exact skip_object (skipMembers_of_readMembers h (fun _ _ _ _ hskip => hskip) hmembers)
  · obtain ⟨⟨_, rest⟩, hitems, hread⟩ := bind_eq_ok.1 hread
    cases rest with
    | cons => cases hread
    | nil =>
      obtain ⟨_, hstop, -⟩ := bind_eq_ok.1 hread
      obtain rfl := checkStored_eq_ok.1 hstop
      exact skip_list (skipItems_of_readItems h hitems)
  · cases hread

end Shape

end SceneExport.Json
