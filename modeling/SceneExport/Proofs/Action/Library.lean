import Mathlib
import SceneExport.Action.Basic
import SceneExport.Proofs.Basics

/-!
# Storing actions in a library

Storing an action refills the first entry of its name, or appends the action if there is none. So no
entry moves, and only the first entry of a name is ever seen or changed. Of several actions of one
name the last one that is stored is found afterwards, in the place that the first one of them took.

Storing the same actions once more changes nothing. On the way entries may change, since an action
that is refilled later is stored first, but each of them ends up as it was.
-/
namespace SceneExport.Library

variable {α : Type} {l : Library α} {a b : Action α} {name : String}

/-- Storing, by recursion along the entries. -/
def storeIn (a : Action α) : List (Action α) → List (Action α)
  | [] => [a]
  | x :: xs => if x.name = a.name then a :: xs else x :: storeIn a xs

lemma actions_store (l : Library α) (a : Action α) : (l.store a).actions = storeIn a l.actions := by
  have hchange : ∀ xs : List (Action α),
      (changeFirst? (fun x => x.name = a.name) (fun _ => some a) xs).getD (xs ++ [a]) =
        storeIn a xs := by
    intro xs
    induction xs with
    | nil => rfl
    | cons x xs ih =>
      unfold changeFirst? storeIn
      by_cases hx : x.name = a.name
      · simp [hx]
      · rw [← ih]
        cases changeFirst? (fun x => x.name = a.name) (fun _ => some a) xs <;> simp [hx]
  rw [← hchange, store]
  cases changeFirst? (fun x => x.name = a.name) (fun _ => some a) l.actions <;> rfl

lemma ext_actions {l l' : Library α} (h : l.actions = l'.actions) : l = l' := by
  cases l
  cases l'
  exact congrArg _ h

/-- The names of the entries, in their order. -/
def names (l : Library α) : List String :=
  l.actions.map Action.name

lemma names_store (l : Library α) (a : Action α) :
    (l.store a).names = if a.name ∈ l.names then l.names else l.names ++ [a.name] := by
  rw [names, actions_store, names]
  induction l.actions with
  | nil => rfl
  | cons x xs ih =>
    by_cases hx : x.name = a.name
    · simp [storeIn, hx]
    · have hne : a.name ≠ x.name := Ne.symm hx
      by_cases hxs : a.name ∈ xs.map Action.name <;> simp_all [storeIn]

lemma get?_store (l : Library α) (a : Action α) (name : String) :
    (l.store a).get? name = if a.name = name then some a else l.get? name := by
  rw [get?, actions_store, get?]
  induction l.actions with
  | nil => by_cases ha : a.name = name <;> simp [storeIn, ha]
  | cons x xs ih =>
    unfold storeIn
    by_cases hx : x.name = a.name
    · by_cases ha : a.name = name <;> simp [hx, ha]
    · rw [if_neg hx, List.find?_cons, List.find?_cons, ih]
      by_cases hname : x.name = name
      · have ha : a.name ≠ name := fun ha => hx (hname.trans ha.symm)
        simp [hname, ha]
      · simp [hname]

/-- An action that is refilled at once leaves no trace. -/
lemma store_store (l : Library α) (hab : a.name = b.name) : (l.store a).store b = l.store b := by
  refine ext_actions ?_
  rw [actions_store, actions_store, actions_store]
  induction l.actions with
  | nil => simp [storeIn, hab]
  | cons x xs ih =>
    by_cases hx : x.name = b.name
    · simp [storeIn, hab, hx]
    · simp [storeIn, hab, hx, ih]

/-- Actions of different names can be stored in either order if one of them has its place
already. -/
lemma store_comm (hab : a.name ≠ b.name) (ha : a.name ∈ l.names) :
    (l.store a).store b = (l.store b).store a := by
  refine ext_actions ?_
  rw [actions_store, actions_store, actions_store, actions_store]
  rw [names] at ha
  generalize l.actions = xs at ha ⊢
  induction xs with
  | nil => simp at ha
  | cons x xs ih =>
    by_cases hx : x.name = a.name
    · simp [storeIn, hx, hab]
    · have hxs : a.name ∈ xs.map Action.name := by
        rcases List.mem_cons.mp ha with heq | hxs
        · exact absurd heq.symm hx
        · exact hxs
      by_cases hxb : x.name = b.name
      · simp [storeIn, hxb, Ne.symm hab]
      · simp [storeIn, hx, hxb, ih hxs]

lemma store_eq_self (ha : l.get? a.name = some a) : l.store a = l := by
  refine ext_actions ?_
  rw [actions_store]
  rw [get?] at ha
  generalize l.actions = xs at ha ⊢
  induction xs with
  | nil => simp at ha
  | cons x xs ih =>
    by_cases hx : x.name = a.name
    · have hxa : x = a := by simpa [hx] using ha
      simp [storeIn, hxa]
    · rw [List.find?_cons, decide_eq_false hx] at ha
      rw [storeIn, if_neg hx, ih ha]

variable {stored : List (Action α)}

/-- The last one of that name. -/
def last? (stored : List (Action α)) (name : String) : Option (Action α) :=
  stored.reverse.find? fun a => a.name = name

lemma last?_cons (a : Action α) (stored : List (Action α)) (name : String) :
    last? (a :: stored) name = (last? stored name).or (if a.name = name then some a else none) := by
  unfold last?
  rw [List.reverse_cons, List.find?_append, List.find?_singleton]
  simp

lemma last?_isSome : (last? stored name).isSome ↔ ∃ a ∈ stored, a.name = name := by
  simp [last?]

lemma get?_foldl_store (l : Library α) (stored : List (Action α)) (name : String) :
    (stored.foldl store l).get? name = (last? stored name).or (l.get? name) := by
  induction stored generalizing l with
  | nil => simp [last?]
  | cons a stored ih =>
    rw [List.foldl_cons, ih, get?_store, last?_cons]
    cases last? stored name with
    | some b => rfl
    | none => by_cases ha : a.name = name <;> simp [ha]

/-- What is refilled later need not be stored before. -/
lemma foldl_store_store (ha : a.name ∈ l.names) (hlater : ∃ b ∈ stored, b.name = a.name) :
    stored.foldl store (l.store a) = stored.foldl store l := by
  induction stored generalizing l with
  | nil => simp at hlater
  | cons c stored ih =>
    rw [List.foldl_cons, List.foldl_cons]
    by_cases hc : c.name = a.name
    · rw [store_store l hc.symm]
    · have hrest : ∃ b ∈ stored, b.name = a.name := by
        obtain ⟨b, hb, hname⟩ := hlater
        rcases List.mem_cons.mp hb with rfl | hb
        · exact absurd hname hc
        · exact ⟨b, hb, hname⟩
      have hplace : a.name ∈ (l.store c).names := by
        rw [names_store]
        split
        · exact ha
        · exact List.mem_append_left _ ha
      rw [store_comm (Ne.symm hc) ha, ih hplace hrest]

lemma mem_names_iff : name ∈ l.names ↔ (l.get? name).isSome := by
  simp [names, get?]

/-- Actions that are in the library already, the last of each name, can be stored without effect. -/
lemma foldl_store_eq_self (hstored : ∀ a ∈ stored, l.get? a.name = last? stored a.name) :
    stored.foldl store l = l := by
  induction stored with
  | nil => rfl
  | cons a stored ih =>
    have hrest : ∀ b ∈ stored, l.get? b.name = last? stored b.name := by
      intro b hb
      obtain ⟨c, hc⟩ := Option.isSome_iff_exists.mp (last?_isSome.mpr ⟨b, hb, rfl⟩)
      rw [hstored b (List.mem_cons_of_mem a hb), last?_cons, hc]
      rfl
    have hfirst := hstored a List.mem_cons_self
    rw [last?_cons, if_pos rfl] at hfirst
    rw [List.foldl_cons]
    by_cases hlater : ∃ b ∈ stored, b.name = a.name
    · have hplace : a.name ∈ l.names := by
        rw [mem_names_iff, hfirst]
        cases last? stored a.name <;> rfl
      rw [foldl_store_store hplace hlater, ih hrest]
    · have hnone : last? stored a.name = none := by
        rwa [← last?_isSome, Option.not_isSome_iff_eq_none] at hlater
      rw [hnone] at hfirst
      rw [store_eq_self hfirst, ih hrest]

lemma get?_foldl_store_of_mem (l : Library α) (ha : a ∈ stored) :
    (stored.foldl store l).get? a.name = last? stored a.name := by
  obtain ⟨b, hb⟩ := Option.isSome_iff_exists.mp (last?_isSome.mpr ⟨a, ha, rfl⟩)
  rw [get?_foldl_store, hb]
  rfl

/-- Storing the same actions once more changes nothing. -/
theorem foldl_store_foldl_store (l : Library α) (stored : List (Action α)) :
    stored.foldl store (stored.foldl store l) = stored.foldl store l :=
  foldl_store_eq_self fun _ ha => get?_foldl_store_of_mem l ha

/-- How a library looks after actions are stored. The old entries stand where they stood, as they
were or refilled. Behind them stand actions of other names, in the order in which the names were
first stored. -/
structure Refilled (stored : List (Action α)) (l : Library α)
    (old new : List (Action α)) : Prop where
  kept : List.Forall₂ (fun a a' => a' = a ∨ a' ∈ stored ∧ a'.name = a.name) l.actions old
  mem : ∀ a ∈ new, a ∈ stored
  names : new.map Action.name = ((stored.map Action.name).filter (· ∉ l.names)).eraseDups

lemma storeIn_append_left {xs : List (Action α)} (ys : List (Action α))
    (ha : a.name ∈ xs.map Action.name) : storeIn a (xs ++ ys) = storeIn a xs ++ ys := by
  induction xs with
  | nil => simp at ha
  | cons x xs ih =>
    by_cases hx : x.name = a.name
    · simp [storeIn, hx]
    · have hxs : a.name ∈ xs.map Action.name := by simpa [Ne.symm hx] using ha
      simp [storeIn, hx, ih hxs]

lemma storeIn_append_right {xs : List (Action α)} (ys : List (Action α))
    (ha : a.name ∉ xs.map Action.name) : storeIn a (xs ++ ys) = xs ++ storeIn a ys := by
  induction xs with
  | nil => rfl
  | cons x xs ih =>
    rw [List.map_cons, List.mem_cons, not_or] at ha
    simp [storeIn, Ne.symm ha.1, ih ha.2]

lemma map_name_of_forall₂ {xs ys : List (Action α)}
    (h : List.Forall₂ (fun a a' => a' = a ∨ a' ∈ stored ∧ a'.name = a.name) xs ys) :
    ys.map Action.name = xs.map Action.name := by
  induction h with
  | nil => rfl
  | cons hhead _ ih =>
    rcases hhead with rfl | ⟨-, hname⟩
    · rw [List.map_cons, List.map_cons, ih]
    · rw [List.map_cons, List.map_cons, ih, hname]

lemma forall₂_storeIn {xs ys : List (Action α)} (ha : a ∈ stored)
    (hname : a.name ∈ ys.map Action.name)
    (h : List.Forall₂ (fun a a' => a' = a ∨ a' ∈ stored ∧ a'.name = a.name) xs ys) :
    List.Forall₂ (fun a a' => a' = a ∨ a' ∈ stored ∧ a'.name = a.name) xs (storeIn a ys) := by
  induction h with
  | nil => simp at hname
  | @cons x y xs ys hhead htail ih =>
    unfold storeIn
    split
    · next hy =>
      refine .cons (.inr ⟨ha, ?_⟩) htail
      rcases hhead with rfl | ⟨-, hxy⟩
      · exact hy.symm
      · rw [← hy, hxy]
    · next hy => exact .cons hhead (ih (by simpa [Ne.symm hy] using hname))

lemma mem_storeIn {x : Action α} {xs : List (Action α)} (hx : x ∈ storeIn a xs) :
    x = a ∨ x ∈ xs := by
  induction xs with
  | nil => exact .inl (by simpa [storeIn] using hx)
  | cons y ys ih =>
    unfold storeIn at hx
    split at hx
    · exact (List.mem_cons.mp hx).imp_right (List.mem_cons_of_mem y)
    · rcases List.mem_cons.mp hx with rfl | hx
      · exact .inr List.mem_cons_self
      · exact (ih hx).imp_right (List.mem_cons_of_mem y)

theorem exists_refilled (l : Library α) (stored : List (Action α)) :
    ∃ old new, (stored.foldl store l).actions = old ++ new ∧ Refilled stored l old new := by
  induction stored using List.reverseRecOn with
  | nil =>
    refine ⟨l.actions, [], by simp, ⟨?_, by simp, by simp⟩⟩
    exact List.forall₂_same.mpr fun a _ => .inl rfl
  | append_singleton stored a ih =>
    obtain ⟨old, new, hactions, hkept, hmem, hnames⟩ := ih
    have hkept' : List.Forall₂ (fun x x' => x' = x ∨ x' ∈ stored ++ [a] ∧ x'.name = x.name)
        l.actions old :=
      hkept.imp fun x x' h => h.imp_right fun h => ⟨List.mem_append_left _ h.1, h.2⟩
    have hmem' : ∀ x ∈ new, x ∈ stored ++ [a] := fun x hx => List.mem_append_left _ (hmem x hx)
    rw [List.foldl_append, List.foldl_cons, List.foldl_nil, actions_store, hactions]
    by_cases hold : a.name ∈ l.names
    · have hold' : a.name ∈ old.map Action.name := by rwa [map_name_of_forall₂ hkept]
      refine ⟨storeIn a old, new, storeIn_append_left new hold',
        ⟨forall₂_storeIn (by simp) hold' hkept', hmem', ?_⟩⟩
      rw [hnames, List.map_append, List.filter_append]
      simp [hold]
    · have hold' : a.name ∉ old.map Action.name := by rwa [map_name_of_forall₂ hkept]
      refine ⟨old, storeIn a new, storeIn_append_right new hold', ⟨hkept', fun x hx => ?_, ?_⟩⟩
      · rcases mem_storeIn hx with rfl | hx
        · simp
        · exact hmem' x hx
      · -- the name is appended unless one of the new actions has it
        have hnew := names_store ⟨new⟩ a
        rw [Library.names, Library.names, actions_store] at hnew
        have hlast : ((stored ++ [a]).map Action.name).filter (· ∉ l.names) =
            (stored.map Action.name).filter (· ∉ l.names) ++ [a.name] := by
          rw [List.map_append, List.filter_append]
          simp [hold]
        rw [hnew, hlast, eraseDups_append_singleton, hnames]
        simp only [List.mem_eraseDups]

end SceneExport.Library
