import Mathlib
import SceneExport.Entries

/-!
# Lookups in lists of entries

What is found under a key after a value is put there, or after entries are left out, and which
entries there are.
-/
namespace SceneExport.Entries

variable {κ α : Type} {key other : κ} {a b : α} {entries : List (κ × α)}

section Lookup

variable [BEq κ] [LawfulBEq κ]

lemma lookup_of_mem (hnodup : (entries.map Prod.fst).Nodup) (h : (key, a) ∈ entries) :
    entries.lookup key = some a := by
  obtain ⟨front, back, rfl⟩ := List.append_of_mem h
  refine List.lookup_eq_some_iff.mpr ⟨front, back, rfl, fun p hp => ?_⟩
  rw [List.map_append, List.map_cons, List.nodup_append] at hnodup
  have hne := hnodup.2.2 p.1 (List.mem_map_of_mem hp) key List.mem_cons_self
  simpa using Ne.symm hne

lemma lookup_of_notMem (h : key ∉ entries.map Prod.fst) : entries.lookup key = none := by
  refine List.lookup_eq_none_iff.mpr fun p hp => ?_
  have hne : key ≠ p.1 := fun heq => h (heq ▸ List.mem_map_of_mem hp)
  simpa using hne

variable [DecidableEq κ]

lemma lookup_cons (key other : κ) (a : α) (rest : List (κ × α)) :
    ((key, a) :: rest).lookup other = if key = other then some a else rest.lookup other := by
  rw [List.lookup_cons]
  by_cases h : other = key
  · simp [h]
  · simp [beq_false_of_ne h, Ne.symm h]

/-- The value is found under its key, and all else is found as before. -/
theorem lookup_put (key other : κ) (a : α) (entries : List (κ × α)) :
    (put key a entries).lookup other = if key = other then some a else entries.lookup other := by
  induction entries with
  | nil => rw [put, lookup_cons]
  | cons entry rest ih =>
    obtain ⟨k, v⟩ := entry
    unfold put
    by_cases hk : k = key
    · rw [if_pos hk, lookup_cons, lookup_cons, hk]
      by_cases h : key = other <;> simp [h]
    · rw [if_neg hk, lookup_cons, lookup_cons, ih]
      by_cases h : k = other
      · simp [h, h ▸ Ne.symm hk]
      · simp [h]

lemma lookup_filter_ne (key other : κ) (entries : List (κ × α)) :
    (entries.filter fun (k, _) => k ≠ key).lookup other =
      if key = other then none else entries.lookup other := by
  induction entries with
  | nil => simp
  | cons entry rest ih =>
    obtain ⟨k, v⟩ := entry
    by_cases hk : k = key
    · rw [List.filter_cons_of_neg (by simp [hk]), ih, lookup_cons, hk]
      by_cases h : key = other <;> simp [h]
    · rw [List.filter_cons_of_pos (by simp [hk]), lookup_cons, lookup_cons, ih]
      by_cases h : k = other
      · simp [h, h ▸ Ne.symm hk]
      · simp [h]

end Lookup

variable [DecidableEq κ]

lemma mem_of_mem_put {entry : κ × α} (h : entry ∈ put key a entries) :
    entry = (key, a) ∨ entry ∈ entries := by
  induction entries with
  | nil => exact .inl (List.mem_singleton.mp h)
  | cons first rest ih =>
    obtain ⟨k, v⟩ := first
    unfold put at h
    split at h
    · next hk =>
      rcases List.mem_cons.mp h with rfl | h
      · exact .inl (by rw [hk])
      · exact .inr (List.mem_cons_of_mem _ h)
    · rcases List.mem_cons.mp h with rfl | h
      · exact .inr List.mem_cons_self
      · exact (ih h).imp_right (List.mem_cons_of_mem _)

/-- A key that is not there yet goes to the end. -/
lemma put_of_notMem (h : key ∉ entries.map Prod.fst) :
    put key a entries = entries ++ [(key, a)] := by
  induction entries with
  | nil => rfl
  | cons entry entries ih =>
    obtain ⟨hne, hrest⟩ : key ≠ entry.1 ∧ key ∉ entries.map Prod.fst := by simpa using h
    rw [put, if_neg hne.symm, ih hrest, List.cons_append]

lemma map_fst_put (key : κ) (a : α) (entries : List (κ × α)) : (put key a entries).map Prod.fst =
    if key ∈ entries.map Prod.fst then entries.map Prod.fst else entries.map Prod.fst ++ [key] := by
  induction entries with
  | nil => rfl
  | cons entry entries ih =>
    obtain ⟨k, v⟩ := entry
    by_cases hk : k = key
    · simp [put, hk]
    · by_cases hmem : key ∈ entries.map Prod.fst <;> simp_all [put, eq_comm]

lemma nodup_put (key : κ) (a : α) (hnodup : (entries.map Prod.fst).Nodup) :
    ((put key a entries).map Prod.fst).Nodup := by
  rw [map_fst_put]
  split
  · exact hnodup
  · next hnew => exact List.nodup_append.mpr ⟨hnodup, by simp, by grind⟩

/-- Where keys do not repeat, an entry is the new one or has another key. -/
lemma eq_or_mem_of_mem_put (hnodup : (entries.map Prod.fst).Nodup)
    (h : (other, b) ∈ put key a entries) :
    (other ≠ key ∧ (other, b) ∈ entries) ∨ (other = key ∧ b = a) := by
  have hfound := lookup_of_mem (nodup_put key a hnodup) h
  rw [lookup_put] at hfound
  split at hfound
  · next heq => exact .inr ⟨heq.symm, (Option.some.inj hfound).symm⟩
  · next hne =>
    refine .inl ⟨Ne.symm hne, (mem_of_mem_put h).resolve_left fun heq => ?_⟩
    exact hne (Prod.mk.inj heq).1.symm

end SceneExport.Entries
