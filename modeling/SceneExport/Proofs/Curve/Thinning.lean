import Mathlib
import SceneExport.Curve.Optimize

/-!
# Cleaned curves stay as they are

Cleaning looks at the values of keys only: a key goes when it is near the key that stayed before it
and near the key behind it. If the key behind differs, it stays too, because nearness is symmetric.
So what is behind a key that stayed for this reason is still behind it after cleaning, and cleaning
again drops nothing, whatever became of handles and interpolations in between.
-/
namespace SceneExport

/-- Numbers on which the distance of two does not depend on their order. -/
def Scalar.DistanceComm (α : Type) [Scalar α] : Prop :=
  ∀ a b : α, Scalar.abs (a - b) = Scalar.abs (b - a)

namespace Curve

variable {α : Type} [Scalar α] {t kept : α} {k : Key α} {ks rest : List (Key α)}

lemma near_comm (hdist : Scalar.DistanceComm α) (t a b : α) : near t a b = near t b a := by
  unfold near
  rw [hdist]

/-- Whether a key goes: it repeats the key that stayed before it and the one behind it. -/
def repeats (t kept : α) (k : Key α) : List (Key α) → Bool
  | [] => near t k.value kept
  | next :: _ => near t k.value kept && near t k.value next.value

theorem thinFrom_cons : thinFrom t kept (k :: rest) =
    if repeats t kept k rest then thinFrom t kept rest else k :: thinFrom t k.value rest := by
  cases rest with
  | nil =>
    rw [repeats, ← Bool.and_true (near t k.value kept)]
    rfl
  | cons next rest => rfl

lemma thinFrom_sublist (t kept : α) (ks : List (Key α)) : (thinFrom t kept ks).Sublist ks := by
  induction ks generalizing kept with
  | nil => exact .refl _
  | cons k rest ih =>
    rw [thinFrom_cons]
    split
    · exact (ih kept).cons k
    · exact (ih k.value).cons_cons k

lemma thin_sublist (t : α) (ks : List (Key α)) : (thin t ks).Sublist ks := by
  cases ks with
  | nil => exact .refl _
  | cons first rest => exact (thinFrom_sublist t first.value rest).cons_cons first

/-- A key that stays has the same reason to stay before the keys that stay behind it. -/
lemma repeats_thinFrom (hdist : Scalar.DistanceComm α) (h : repeats t kept k rest = false) :
    repeats t kept k (thinFrom t k.value rest) = false := by
  cases rest with
  | nil => exact h
  | cons next rest =>
    by_cases hkept : near t k.value kept = true
    · have hnext : near t next.value k.value = false := by
        rw [near_comm hdist]
        simpa [repeats, hkept] using h
      have hstays : repeats t k.value next rest = false := by
        cases rest <;> simp [repeats, hnext]
      simp only [thinFrom_cons, hstays, Bool.false_eq_true, if_false]
      rw [near_comm hdist] at hnext
      simp [repeats, hnext]
    · cases thinFrom t k.value (next :: rest) <;> simp [repeats, hkept]

theorem thinFrom_thinFrom (hdist : Scalar.DistanceComm α) (t kept : α) (ks : List (Key α)) :
    thinFrom t kept (thinFrom t kept ks) = thinFrom t kept ks := by
  induction ks generalizing kept with
  | nil => rfl
  | cons k rest ih =>
    rw [thinFrom_cons]
    split
    · exact ih kept
    · next h =>
      have h := repeats_thinFrom hdist (Bool.eq_false_of_not_eq_true h)
      rw [thinFrom_cons, h, if_neg Bool.false_ne_true, ih]

lemma repeats_congr {ks' : List (Key α)} {k' : Key α} (hk : k.value = k'.value)
    (h : ks.map Key.value = ks'.map Key.value) : repeats t kept k ks = repeats t kept k' ks' := by
  cases ks <;> cases ks' <;> simp_all [repeats]

/-- Whether cleaning drops anything is told from the values alone. -/
theorem thinFrom_eq_self_of_values {ks' : List (Key α)} (h : ks.map Key.value = ks'.map Key.value)
    (hthin : thinFrom t kept ks = ks) : thinFrom t kept ks' = ks' := by
  induction ks generalizing kept ks' with
  | nil =>
    obtain rfl : ks' = [] := by simpa using h.symm
    rfl
  | cons k rest ih =>
    obtain ⟨k', rest', rfl⟩ : ∃ k' rest', ks' = k' :: rest' := by
      cases ks' <;> simp_all
    obtain ⟨hk, hrest⟩ : k.value = k'.value ∧ rest.map Key.value = rest'.map Key.value := by
      simpa using h
    rw [thinFrom_cons] at hthin
    split at hthin
    · -- a key that went leaves too short a list
      have hlength := (thinFrom_sublist t kept rest).length_le
      simp [hthin] at hlength
    · next hstays =>
      rw [thinFrom_cons, ← repeats_congr hk hrest, if_neg hstays, ← hk,
        ih hrest (List.cons_injective hthin)]

theorem thin_thin (hdist : Scalar.DistanceComm α) (t : α) (ks : List (Key α)) :
    thin t (thin t ks) = thin t ks := by
  cases ks with
  | nil => rfl
  | cons first rest => simp only [thin, thinFrom_thinFrom hdist]

lemma thin_eq_self_of_values {ks' : List (Key α)} (h : ks.map Key.value = ks'.map Key.value)
    (hthin : thin t ks = ks) : thin t ks' = ks' := by
  cases ks with
  | nil =>
    obtain rfl : ks' = [] := by simpa using h.symm
    rfl
  | cons first rest =>
    obtain ⟨first', rest', rfl⟩ : ∃ first' rest', ks' = first' :: rest' := by
      cases ks' <;> simp_all
    obtain ⟨hfirst, hrest⟩ : first.value = first'.value ∧
        rest.map Key.value = rest'.map Key.value := by
      simpa using h
    rw [thin, ← hfirst, thinFrom_eq_self_of_values hrest (List.cons_injective hthin)]

section Handles

variable {β : Type} {g : Key α → β} (hg : ∀ k left right, g { k with left, right } = g k)
include hg

/-- New handles change nothing else of the keys. -/
lemma map_smoothFrom (before : Option (Key α)) (ks : List (Key α)) :
    (smoothFrom before ks).map g = ks.map g := by
  induction ks generalizing before with
  | nil => rfl
  | cons k rest ih => rw [smoothFrom, List.map_cons, List.map_cons, ih, smoothKey, hg]

/-- Apart from its handles a cleaned curve has the keys that stayed. -/
lemma map_clean (t : α) (c : Curve α) : (c.clean t).1.keys.map g = (thin t c.keys).map g := by
  simp only [clean]
  split
  · exact map_smoothFrom hg none _
  · rfl

end Handles

/-- A curve with the values of a cleaned one stays as it is. -/
theorem clean_eq_self {c c' : Curve α} (hdist : Scalar.DistanceComm α)
    (h : c'.keys.map Key.value = (c.clean t).1.keys.map Key.value) : c'.clean t = (c', 0) := by
  have hthin : thin t c'.keys = c'.keys :=
    thin_eq_self_of_values ((map_clean (fun _ _ _ => rfl) t c).symm.trans h.symm)
      (thin_thin hdist t c.keys)
  simp [clean, hthin]

end Curve

end SceneExport
