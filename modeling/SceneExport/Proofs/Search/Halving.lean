import Mathlib
import SceneExport.Search

/-!
# What halving keeps

Each step of the search keeps a block of positions. Its first position is the first of all or one
that the probe did not find too great, and at its end is one that the probe did find too great,
whatever the probe answers elsewhere. So even if the positions are not in order, the search ends
between two neighbours of these kinds. Where they are in order, the position is the last one that is
not too great, and the search tells whether what is looked for is there or where it has to be put
in.
-/
namespace SceneExport.Search

variable {probe : Nat → Ordering}

lemma narrow_step {size : Nat} (base : Nat) (h : 1 < size) :
    narrow probe size base =
      narrow probe (size - size / 2) (if probe (base + size / 2) = .gt then base
        else base + size / 2) := by
  rw [narrow, dif_pos h]

lemma narrow_last {size : Nat} (base : Nat) (h : ¬ 1 < size) : narrow probe size base = base := by
  rw [narrow, dif_neg h]

/-- The position that is left lies in the block. It is the first one or one that is not too
great. -/
lemma narrow_spec {size : Nat} (base : Nat) (hsize : 0 < size) :
    base ≤ narrow probe size base ∧ narrow probe size base < base + size ∧
      (narrow probe size base = base ∨ probe (narrow probe size base) ≠ .gt) := by
  induction size using Nat.strong_induction_on generalizing base with
  | h size ih =>
    by_cases hlarge : 1 < size
    · rw [narrow_step base hlarge]
      by_cases hmid : probe (base + size / 2) = .gt
      · obtain ⟨hlo, hhi, hkept⟩ := ih (size - size / 2) (by omega) base (by omega)
        rw [if_pos hmid]
        exact ⟨hlo, by omega, hkept⟩
      · obtain ⟨hlo, hhi, hkept⟩ := ih (size - size / 2) (by omega) (base + size / 2) (by omega)
        rw [if_neg hmid]
        refine ⟨by omega, by omega, .inr ?_⟩
        rcases hkept with hkept | hkept
        · rwa [hkept]
        · exact hkept
    · rw [narrow_last base hlarge]
      exact ⟨le_rfl, by omega, .inl rfl⟩

/-- Where the first position of a block is not too great and its last position is, or the one behind
it, the position that is left is not too great and the next one is. -/
lemma narrow_cut {size : Nat} (base : Nat) (hsize : 0 < size) (hbase : probe base ≠ .gt)
    (hend : probe (base + size) = .gt ∨ probe (base + size - 1) = .gt) :
    probe (narrow probe size base) ≠ .gt ∧ probe (narrow probe size base + 1) = .gt := by
  induction size using Nat.strong_induction_on generalizing base with
  | h size ih =>
    by_cases hlarge : 1 < size
    · rw [narrow_step base hlarge]
      by_cases hmid : probe (base + size / 2) = .gt
      · rw [if_pos hmid]
        refine ih (size - size / 2) (by omega) base (by omega) hbase ?_
        -- The middle is the end of the lower half, or its last position if the size is odd.
        rcases Nat.even_or_odd' size with ⟨half, rfl | rfl⟩
        · left
          rwa [show base + (2 * half - 2 * half / 2) = base + 2 * half / 2 by omega]
        · right
          rwa [show base + (2 * half + 1 - (2 * half + 1) / 2) - 1 =
            base + (2 * half + 1) / 2 by omega]
      · rw [if_neg hmid]
        refine ih (size - size / 2) (by omega) (base + size / 2) (by omega) hmid ?_
        rwa [show base + size / 2 + (size - size / 2) = base + size by omega]
    · obtain rfl : size = 1 := by omega
      rw [narrow_last base hlarge]
      exact ⟨hbase, hend.resolve_right hbase⟩

/-- In a block in order, whose first position is not too great, the last such position is left. -/
lemma narrow_of_ordered {size base k : Nat} (hbase : base < k) (hk : k ≤ base + size)
    (h : ∀ i, base ≤ i → i < base + size → (probe i ≠ .gt ↔ i < k)) :
    narrow probe size base + 1 = k := by
  induction size using Nat.strong_induction_on generalizing base with
  | h size ih =>
    by_cases hlarge : 1 < size
    · have hmid := h (base + size / 2) (by omega) (by omega)
      rw [narrow_step base hlarge]
      by_cases hgt : probe (base + size / 2) = .gt
      · have hle : k ≤ base + size / 2 := not_lt.mp fun hlt => hmid.mpr hlt hgt
        rw [if_pos hgt]
        exact ih (size - size / 2) (by omega) hbase (by omega) fun i hi hi' => h i hi (by omega)
      · rw [if_neg hgt]
        exact ih (size - size / 2) (by omega) (hmid.mp hgt) (by omega) fun i hi hi' =>
          h i (by omega) (by omega)
    · rw [narrow_last base hlarge]
      omega

/-- What is looked for is found where it is, between what is less and what is greater. -/
theorem run_found {n k : Nat} (hk : k < n) (heq : probe k = .eq) (hlt : ∀ i < k, probe i = .lt)
    (hgt : ∀ i, k < i → i < n → probe i = .gt) : run probe n = .found k := by
  have hboundary : ∀ i, 0 ≤ i → i < 0 + n → (probe i ≠ .gt ↔ i < k + 1) := by
    intro i _ hi
    rcases lt_trichotomy i k with hik | rfl | hik
    · simp [hlt i hik, hik.le]
    · simp [heq]
    · simp [hgt i hik (by omega), hik]
  have hnarrow : narrow probe n 0 = k :=
    Nat.succ.inj (narrow_of_ordered k.succ_pos (by omega) hboundary)
  simp only [run, if_neg (show ¬ n = 0 by omega), hnarrow, heq]

/-- What is not there is to be put in behind what is less and before what is greater. -/
theorem run_missing {n k : Nat} (hk : k ≤ n) (hlt : ∀ i < k, probe i = .lt)
    (hgt : ∀ i, k ≤ i → i < n → probe i = .gt) : run probe n = .missing k := by
  by_cases hn : n = 0
  · rw [run, if_pos hn, show k = 0 by omega]
  have hboundary : ∀ i, 0 ≤ i → i < 0 + n → (probe i ≠ .gt ↔ i < k) := by
    intro i _ hi
    rcases lt_or_ge i k with hik | hik
    · simp [hlt i hik, hik]
    · simp [hgt i hik (by omega), hik]
  rcases Nat.eq_zero_or_pos k with rfl | hpos
  · obtain ⟨-, hlast, hkept⟩ := @narrow_spec probe n 0 (Nat.pos_of_ne_zero hn)
    have hprobe := hgt (narrow probe n 0) (Nat.zero_le _) (by omega)
    have hfirst := hkept.resolve_right (not_not.mpr hprobe)
    rw [hfirst] at hprobe
    simp only [run, if_neg hn, hfirst, hprobe]
  · have hnarrow := narrow_of_ordered hpos (by omega) hboundary
    simp only [run, if_neg hn, hlt _ (show narrow probe n 0 < k by omega), hnarrow]

variable {p : Nat → Bool}

/-- A property that holds first and not last is cut between a position where it holds and the next
one, where it does not, whatever it does elsewhere. -/
theorem exists_partition_eq {n : Nat} (hfirst : p 0 = true) (hlast : p (n - 1) = false)
    (hn : 0 < n) : ∃ i, partition p n = i + 1 ∧ i + 1 < n ∧ p i = true ∧ p (i + 1) = false := by
  have hgt : ∀ i, (if p i then Ordering.lt else .gt) = .gt ↔ p i = false := by
    intro i
    cases p i <;> simp
  have hend : (if p (0 + n - 1) then Ordering.lt else .gt) = .gt := by simp [hlast]
  obtain ⟨hkept, hnext⟩ :=
    @narrow_cut (fun i => if p i then .lt else .gt) n 0 hn (by simp [hfirst]) (.inr hend)
  obtain ⟨-, hlt, -⟩ := @narrow_spec (fun i => if p i then .lt else .gt) n 0 hn
  set i := narrow (fun i => if p i then .lt else .gt) n 0 with hi
  rw [ne_eq, hgt, Bool.not_eq_false] at hkept
  rw [hgt] at hnext
  refine ⟨i, ?_, ?_, hkept, hnext⟩
  · simp only [partition, run, if_neg hn.ne', ← hi, hkept, if_true]
  · have hne : i ≠ n - 1 := by
      intro heq
      rw [heq, hlast] at hkept
      cases hkept
    omega

end SceneExport.Search
