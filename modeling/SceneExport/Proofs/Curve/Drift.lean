import Mathlib
import SceneExport.Proofs.Basics
import SceneExport.Proofs.Curve.Gaps
import SceneExport.Proofs.Curve.Straightening

/-!
# Cleaning does not drift

Cleaning goes along the keys of a curve and compares each of them with the last key that stayed and
with the next key of the curve. The key it compares with moves only when a key stays, so a slow ramp
cannot carry a curve away in steps that are each below the threshold.

What is decided at a key is told by the positions that stay. Two facts follow from the decisions
alone. A curve whose values are all near each other keeps its first key only. In exact arithmetic,
two keys that stay with keys dropped between them are within twice the threshold.
-/
namespace SceneExport.Curve

section Scan

variable {α : Type} [Scalar α] {t kept : α} {k p : Key α} {keys rest suffix : List (Key α)}
  {positions later : List Nat} {i j last start : Nat}

/-- There are keys at two positions, and their values are near each other. -/
def NearAt (t : α) (keys : List (Key α)) (i j : Nat) : Prop :=
  ∃ a b, keys[i]? = some a ∧ keys[j]? = some b ∧ near t a.value b.value = true

/-- `j` is the last of the positions before `i`. -/
structure LastBefore (positions : List Nat) (i j : Nat) : Prop where
  mem : j ∈ positions
  lt : j < i
  last : ∀ m ∈ positions, m < i → m ≤ j

/-- The key at position `i` repeats the last one that stayed before it and the next one, if there is
one. -/
def Repeated (t : α) (keys : List (Key α)) (positions : List Nat) (i : Nat) : Prop :=
  (∃ j, LastBefore positions i j ∧ NearAt t keys i j) ∧
    (i + 1 < keys.length → NearAt t keys i (i + 1))

/-- The key at position `i` differs from the last one that stayed before it, or there is a next key
and it differs from that. -/
def Differs (t : α) (keys : List (Key α)) (positions : List Nat) (i : Nat) : Prop :=
  ∃ j, LastBefore positions i j ∧
    (¬ NearAt t keys i j ∨ i + 1 < keys.length ∧ ¬ NearAt t keys i (i + 1))

/-- The keys at these positions stay and the others are dropped, each for its reason. -/
structure Cleaned (t : α) (keys : List (Key α)) (positions : List Nat) : Prop where
  sorted : positions.Pairwise (· < ·)
  bounded : ∀ i ∈ positions, i < keys.length
  first : keys ≠ [] → 0 ∈ positions
  dropped : ∀ i < keys.length, i ∉ positions → Repeated t keys positions i
  kept : ∀ i ∈ positions, i ≠ 0 → Differs t keys positions i

lemma nearAt_iff {a b : Key α} (hi : keys[i]? = some a) (hj : keys[j]? = some b) :
    NearAt t keys i j ↔ near t a.value b.value = true := by
  constructor
  · rintro ⟨a', b', ha, hb, hnear⟩
    rw [hi] at ha
    rw [hj] at hb
    cases ha
    cases hb
    exact hnear
  · intro hnear
    exact ⟨a, b, hi, hj, hnear⟩

/-- What was decided from position `start` on, the key at `last` being the last one that stayed
before. -/
structure Scanned (t : α) (keys : List (Key α)) (last start : Nat) (later : List Nat) : Prop where
  sorted : later.Pairwise (· < ·)
  bounded : ∀ i ∈ later, start ≤ i ∧ i < keys.length
  dropped : ∀ i, start ≤ i → i < keys.length → i ∉ later → Repeated t keys (last :: later) i
  kept : ∀ i ∈ later, Differs t keys (last :: later) i

lemma lastBefore_head (hlt : last < i) (hlater : ∀ m ∈ later, i ≤ m) :
    LastBefore (last :: later) i last := by
  refine ⟨List.mem_cons_self, hlt, fun m hm hi => ?_⟩
  rcases List.mem_cons.mp hm with rfl | hm
  · exact le_rfl
  · exact absurd hi (hlater m hm).not_gt

/-- A position in front does not hide the last one that stayed. -/
lemma LastBefore.cons (h : LastBefore (start :: later) i j) (hlt : last < start)
    (hbound : ∀ m ∈ later, start < m) : LastBefore (last :: start :: later) i j := by
  refine ⟨List.mem_cons_of_mem _ h.mem, h.lt, fun m hm hi => ?_⟩
  rcases List.mem_cons.mp hm with rfl | hm
  · rcases List.mem_cons.mp h.mem with rfl | hj
    · exact hlt.le
    · exact (hlt.trans (hbound j hj)).le
  · exact h.last m hm hi

/-- The key at `start` is dropped. -/
lemma Scanned.drop (h : Scanned t keys last (start + 1) later) (hlt : last < start)
    (hlast : NearAt t keys start last)
    (hnext : start + 1 < keys.length → NearAt t keys start (start + 1)) :
    Scanned t keys last start later where
  sorted := h.sorted
  bounded i hi := ⟨(Nat.le_succ start).trans (h.bounded i hi).1, (h.bounded i hi).2⟩
  dropped i hle hi hmem := by
    rcases hle.eq_or_lt with rfl | hlt'
    · exact ⟨⟨last, lastBefore_head hlt fun m hm => Nat.le_of_succ_le (h.bounded m hm).1, hlast⟩,
        hnext⟩
    · exact h.dropped i hlt' hi hmem
  kept := h.kept

/-- The key at `start` stays, and from there on it is the one that keys are compared with. -/
lemma Scanned.keep (h : Scanned t keys start (start + 1) later) (hlt : last < start)
    (hstart : start < keys.length)
    (hdiffers : ¬ NearAt t keys start last ∨
      start + 1 < keys.length ∧ ¬ NearAt t keys start (start + 1)) :
    Scanned t keys last start (start :: later) where
  sorted := List.pairwise_cons.mpr ⟨fun i hi => (h.bounded i hi).1, h.sorted⟩
  bounded i hi := by
    rcases List.mem_cons.mp hi with rfl | hi
    · exact ⟨le_rfl, hstart⟩
    · exact ⟨(Nat.le_succ start).trans (h.bounded i hi).1, (h.bounded i hi).2⟩
  dropped i hle hi hmem := by
    have hne : start ≠ i := fun heq => hmem (heq ▸ List.mem_cons_self)
    obtain ⟨⟨j, hj, hnear⟩, hnext⟩ :=
      h.dropped i (by omega) hi fun hlater => hmem (List.mem_cons_of_mem _ hlater)
    exact ⟨⟨j, hj.cons hlt fun m hm => (h.bounded m hm).1, hnear⟩, hnext⟩
  kept i hi := by
    rcases List.mem_cons.mp hi with rfl | hi
    · refine ⟨last, lastBefore_head hlt fun m hm => ?_, hdiffers⟩
      rcases List.mem_cons.mp hm with rfl | hm
      · exact le_rfl
      · exact Nat.le_of_succ_le (h.bounded m hm).1
    · obtain ⟨j, hj, hdiff⟩ := h.kept i hi
      exact ⟨j, hj.cons hlt fun m hm => (h.bounded m hm).1, hdiff⟩

/-- The positions from `start` on whose keys stay behind one that stayed at height `kept`. -/
def staysFrom (t kept : α) (start : Nat) : List (Key α) → List Nat
  | [] => []
  | k :: rest =>
    if repeats t kept k rest then staysFrom t kept (start + 1) rest
    else start :: staysFrom t k.value (start + 1) rest

lemma repeats_iff : repeats t kept k rest = true ↔
    near t k.value kept = true ∧ ∀ next, rest.head? = some next →
    near t k.value next.value = true := by
  cases rest <;> simp [repeats]

/-- Whether a key repeats its neighbours, told by positions. -/
lemma repeats_iff_nearAt (hsuffix : keys.drop start = k :: rest) (hlast : keys[last]? = some p) :
    repeats t p.value k rest = true ↔
      NearAt t keys start last ∧ (start + 1 < keys.length → NearAt t keys start (start + 1)) := by
  obtain ⟨hstart, -, hnext⟩ := getElem?_of_drop hsuffix
  rw [repeats_iff, nearAt_iff hstart hlast, ← hnext]
  refine and_congr_right fun _ => ⟨fun h hlt => ?_, fun h next hsome => ?_⟩
  · have hsome := List.getElem?_eq_getElem hlt
    exact (nearAt_iff hstart hsome).mpr (h _ hsome)
  · exact (nearAt_iff hstart hsome).mp (h (List.getElem?_eq_some_iff.mp hsome).1)

/-- The scan along the rest of a curve, by what it does at one key. -/
lemma scanned_staysFrom (hsuffix : keys.drop start = suffix) (hlast : keys[last]? = some p)
    (hlt : last < start) : Scanned t keys last start (staysFrom t p.value start suffix) := by
  induction suffix generalizing start last p with
  | nil =>
    have hlength : keys.length ≤ start := List.drop_eq_nil_iff.mp hsuffix
    exact ⟨.nil, by simp [staysFrom], fun i hle hi => by omega, by simp [staysFrom]⟩
  | cons k rest ih =>
    obtain ⟨hstart, hrest, -⟩ := getElem?_of_drop hsuffix
    have hiff := repeats_iff_nearAt (t := t) hsuffix hlast
    rw [staysFrom]
    split
    · next hrepeats =>
      obtain ⟨hnear, hnext⟩ := hiff.mp hrepeats
      exact (ih hrest hlast (by omega)).drop hlt hnear hnext
    · next hstays =>
      rw [hiff, not_and_or, Classical.not_imp] at hstays
      exact (ih hrest hstart (Nat.lt_succ_self start)).keep hlt
        (List.getElem?_eq_some_iff.mp hstart).1 hstays

lemma forall₂_thinFrom (hsuffix : keys.drop start = suffix) :
    List.Forall₂ (fun k i => keys[i]? = some k) (thinFrom t kept suffix)
      (staysFrom t kept start suffix) := by
  induction suffix generalizing start kept with
  | nil => exact .nil
  | cons k rest ih =>
    obtain ⟨hstart, hrest, -⟩ := getElem?_of_drop hsuffix
    rw [thinFrom_cons, staysFrom]
    split
    · exact ih hrest
    · exact .cons hstart (ih hrest)

/-- The positions whose keys stay; the first always does. -/
def stays (t : α) : List (Key α) → List Nat
  | [] => []
  | first :: rest => 0 :: staysFrom t first.value 1 rest

theorem cleaned_stays (t : α) (keys : List (Key α)) : Cleaned t keys (stays t keys) := by
  cases keys with
  | nil => exact ⟨.nil, by simp [stays], by simp, by simp, by simp [stays]⟩
  | cons first rest =>
    have hscan : Scanned t (first :: rest) 0 1 (staysFrom t first.value 1 rest) :=
      scanned_staysFrom (p := first) rfl rfl Nat.one_pos
    refine ⟨?_, ?_, fun _ => List.mem_cons_self, ?_, ?_⟩
    · exact List.pairwise_cons.mpr ⟨fun i hi => (hscan.bounded i hi).1, hscan.sorted⟩
    · intro i hi
      rcases List.mem_cons.mp hi with rfl | hi
      · exact Nat.succ_pos _
      · exact (hscan.bounded i hi).2
    · intro i hi hmem
      rw [stays, List.mem_cons, not_or] at hmem
      exact hscan.dropped i (Nat.pos_of_ne_zero hmem.1) hi hmem.2
    · intro i hi hne
      exact hscan.kept i ((List.mem_cons.mp hi).resolve_left hne)

lemma forall₂_thin (t : α) (keys : List (Key α)) :
    List.Forall₂ (fun k i => keys[i]? = some k) (thin t keys) (stays t keys) := by
  cases keys with
  | nil => exact .nil
  | cons first rest => exact .cons rfl (forall₂_thinFrom rfl)

/-- A cleaned curve has its keys at the places of those that stay. -/
lemma forall₂_clean (t : α) (c : Curve α) :
    List.Forall₂ (fun k i => (c.keys[i]?).map Key.place = some k.place) (c.clean t).1.keys
      (stays t c.keys) := by
  rw [← List.forall₂_map_left_iff (f := Key.place)
    (R := fun place i => (c.keys[i]?).map Key.place = some place), map_clean (fun _ _ _ => rfl),
    List.forall₂_map_left_iff]
  exact (forall₂_thin t c.keys).imp fun k i hk => by rw [hk, Option.map_some]

/-- Keys that are all near each other all repeat the first one. -/
lemma Cleaned.eq_singleton (h : Cleaned t keys positions) (hne : keys ≠ [])
    (hnear : keys.Pairwise fun a b => near t a.value b.value = true ∧
      near t b.value a.value = true) :
    positions = [0] := by
  have hat : ∀ i j, i < keys.length → j < keys.length → i ≠ j → NearAt t keys i j := by
    intro i j hi hj hij
    rw [List.pairwise_iff_getElem] at hnear
    refine ⟨_, _, List.getElem?_eq_getElem hi, List.getElem?_eq_getElem hj, ?_⟩
    rcases Nat.lt_or_gt_of_ne hij with hlt | hlt
    · exact (hnear i j hi hj hlt).1
    · exact (hnear j i hj hi hlt).2
  have hzero : ∀ i ∈ positions, i = 0 := by
    intro i hi
    by_contra hpos
    have hlength := h.bounded i hi
    obtain ⟨j, hj, hdiffers | ⟨hlt, hdiffers⟩⟩ := h.kept i hi hpos
    · exact hdiffers (hat i j hlength (h.bounded j hj.mem) hj.lt.ne')
    · exact hdiffers (hat i (i + 1) hlength hlt (Nat.lt_succ_self i).ne)
  have hfirst := h.first hne
  have hsorted := h.sorted
  match positions with
  | [] => cases hfirst
  | [i] => rw [hzero i List.mem_cons_self]
  | i :: j :: rest =>
    have hi := hzero i (by simp)
    have hj := hzero j (by simp)
    have hlt := (List.pairwise_cons.mp hsorted).1 j (by simp)
    omega

end Scan

/-- In exact arithmetic, two keys that stay with keys dropped between them are within twice the
threshold: the last key that was dropped is near both. -/
lemma Cleaned.abs_gap_le {t : ℚ} {keys : List (Key ℚ)} {positions : List Nat}
    (h : Cleaned t keys positions) {i j : Nat} {a b : Key ℚ} (hj : j ∈ positions)
    (hlast : LastBefore positions j i) (hgap : i + 1 < j) (ha : keys[i]? = some a)
    (hb : keys[j]? = some b) : |b.value - a.value| ≤ 2 * t := by
  have hlength := h.bounded j hj
  have hdropped : j - 1 ∉ positions := by
    intro hmem
    have hle := hlast.last (j - 1) hmem (by omega)
    omega
  obtain ⟨⟨m, hm, hnear⟩, hnext⟩ := h.dropped (j - 1) (by omega) hdropped
  have hmi : m = i := by
    have hle := hlast.last m hm.mem (by have := hm.lt; omega)
    have hge := hm.last i hlast.mem (by omega)
    omega
  have hsucc : j - 1 + 1 = j := by omega
  rw [hsucc] at hnext
  obtain ⟨d, hd⟩ : ∃ d, keys[j - 1]? = some d := ⟨_, List.getElem?_eq_getElem (by omega)⟩
  have hda : |d.value - a.value| ≤ t := near_iff.mp ((nearAt_iff hd ha).mp (hmi ▸ hnear))
  have hdb : |d.value - b.value| ≤ t := near_iff.mp ((nearAt_iff hd hb).mp (hnext hlength))
  calc |b.value - a.value| ≤ |b.value - d.value| + |d.value - a.value| := abs_sub_le _ _ _
    _ ≤ 2 * t := by
      rw [abs_sub_comm b.value]
      linarith

/-- Cleaning decides at each key of any curve by the last key that stayed and the next key of the
curve, keeps the first key, and keeps nothing else if all values are near each other. In exact
arithmetic it leaves no step above twice the threshold where it dropped keys. -/
theorem clean_without_drift :
    (∀ (α : Type) [Scalar α] (t : α) (c : Curve α), ∃ positions, Cleaned t c.keys positions ∧
      List.Forall₂ (fun k i => (c.keys[i]?).map Key.place = some k.place)
        (c.clean t).1.keys positions ∧
      (c.keys ≠ [] → (c.keys.Pairwise fun a b =>
        near t a.value b.value = true ∧ near t b.value a.value = true) → positions = [0])) ∧
    ∀ (t : ℚ) (c : Curve ℚ) (positions : List Nat), Cleaned t c.keys positions → ∀ i j a b,
      j ∈ positions → LastBefore positions j i → i + 1 < j → c.keys[i]? = some a →
      c.keys[j]? = some b →
        |b.value - a.value| ≤ 2 * t := by
  constructor
  · intro α _ t c
    have hcleaned := cleaned_stays t c.keys
    exact ⟨stays t c.keys, hcleaned, forall₂_clean t c, hcleaned.eq_singleton⟩
  · intro t c positions hcleaned i j a b hj hlast hgap ha hb
    exact hcleaned.abs_gap_le hj hlast hgap ha hb

/-- A step up, then two steps that are each below the threshold and together above it. -/
def creep : Curve ℚ :=
  ⟨.location, 0,
    [.plain 1 0, .plain 2 1, .plain 3 (1 + 1 / 1250), .plain 4 (1 + 1 / 625), .plain 5 3]⟩

/-- Of the two small steps of `creep` one key is dropped, and what is left is one step within twice
the threshold. -/
theorem creep_without_drift :
    Cleaned (1 / 1000) creep.keys [0, 1, 3, 4] ∧ 1 / 1000 < |(1 + 1 / 625 : ℚ) - 1| ∧
      |(1 + 1 / 625 : ℚ) - 1| ≤ 2 * (1 / 1000) := by
  have hstays : stays (1 / 1000) creep.keys = [0, 1, 3, 4] := by decide +kernel
  have hcleaned : Cleaned (1 / 1000) creep.keys [0, 1, 3, 4] := hstays ▸ cleaned_stays _ creep.keys
  have hlast : LastBefore [0, 1, 3, 4] 3 1 := ⟨by decide, by decide, by decide⟩
  have hgap := clean_without_drift.2 _ creep _ hcleaned 1 3 (.plain 2 1) (.plain 4 (1 + 1 / 625))
    (by decide) hlast (by decide) rfl rfl
  exact ⟨hcleaned, by norm_num, hgap⟩

end SceneExport.Curve
