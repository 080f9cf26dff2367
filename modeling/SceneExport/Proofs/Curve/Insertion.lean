import Mathlib
import SceneExport.Curve.Basic
import SceneExport.Proofs.Number.TotalOrder
import SceneExport.Proofs.Search.Halving

/-!
# A curve is an ordered map

Keys that are put in one by one stand in the total order of their frames, which tells apart the two
zeros and orders even what is not a number. The search for a frame cuts such keys into those before
it and those behind it, so a new key goes between the two, and a key that is there is moved to the
new value. What a curve holds after any insertions is therefore the last value of each frame, and
insertions at different frames can be exchanged.
-/
namespace SceneExport.Curve

open Number (Doubles totalOrder totalPlace)

variable {α : Type} [Scalar α] {bits : α → UInt64} {keys keys' before behind : List (Key α)}
  {k : Key α} {frame value : α} {entries : List (α × α)}

lemma insertKey_missing (value : α) (hlt : ∀ k ∈ before, Scalar.order k.frame frame = .lt)
    (hgt : ∀ k ∈ behind, Scalar.order k.frame frame = .gt) :
    insertKey (before ++ behind) frame value = before ++ .plain frame value :: behind := by
  have hrun : Search.run (probe (before ++ behind) frame) (before ++ behind).length =
      .missing before.length := by
    refine Search.run_missing (by simp) (fun i hi => ?_) fun i hi hi' => ?_
    · rw [probe, List.getElem?_append_left hi, List.getElem?_eq_getElem hi]
      exact hlt _ (List.getElem_mem hi)
    · have hin : i - before.length < behind.length := by
        rw [List.length_append] at hi'
        omega
      rw [probe, List.getElem?_append_right hi, List.getElem?_eq_getElem hin]
      exact hgt _ (List.getElem_mem hin)
  rw [insertKey, hrun]
  clear hrun hlt
  induction before with
  | nil => rfl
  | cons k before ih => exact congrArg (k :: ·) ih

lemma insertKey_found (value : α) (heq : Scalar.order k.frame frame = .eq)
    (hlt : ∀ k ∈ before, Scalar.order k.frame frame = .lt)
    (hgt : ∀ k ∈ behind, Scalar.order k.frame frame = .gt) :
    insertKey (before ++ k :: behind) frame value = before ++ k.lift value :: behind := by
  have hrun : Search.run (probe (before ++ k :: behind) frame) (before ++ k :: behind).length =
      .found before.length := by
    refine Search.run_found (by simp) (by simp [probe, heq]) (fun i hi => ?_) fun i hi hi' => ?_
    · rw [probe, List.getElem?_append_left hi, List.getElem?_eq_getElem hi]
      exact hlt _ (List.getElem_mem hi)
    · obtain ⟨j, rfl⟩ := Nat.exists_eq_add_of_lt hi
      have hin : j < behind.length := by
        rw [List.length_append, List.length_cons] at hi'
        omega
      rw [probe, List.getElem?_append_right (by omega), show before.length + j + 1 - before.length =
        j + 1 by omega, List.getElem?_cons_succ, List.getElem?_eq_getElem hin]
      exact hgt _ (List.getElem_mem hin)
  have hmodify := List.modify_eq_take_cons_drop (f := fun k : Key α => k.lift value)
    (show before.length < (before ++ k :: behind).length by simp)
  rw [insertKey, hrun]
  exact hmodify.trans (by simp)

/-- The keys stand in the order of their frames, and their handles lie on them. -/
structure Tidy (keys : List (Key α)) : Prop where
  ascending : keys.Pairwise fun a b => Scalar.order a.frame b.frame = .lt
  plain : ∀ k ∈ keys, k = .plain k.frame k.value

namespace Tidy

variable (h : Doubles bits)

include h

/-- A frame cuts the keys into those before it and those behind it, with one key between them at
most. -/
lemma exists_cut (hkeys : Tidy keys) (frame : α) : ∃ before behind,
    (∀ k ∈ before, Scalar.order k.frame frame = .lt) ∧
    (∀ k ∈ behind, Scalar.order k.frame frame = .gt) ∧
      (keys = before ++ behind ∨ ∃ k, k.frame = frame ∧ keys = before ++ k :: behind) := by
  obtain ⟨hascending, -⟩ := hkeys
  induction keys with
  | nil => exact ⟨[], [], by simp, by simp, .inl rfl⟩
  | cons k keys ih =>
    obtain ⟨hk, hkeys⟩ := List.pairwise_cons.mp hascending
    rcases lt_trichotomy (h.place k.frame) (h.place frame) with hlt | heq | hgt
    · obtain ⟨before, behind, hbefore, hbehind, hcut⟩ := ih hkeys
      refine ⟨k :: before, behind, List.forall_mem_cons.mpr ⟨h.order_lt_iff.mpr hlt, hbefore⟩,
        hbehind, ?_⟩
      rcases hcut with rfl | ⟨k', hk', rfl⟩
      · exact .inl rfl
      · exact .inr ⟨k', hk', rfl⟩
    · obtain rfl := h.place_injective heq
      exact ⟨[], keys, by simp, fun k' hk' => h.order_gt_iff.mpr (h.order_lt_iff.mp (hk k' hk')),
        .inr ⟨k, rfl, rfl⟩⟩
    · refine ⟨[], k :: keys, by simp,
        List.forall_mem_cons.mpr ⟨h.order_gt_iff.mpr hgt, ?_⟩, .inl rfl⟩
      exact fun k' hk' => h.order_gt_iff.mpr (hgt.trans (h.order_lt_iff.mp (hk k' hk')))

/-- The new key stands between the keys before and behind its frame, which are all that stay. -/
lemma exists_insertKey_eq (hkeys : Tidy keys) (frame value : α) : ∃ before behind,
    (∀ k ∈ before, Scalar.order k.frame frame = .lt) ∧
    (∀ k ∈ behind, Scalar.order k.frame frame = .gt) ∧
      insertKey keys frame value = before ++ .plain frame value :: behind ∧
      (before ++ behind).Sublist keys ∧ ∀ k, k ∈ before ++ behind ↔ k ∈ keys ∧ k.frame ≠ frame := by
  obtain ⟨before, behind, hbefore, hbehind, hcut⟩ := hkeys.exists_cut h frame
  have hother : ∀ k ∈ before ++ behind, k.frame ≠ frame := by
    rintro k hk rfl
    have hself := h.order_eq_iff.mpr (rfl : k.frame = k.frame)
    rcases List.mem_append.mp hk with hk | hk
    · rw [hbefore k hk] at hself
      cases hself
    · rw [hbehind k hk] at hself
      cases hself
  refine ⟨before, behind, hbefore, hbehind, ?_⟩
  rcases hcut with rfl | ⟨k, hk, rfl⟩
  · exact ⟨insertKey_missing value hbefore hbehind, .refl _,
      fun k => ⟨fun hk => ⟨hk, hother k hk⟩, And.left⟩⟩
  · have hlift : k.lift value = .plain frame value := by
      rw [hkeys.plain k (by simp), hk]
      rfl
    rw [insertKey_found value (h.order_eq_iff.mpr hk) hbefore hbehind, hlift]
    have hsublist : (before ++ behind).Sublist (before ++ k :: behind) :=
      (List.sublist_cons_self k behind).append_left before
    refine ⟨rfl, hsublist, fun k' => ⟨fun hk' => ⟨hsublist.subset hk', hother k' hk'⟩, ?_⟩⟩
    rintro ⟨hk', hne⟩
    rw [List.mem_append, List.mem_cons] at hk'
    rcases hk' with hk' | rfl | hk'
    · exact List.mem_append_left _ hk'
    · exact absurd hk hne
    · exact List.mem_append_right _ hk'

/-- An insertion leaves the keys tidy. It removes what was at the frame and nothing else. -/
lemma insertKey (hkeys : Tidy keys) (frame value : α) : Tidy (Curve.insertKey keys frame value) ∧
    ∀ k, k ∈ Curve.insertKey keys frame value ↔
      k = .plain frame value ∨ k ∈ keys ∧ k.frame ≠ frame := by
  obtain ⟨before, behind, hbefore, hbehind, heq, hsublist, hmem⟩ :=
    hkeys.exists_insertKey_eq h frame value
  have hstay := List.pairwise_append.mp (hkeys.ascending.sublist hsublist)
  have hmem' : ∀ k, k ∈ Curve.insertKey keys frame value ↔
      k = .plain frame value ∨ k ∈ keys ∧ k.frame ≠ frame := by
    intro k
    rw [heq, List.mem_append, List.mem_cons, ← hmem, List.mem_append]
    tauto
  refine ⟨⟨?_, fun k hk => ?_⟩, hmem'⟩
  · rw [heq]
    refine List.pairwise_append.mpr
      ⟨hstay.1, List.pairwise_cons.mpr ⟨fun k hk => ?_, hstay.2.1⟩, ?_⟩
    · exact h.order_lt_iff.mpr (h.order_gt_iff.mp (hbehind k hk))
    · intro k hk k' hk'
      rcases List.mem_cons.mp hk' with rfl | hk'
      · exact hbefore k hk
      · exact hstay.2.2 k hk k' hk'
  · rcases (hmem' k).mp hk with rfl | ⟨hk, -⟩
    · rfl
    · exact hkeys.plain k hk

/-- Tidy keys are given by what is among them. -/
lemma ext (hkeys : Tidy keys) (hkeys' : Tidy keys') (hmem : ∀ k, k ∈ keys ↔ k ∈ keys') :
    keys = keys' := by
  have hirrefl : Std.Irrefl fun a b : Key α => Scalar.order a.frame b.frame = .lt :=
    ⟨fun a hlt => lt_irrefl _ (h.order_lt_iff.mp hlt)⟩
  have hantisymm : Std.Antisymm fun a b : Key α => Scalar.order a.frame b.frame = .lt :=
    ⟨fun a b hlt hlt' => absurd (h.order_lt_iff.mp hlt') (h.order_lt_iff.mp hlt).not_gt⟩
  exact hkeys.ascending.eq_of_mem_iff hkeys'.ascending hmem

end Tidy

/-- Puts values in one after another, each with its frame. -/
def insertAll (c : Curve α) (entries : List (α × α)) : Curve α :=
  entries.foldl (fun c entry => c.insert entry.1 entry.2) c

/-- The value that was put in last at a frame. -/
def LastAt (entries : List (α × α)) (frame value : α) : Prop :=
  ∃ before behind, entries = before ++ (frame, value) :: behind ∧ ∀ entry ∈ behind, entry.1 ≠ frame

section LastAt

omit [Scalar α]

lemma lastAt_concat (entries : List (α × α)) (entry : α × α) :
    LastAt (entries ++ [entry]) frame value ↔
    (frame, value) = entry ∨ LastAt entries frame value ∧ frame ≠ entry.1 := by
  constructor
  · rintro ⟨before, behind, heq, hbehind⟩
    rcases List.eq_nil_or_concat' behind with rfl | ⟨behind, last, rfl⟩
    · exact .inl (List.singleton_injective (List.append_inj' heq rfl).2.symm)
    · rw [← List.cons_append, ← List.append_assoc] at heq
      obtain ⟨rfl, hlast⟩ := List.append_inj' heq rfl
      obtain rfl := List.singleton_injective hlast
      refine .inr ⟨⟨before, behind, rfl, fun other hother => hbehind other (by simp [hother])⟩, ?_⟩
      exact (hbehind entry (by simp)).symm
  · rintro (rfl | ⟨⟨before, behind, rfl, hbehind⟩, hne⟩)
    · exact ⟨entries, [], rfl, by simp⟩
    · refine ⟨before, behind ++ [entry], by simp, fun other hother => ?_⟩
      rcases List.mem_append.mp hother with hother | hother
      · exact hbehind other hother
      · rw [List.mem_singleton.mp hother]
        exact hne.symm

lemma exists_lastAt_iff :
    (∃ value, LastAt entries frame value) ↔ ∃ value, (frame, value) ∈ entries := by
  constructor
  · rintro ⟨value, before, behind, rfl, -⟩
    exact ⟨value, by simp⟩
  · rintro ⟨value, hmem⟩
    induction entries using List.reverseRecOn with
    | nil => cases hmem
    | append_singleton entries entry ih =>
      by_cases hframe : frame = entry.1
      · exact ⟨entry.2, (lastAt_concat entries entry).mpr (.inl (by rw [hframe]))⟩
      · rcases List.mem_append.mp hmem with hmem | hmem
        · obtain ⟨last, hlast⟩ := ih hmem
          exact ⟨last, (lastAt_concat entries entry).mpr (.inr ⟨hlast, hframe⟩)⟩
        · rw [← List.mem_singleton.mp hmem] at hframe
          exact absurd rfl hframe

lemma LastAt.unique {value' : α} (h : LastAt entries frame value)
    (h' : LastAt entries frame value') : value = value' := by
  induction entries using List.reverseRecOn with
  | nil =>
    obtain ⟨before, behind, heq, -⟩ := h
    simp at heq
  | append_singleton entries entry ih =>
    rw [lastAt_concat] at h h'
    rcases h with rfl | ⟨h, hne⟩ <;> rcases h' with heq | ⟨h', hne'⟩
    · exact (congrArg Prod.snd heq).symm
    · exact absurd rfl hne'
    · exact absurd (congrArg Prod.fst heq) hne
    · exact ih h h'

end LastAt

/-- After any insertions a curve has, for each frame, one key at the value put in last. -/
theorem tidy_insertAll (h : Doubles bits) (target : Target) (index : Nat) (entries : List (α × α)) :
    Tidy (insertAll ⟨target, index, []⟩ entries).keys ∧
      ∀ k, k ∈ (insertAll ⟨target, index, []⟩ entries).keys ↔
        LastAt entries k.frame k.value ∧ k = .plain k.frame k.value := by
  induction entries using List.reverseRecOn with
  | nil =>
    refine ⟨⟨.nil, by simp [insertAll]⟩, fun k => iff_of_false (by simp [insertAll]) ?_⟩
    rintro ⟨⟨before, behind, heq, -⟩, -⟩
    simp at heq
  | append_singleton entries entry ih =>
    obtain ⟨htidy, hmem⟩ := ih
    obtain ⟨htidy', hmem'⟩ := htidy.insertKey h entry.1 entry.2
    have hkeys : (insertAll ⟨target, index, []⟩ (entries ++ [entry])).keys =
        insertKey (insertAll ⟨target, index, []⟩ entries).keys entry.1 entry.2 := by
      rw [insertAll, List.foldl_append]
      rfl
    rw [hkeys]
    refine ⟨htidy', fun k => ?_⟩
    rw [hmem' k, hmem k, lastAt_concat]
    constructor
    · rintro (rfl | ⟨⟨hlast, hplain⟩, hne⟩)
      · exact ⟨.inl rfl, rfl⟩
      · exact ⟨.inr ⟨hlast, hne⟩, hplain⟩
    · rintro ⟨rfl | ⟨hlast, hne⟩, hplain⟩
      · exact .inl hplain
      · exact .inr ⟨⟨hlast, hplain⟩, hne⟩

/-- Insertions at different frames can be exchanged. -/
lemma Tidy.insertKey_comm (h : Doubles bits) (hkeys : Tidy keys) {frame frame' : α}
    (hne : frame ≠ frame') (value value' : α) :
    Curve.insertKey (Curve.insertKey keys frame value) frame' value' =
      Curve.insertKey (Curve.insertKey keys frame' value') frame value := by
  obtain ⟨htidy, hmem⟩ := hkeys.insertKey h frame value
  obtain ⟨htidy', hmem'⟩ := hkeys.insertKey h frame' value'
  obtain ⟨htidy₂, hmem₂⟩ := htidy.insertKey h frame' value'
  obtain ⟨htidy₂', hmem₂'⟩ := htidy'.insertKey h frame value
  refine htidy₂.ext h htidy₂' fun k => ?_
  rw [hmem₂, hmem₂', hmem, hmem']
  constructor
  · rintro (rfl | ⟨rfl | ⟨hk, hk₁⟩, hk₂⟩)
    · exact .inr ⟨.inl rfl, hne.symm⟩
    · exact .inl rfl
    · exact .inr ⟨.inr ⟨hk, hk₂⟩, hk₁⟩
  · rintro (rfl | ⟨rfl | ⟨hk, hk₁⟩, hk₂⟩)
    · exact .inr ⟨.inl rfl, hne⟩
    · exact .inl rfl
    · exact .inr ⟨.inr ⟨hk, hk₂⟩, hk₁⟩

/-- Values put into an empty curve make it an ordered map. Its keys stand in the total order of
their frames, there is one for each frame that was given and none else, and it has the value given
last there, with its handles at the same height. Further insertions at different frames can be
exchanged. -/
theorem insertAll_orderedMap (h : Doubles bits) (target : Target) (index : Nat)
    (entries : List (α × α)) :
    ((insertAll ⟨target, index, []⟩ entries).keys.Pairwise fun a b =>
        totalOrder (bits a.frame) (bits b.frame) = .lt) ∧
      (∀ frame, (∃ value, (frame, value) ∈ entries) ↔
        ∃! k, k ∈ (insertAll ⟨target, index, []⟩ entries).keys ∧ k.frame = frame) ∧
      (∀ k ∈ (insertAll ⟨target, index, []⟩ entries).keys,
        LastAt entries k.frame k.value ∧ k.left.value = k.value ∧ k.right.value = k.value) ∧
      ∀ frame frame' value value', frame ≠ frame' →
        ((insertAll ⟨target, index, []⟩ entries).insert frame value).insert frame' value' =
          ((insertAll ⟨target, index, []⟩ entries).insert frame' value').insert frame value := by
  obtain ⟨htidy, hmem⟩ := tidy_insertAll h target index entries
  refine ⟨htidy.ascending.imp fun hlt => (h.order_eq _ _).symm.trans hlt, fun frame => ?_,
    fun k hk => ?_, ?_⟩
  · rw [← exists_lastAt_iff]
    constructor
    · rintro ⟨value, hlast⟩
      refine ⟨.plain frame value, ⟨(hmem _).mpr ⟨hlast, rfl⟩, rfl⟩, ?_⟩
      rintro k ⟨hk, rfl⟩
      obtain ⟨hlast', hplain⟩ := (hmem k).mp hk
      rw [hlast.unique hlast']
      exact hplain
    · rintro ⟨k, ⟨hk, rfl⟩, -⟩
      exact ⟨k.value, ((hmem k).mp hk).1⟩
  · obtain ⟨hlast, hplain⟩ := (hmem k).mp hk
    exact ⟨hlast, congrArg (·.left.value) hplain, congrArg (·.right.value) hplain⟩
  · intro frame frame' value value' hne
    exact congrArg (fun keys => { (insertAll ⟨target, index, []⟩ entries) with keys })
      (htidy.insertKey_comm h hne value value')

/-- Both zeros and what is not a number have keys of their own among floating-point numbers, and
among patterns so have two that are not numbers, one on either side. -/
theorem zeros_orderedMap :
    (Doubles Float.toBits ∧
      let curve : Curve Float :=
  insertAll ⟨.location, 0, []⟩ [(0.0, 1.0), (0.0 / 0.0, 2.0), (-0.0, 3.0), (0.0, 4.0)]
      curve.keys = [.plain (-0.0) 3.0, .plain 0.0 4.0, .plain (0.0 / 0.0) 2.0] ∧
        (∃! k, k ∈ curve.keys ∧ k.frame = 0.0) ∧
        (curve.insert (-0.0) 5.0).insert 0.0 6.0 = (curve.insert 0.0 6.0).insert (-0.0) 5.0) ∧
    Doubles Number.Pattern.bits ∧
      let curve : Curve Number.Pattern := insertAll ⟨.location, 0, []⟩
        [(⟨0x7ff8000000000001⟩, 1), (⟨0xfff8000000000000⟩, 2), (⟨0x7ff8000000000001⟩, 3)]
      (curve.keys.Pairwise fun a b => totalOrder a.frame.bits b.frame.bits = .lt) ∧
        ∃! k, k ∈ curve.keys ∧ k.frame = ⟨0xfff8000000000000⟩ := by
  obtain ⟨-, hone, -, hcomm⟩ := insertAll_orderedMap Number.doubles_toBits .location 0
    [(0.0, 1.0), (0.0 / 0.0, 2.0), (-0.0, 3.0), (0.0, 4.0)]
  obtain ⟨hascending, hone', -⟩ := insertAll_orderedMap Number.doubles_bits .location 0
    [(⟨0x7ff8000000000001⟩, 1), (⟨0xfff8000000000000⟩, 2), (⟨0x7ff8000000000001⟩, 3)]
  refine ⟨⟨Number.doubles_toBits, by decide +kernel, (hone _).mp ⟨1.0, by simp⟩, hcomm _ _ _ _ ?_⟩,
    Number.doubles_bits, hascending, (hone' _).mp ⟨2, by simp⟩⟩
  decide +kernel

end SceneExport.Curve
