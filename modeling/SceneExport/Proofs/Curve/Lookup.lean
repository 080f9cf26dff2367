import Mathlib
import SceneExport.Curve.Evaluate
import SceneExport.Proofs.Search.Halving

/-!
# Where a frame lies among the keys of a curve

Binary search finds two neighbours around a frame, in whatever order the keys stand: one that is not
behind the frame and one that is. The value of the curve is then that of the first key, that of the
last key, or what runs between these two.
-/
namespace SceneExport.Curve

variable {α : Type} [Scalar α] {c : Curve α} {keys : List (Key α)} {k first last : Key α}
    {x : α} {i : Nat}

/-- What the search asks at a position. -/
def isUpTo (keys : List (Key α)) (x : α) (i : Nat) : Bool :=
  (keys[i]?.map fun k => decide (k.frame ≤ x)).getD false

lemma keysUpTo_eq_partition (keys : List (Key α)) (x : α) :
    keysUpTo keys x = Search.partition (isUpTo keys x) keys.length := rfl

lemma isUpTo_eq (h : keys[i]? = some k) : isUpTo keys x i = decide (k.frame ≤ x) := by
  rw [isUpTo, h, Option.map_some, Option.getD_some]

/-- A frame that is behind the first key and before the last one is cut between two keys. -/
lemma exists_keysUpTo_eq (hfirst : keys.head? = some first) (hlast : keys.getLast? = some last)
    (hlow : first.frame ≤ x) (hhigh : ¬ last.frame ≤ x) :
    ∃ front a b back, keys = front ++ a :: b :: back ∧ keysUpTo keys x = front.length + 1 ∧
      a.frame ≤ x ∧ ¬ b.frame ≤ x := by
  have hpos : 0 < keys.length := List.length_pos_of_mem (List.mem_of_mem_head? hfirst)
  rw [List.head?_eq_getElem?] at hfirst
  rw [List.getLast?_eq_getElem?] at hlast
  have hzero : isUpTo keys x 0 = true := by rw [isUpTo_eq hfirst, decide_eq_true hlow]
  have hend : isUpTo keys x (keys.length - 1) = false := by
    rw [isUpTo_eq hlast, decide_eq_false hhigh]
  obtain ⟨i, hcut, hi, ha, hb⟩ := Search.exists_partition_eq hzero hend hpos
  have hi' : i < keys.length := by omega
  rw [isUpTo_eq (List.getElem?_eq_getElem hi'), decide_eq_true_eq] at ha
  rw [isUpTo_eq (List.getElem?_eq_getElem hi), decide_eq_false_iff_not] at hb
  refine ⟨keys.take i, keys[i], keys[i + 1], keys.drop (i + 2), ?_, ?_, ha, hb⟩
  · rw [List.getElem_cons_drop, List.getElem_cons_drop, List.take_append_drop]
  · rw [List.length_take_of_le hi'.le, keysUpTo_eq_partition, hcut]

/-- The value of a curve with a first and a last key. -/
lemma evaluate_eq (hfirst : c.keys.head? = some first) (hlast : c.keys.getLast? = some last)
    (x : α) :
    c.evaluate x = if x ≤ first.frame then some first.value
      else if last.frame ≤ x then some last.value else valueAt? c.keys x (keysUpTo c.keys x) := by
  unfold evaluate
  rw [hfirst, hlast]
  rfl

/-- The value of a curve at a frame that can be compared with all keys: at its ends it stays, and in
between it runs from one key to the next. -/
theorem evaluate_cases (hne : c.keys ≠ []) (hx : ∀ k ∈ c.keys, x ≤ k.frame ∨ k.frame ≤ x) :
    (∃ a back, c.keys = a :: back ∧ x ≤ a.frame ∧ c.evaluate x = some a.value) ∨
      (∃ front a, c.keys = front ++ [a] ∧ a.frame ≤ x ∧ c.evaluate x = some a.value) ∨
      ∃ front a b back, c.keys = front ++ a :: b :: back ∧ keysUpTo c.keys x = front.length + 1 ∧
        a.frame ≤ x ∧ ¬ b.frame ≤ x ∧ c.evaluate x = some (between a b x) := by
  obtain ⟨first, hfirst⟩ : ∃ first, c.keys.head? = some first :=
    ⟨c.keys.head hne, List.head?_eq_some_head hne⟩
  obtain ⟨last, hlast⟩ : ∃ last, c.keys.getLast? = some last :=
    ⟨c.keys.getLast hne, List.getLast?_eq_some_getLast hne⟩
  have hvalue := evaluate_eq hfirst hlast x
  by_cases hbefore : x ≤ first.frame
  · obtain ⟨back, hback⟩ := List.head?_eq_some_iff.mp hfirst
    exact .inl ⟨first, back, hback, hbefore, by rw [hvalue, if_pos hbefore]⟩
  by_cases hbehind : last.frame ≤ x
  · obtain ⟨front, hfront⟩ := List.getLast?_eq_some_iff.mp hlast
    exact .inr (.inl ⟨front, last, hfront, hbehind, by rw [hvalue, if_neg hbefore, if_pos hbehind]⟩)
  have hlow := (hx first (List.mem_of_mem_head? hfirst)).resolve_left hbefore
  obtain ⟨front, a, b, back, hsplit, hcount, ha, hb⟩ := exists_keysUpTo_eq hfirst hlast hlow hbehind
  refine .inr (.inr ⟨front, a, b, back, hsplit, hcount, ha, hb, ?_⟩)
  rw [hvalue, if_neg hbefore, if_neg hbehind, hcount, hsplit]
  simp [valueAt?]

end SceneExport.Curve
