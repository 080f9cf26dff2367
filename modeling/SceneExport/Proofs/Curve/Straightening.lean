import Mathlib
import SceneExport.Curve.Optimize

/-!
# Marking straight parts twice

Straight parts are marked in one pass along the curve. Each step looks at three neighbouring keys,
marks the middle one, and moves handles towards the line where a Bezier part meets a linear one. Two
steps may move the same handle, and then the later one counts.

Steps read frames and values, which never change, and interpolations that no later step changes. A
second pass therefore takes the same decisions and moves the same handles to the same places in the
same order. A handle that the first of two steps moves back is moved on again by the second one.
-/
namespace SceneExport

variable {α : Type}

namespace Key

/-- The key with its right handle at another height. -/
def aim (k : Key α) (height : α) : Key α :=
  { k with right := { k.right with value := height } }

/-- The key with its left handle at another height. -/
def trail (k : Key α) (height : α) : Key α :=
  { k with left := { k.left with value := height } }

/-- The key with a straight line behind it if it is to have one. -/
def mark (straight : Bool) (k : Key α) : Key α :=
  if straight then k.straight else k

/-- Frame and value of a key, which straightening leaves alone. -/
def place (k : Key α) : α × α := (k.frame, k.value)

lemma place_mark (straight : Bool) (k : Key α) : (k.mark straight).place = k.place := by
  cases straight <;> rfl

lemma mark_eq_self {straight : Bool} {k m : Key α}
    (h : m.interpolation = (k.mark straight).interpolation) : m.mark straight = m := by
  cases straight with
  | false => rfl
  | true =>
    obtain ⟨frame, value, left, right, interpolation⟩ := m
    obtain rfl : interpolation = .linear := h
    rfl

end Key

namespace Curve

variable [Scalar α]

/-- Moves the handles between two marked keys: onto the line if a Bezier part meets a linear one,
and behind a linear part to the height of the key that comes next. -/
def fit (line : α × α) (height : α) (a b : Key α) : Key α × Key α :=
  match a.interpolation, b.interpolation with
  | .bezier, .linear =>
    (a.aim (line.1 * a.right.frame + line.2), b.trail (line.1 * b.left.frame + line.2))
  | .linear, .bezier => (a, b.aim height)
  | _, _ => (a, b)

lemma straighten_eq (tolerance : α) (first last : Bool) (a b c : Key α) :
    straighten tolerance first last a b c =
      let straight := isStraight tolerance a b c
      let c' := c.mark (straight && last)
      let fitted := fit (lineThrough a b) c'.value (a.mark (straight && first)) (b.mark straight)
      (fitted.1, fitted.2, c') := by
  unfold straighten fit Key.mark
  dsimp only
  generalize (if (isStraight tolerance a b c && first) = true then a.straight else a) = a'
  generalize (if isStraight tolerance a b c = true then b.straight else b) = b'
  cases ha : a'.interpolation <;> cases hb : b'.interpolation <;>
    simp only [Key.aim, Key.trail, ha, hb]

/-- Handles are fitted to the same places again, whether the left key was fitted before or not and
wherever the right handle of the right key went since. The right key comes out as before, or it is
left alone. -/
lemma fit_again {line : α × α} {height x : α} {a b a' b' : Key α}
    (h : fit line height a b = (a', b')) :
    ∃ m, fit line height a (b'.aim x) = (a', m) ∧ fit line height a' (b'.aim x) = (a', m) ∧
      (m = b' ∨ m = b'.aim x) := by
  unfold fit at h
  split at h
  · next ha hb =>
    obtain ⟨rfl, rfl⟩ := Prod.mk.inj h
    refine ⟨_, ?_, ?_, .inr rfl⟩
    · simp [fit, Key.aim, Key.trail, ha, hb]
    · simp [fit, Key.aim, Key.trail, ha, hb]
  · next ha hb =>
    obtain ⟨rfl, rfl⟩ := Prod.mk.inj h
    refine ⟨_, ?_, ?_, .inl rfl⟩
    · simp [fit, Key.aim, ha, hb]
    · simp [fit, Key.aim, ha, hb]
  · next hbl hlb =>
    obtain ⟨rfl, rfl⟩ := Prod.mk.inj h
    have hsame : fit line height a (b.aim x) = (a, b.aim x) := by
      cases ha : a.interpolation <;> cases hb : b.interpolation <;> simp_all [fit, Key.aim]
    exact ⟨_, hsame, hsame, .inr rfl⟩

lemma interpolation_fit (line : α × α) (height : α) (a b : Key α) :
    (fit line height a b).1.interpolation = a.interpolation ∧
      (fit line height a b).2.interpolation = b.interpolation := by
  unfold fit
  split <;> exact ⟨rfl, rfl⟩

/-- The left key at most gets its right handle at another height. -/
lemma fit_fst (line : α × α) (height : α) (a b : Key α) :
    ∃ x, (fit line height a b).1 = a.aim x := by
  unfold fit
  split
  · exact ⟨_, rfl⟩
  · exact ⟨a.right.value, rfl⟩
  · exact ⟨a.right.value, rfl⟩

lemma place_fit (line : α × α) (height : α) (a b : Key α) :
    (fit line height a b).1.place = a.place ∧ (fit line height a b).2.place = b.place := by
  unfold fit
  split <;> exact ⟨rfl, rfl⟩

lemma lineThrough_congr {a b a' b' : Key α} (ha : a'.place = a.place) (hb : b'.place = b.place) :
    lineThrough a' b' = lineThrough a b := by
  simp only [Key.place, Prod.mk.injEq] at ha hb
  simp only [lineThrough, ha, hb]

lemma isStraight_congr {tolerance : α} {a b c a' b' c' : Key α} (ha : a'.place = a.place)
    (hb : b'.place = b.place) (hc : c'.place = c.place) :
    isStraight tolerance a' b' c' = isStraight tolerance a b c := by
  simp only [isStraight, lineThrough_congr ha hb]
  simp only [Key.place, Prod.mk.injEq] at hb hc
  simp only [hb, hc]

variable {tolerance : α} {first last : Bool} {a b c a' b' c' : Key α} {rest : List (Key α)}

lemma place_straighten (h : straighten tolerance first last a b c = (a', b', c')) :
    a'.place = a.place ∧ b'.place = b.place ∧ c'.place = c.place := by
  rw [straighten_eq] at h
  simp only [Prod.mk.injEq] at h
  obtain ⟨rfl, rfl, rfl⟩ := h
  simp only [place_fit, Key.place_mark, and_self]

lemma straighten_fst (h : straighten tolerance false last a b c = (a', b', c')) :
    ∃ x, a' = a.aim x := by
  rw [straighten_eq] at h
  simp only [Prod.mk.injEq, Bool.and_false] at h
  rw [← h.1]
  exact fit_fst _ _ _ _

/-- A step on keys that were straightened before changes the middle key at most in the right handle,
and that only back to where the step put it the first time. -/
theorem straighten_again (h : straighten tolerance first last a b c = (a', b', c')) {m n : Key α}
    (hm : m = a ∨ m = a') (x : α) (hn : n.place = c'.place) (hlast : last = true → n = c') :
    ∃ b₂,
    straighten tolerance first last m (b'.aim x) n = (a', b₂, n) ∧ (b₂ = b' ∨ b₂ = b'.aim x) := by
  obtain ⟨ha, hb, hc⟩ := place_straighten h
  have hm' : m.place = a.place := by
    rcases hm with rfl | rfl
    · rfl
    · exact ha
  have hx : (b'.aim x).place = b.place := hb
  have hvalue : n.value = c'.value := congrArg Prod.snd hn
  rw [straighten_eq] at h ⊢
  simp only [Prod.mk.injEq] at h
  obtain ⟨hfst, hsnd, hthd⟩ := h
  simp only [isStraight_congr hm' hx (hn.trans hc), lineThrough_congr hm' hx]
  rw [hthd] at hfst hsnd
  -- marks are set already
  have hinterpolation := interpolation_fit (lineThrough a b) c'.value
    (a.mark (isStraight tolerance a b c && first)) (b.mark (isStraight tolerance a b c))
  rw [hfst, hsnd] at hinterpolation
  have hmarkb : (b'.aim x).mark (isStraight tolerance a b c) = b'.aim x :=
    Key.mark_eq_self hinterpolation.2
  have hmarkn : n.mark (isStraight tolerance a b c && last) = n := by
    cases last with
    | false => rw [Bool.and_false]; rfl
    | true =>
      rw [hlast rfl]
      exact Key.mark_eq_self (congrArg Key.interpolation hthd.symm)
  obtain ⟨b₂, hfit, hfit', hb₂⟩ := fit_again (x := x) (Prod.ext hfst hsnd)
  rw [hmarkb, hmarkn, hvalue]
  refine ⟨b₂, ?_, hb₂⟩
  rcases hm with rfl | rfl
  · rw [hfit]
  · rw [Key.mark_eq_self hinterpolation.1, hfit']

/-- Straightening keeps the places of keys. A head that is not the first key of the curve changes at
most in its right handle. -/
lemma straightenFrom_cases (tolerance : α) (first : Bool) (a : Key α) (rest : List (Key α)) :
    ∃ a' rest', straightenFrom tolerance first a rest = a' :: rest' ∧ a'.place = a.place ∧
      rest'.map Key.place = rest.map Key.place ∧ (first = false → ∃ x, a' = a.aim x) := by
  fun_induction straightenFrom tolerance first a rest with
  | case1 first a b c rest a' b' c' h ih =>
    obtain ⟨ha, hb, hc⟩ := place_straighten h
    obtain ⟨b'', rest', heq, hb', hrest', -⟩ := ih
    refine ⟨a', b'' :: rest', by rw [heq], ha, ?_, fun hfirst => ?_⟩
    · simp only [List.map_cons] at hrest' ⊢
      rw [hb', hb, hrest', hc]
    · subst hfirst
      exact straighten_fst h
  | case2 first a rest =>
    exact ⟨a, rest, rfl, rfl, rfl, fun _ => ⟨a.right.value, rfl⟩⟩

/-- Straightening what was straightened changes nothing, also when the head is put back to what it
was before. -/
theorem straightenFrom_again {rest' : List (Key α)}
    (h : straightenFrom tolerance first a rest = a' :: rest') {m : Key α} (hm : m = a ∨ m = a') :
    straightenFrom tolerance first m rest' = a' :: rest' := by
  fun_induction straightenFrom tolerance first a rest generalizing a' rest' m with
  | case1 first a b c rest a₁ b₁ c₁ hstep ih =>
    obtain ⟨rfl, rfl⟩ := List.cons.inj h
    obtain ⟨_, tail, heq, -, htail, hhead⟩ := straightenFrom_cases tolerance false b₁ (c₁ :: rest)
    obtain ⟨x, rfl⟩ := hhead rfl
    obtain ⟨c₂, rest₂, rfl⟩ : ∃ c₂ rest₂, tail = c₂ :: rest₂ := by
      cases tail with
      | nil => simp at htail
      | cons c₂ rest₂ => exact ⟨c₂, rest₂, rfl⟩
    obtain ⟨hc₂, hrest₂⟩ := List.cons.inj htail
    have hempty : rest₂.isEmpty = rest.isEmpty := by
      have hmap := congrArg List.isEmpty hrest₂
      rwa [List.isEmpty_map, List.isEmpty_map] at hmap
    have hlast : rest.isEmpty = true → c₂ = c₁ := by
      intro hrest
      have htwo : straightenFrom tolerance false b₁ [c₁] = [b₁, c₁] := by simp [straightenFrom]
      rw [List.isEmpty_iff.mp hrest, htwo] at heq
      exact (List.cons.inj (List.cons.inj heq).2).1.symm
    obtain ⟨b₂, hagain, hb₂⟩ := straighten_again hstep hm x hc₂ hlast
    rw [heq, straightenFrom, hempty, hagain]
    exact congrArg (a₁ :: ·) (ih heq hb₂)
  | case2 first a rest hshort =>
    obtain ⟨rfl, rfl⟩ := List.cons.inj h
    obtain rfl : m = a := by simpa using hm
    exact straightenFrom.eq_2 _ _ _ _ hshort

theorem markStraight_markStraight (tolerance : α) (c : Curve α) :
    (c.markStraight tolerance).markStraight tolerance = c.markStraight tolerance := by
  unfold markStraight
  cases hkeys : c.keys with
  | nil => rfl
  | cons a rest =>
    obtain ⟨a', rest', h, -⟩ := straightenFrom_cases tolerance true a rest
    simp only [h, straightenFrom_again h (.inr rfl)]

lemma map_place_markStraight (tolerance : α) (c : Curve α) :
    (c.markStraight tolerance).keys.map Key.place = c.keys.map Key.place := by
  unfold markStraight
  cases hkeys : c.keys with
  | nil => rfl
  | cons a rest =>
    obtain ⟨a', rest', h, ha, hrest, -⟩ := straightenFrom_cases tolerance true a rest
    simp [h, ha, hrest]

end Curve

end SceneExport
