import Mathlib
import SceneExport.Proofs.Curve.Lookup
import SceneExport.Proofs.Rounding.Whole

/-!
# Evaluation stays inside the keys

The keys of a curve may stand in any order, and several may have one frame. The search for a frame
then looks for a boundary where there may be many. Still, a frame that is behind the first key and
before the last one is cut between two neighbours, of which one is not behind it and the other is.
So the curve has a value there, and the handles of a segment are moved into an interval that is not
empty.
-/
namespace SceneExport.Curve

variable {c : Curve Float} {x lo hi : Float}

/-- A number that is moved into an interval lies in it, unless the interval is empty. -/
lemma clamp_mem (hx : x.isNaN = false) (hlo : lo.isNaN = false) (hhi : hi.isNaN = false)
    (h : lo ≤ hi) : lo ≤ Scalar.clamp x lo hi ∧ Scalar.clamp x lo hi ≤ hi := by
  have hrefl : ∀ {y : Float}, y.isNaN = false → y ≤ y :=
    fun hy => (Rounding.le_total_of_isNaN hy hy).elim id id
  have hle : ∀ {y z : Float}, y.isNaN = false → z.isNaN = false → ¬ z < y → y ≤ z :=
    fun hy hz hlt =>
    not_not.mp fun hnle => hlt ((Rounding.not_le_iff_of_isNaN hy hz).mp hnle)
  have hraised : lo ≤ (if x < lo then lo else x) ∧ (if x < lo then lo else x).isNaN = false := by
    split_ifs with hlt
    · exact ⟨hrefl hlo, hlo⟩
    · exact ⟨hle hlo hx hlt, hx⟩
  rw [Scalar.clamp]
  generalize (if x < lo then lo else x) = raised at hraised ⊢
  split_ifs with hlt
  · exact ⟨h, hrefl hhi⟩
  · exact ⟨hraised.1, hle hraised.2 hhi hlt⟩

/-- The curve runs at the frame `x` from the key `a` to the key `b`, which are the two next to the
cut. -/
structure Inside (c : Curve Float) (x : Float) (a b : Key Float) : Prop where
  one_le : 1 ≤ keysUpTo c.keys x
  le_last : keysUpTo c.keys x ≤ c.keys.length - 1
  before : c.keys[keysUpTo c.keys x - 1]? = some a
  behind : c.keys[keysUpTo c.keys x]? = some b
  frame_le : a.frame ≤ x
  lt_frame : x < b.frame
  interval : a.frame ≤ b.frame
  clamped : ∀ handle : Float, handle.isNaN = false →
    a.frame ≤ Scalar.clamp handle a.frame b.frame ∧ Scalar.clamp handle a.frame b.frame ≤ b.frame
  value : c.evaluate x = some (between a b x)

/-- The curve runs between the neighbours at the cut, if one is not behind the frame and the other
is. -/
lemma inside_of_split {front back : List (Key Float)} {a b : Key Float}
    (hkeys : ∀ k ∈ c.keys, k.frame.isNaN = false) (hx : x.isNaN = false)
    (hsplit : c.keys = front ++ a :: b :: back) (hcut : keysUpTo c.keys x = front.length + 1)
    (hle : a.frame ≤ x) (hnle : ¬ b.frame ≤ x) (hvalue : c.evaluate x = some (between a b x)) :
    Inside c x a b := by
  have ha : a.frame.isNaN = false := hkeys a (by simp [hsplit])
  have hb : b.frame.isNaN = false := hkeys b (by simp [hsplit])
  have hle' : x ≤ b.frame := (Rounding.le_total_of_isNaN hx hb).resolve_right hnle
  have hab : a.frame ≤ b.frame := Rounding.le_trans_of_isNaN ha hx hb hle hle'
  have hbefore : c.keys[front.length]? = some a := by simp [hsplit]
  have hbehind : c.keys[front.length + 1]? = some b := by simp [hsplit]
  have hlength : front.length + 1 < c.keys.length := (List.getElem?_eq_some_iff.mp hbehind).1
  exact {
    one_le := by omega
    le_last := by omega
    before := by rwa [hcut]
    behind := by rwa [hcut]
    frame_le := hle
    lt_frame := (Rounding.not_le_iff_of_isNaN hb hx).mp hnle
    interval := hab
    clamped := fun _ hhandle => clamp_mem hhandle ha hb hab
    value := hvalue }

/-- A curve with keys in any order, of which several may have one frame, has a value at every frame.
A frame that is behind the first key and before the last one lies between two neighbours. -/
theorem evaluate_inside (hne : c.keys ≠ []) (hkeys : ∀ k ∈ c.keys, k.frame.isNaN = false)
    (hx : x.isNaN = false) :
    (∃ value, c.evaluate x = some value) ∧
      ∀ first last, c.keys.head? = some first → c.keys.getLast? = some last → ¬ x ≤ first.frame →
        ¬ last.frame ≤ x → ∃ a b, Inside c x a b := by
  rcases evaluate_cases hne fun k hk => Rounding.le_total_of_isNaN hx (hkeys k hk) with
    ⟨a, back, hsplit, hle, hvalue⟩ | ⟨front, a, hsplit, hle, hvalue⟩ |
      ⟨front, a, b, back, hsplit, hcut, hle, hnle, hvalue⟩
  · refine ⟨⟨_, hvalue⟩, fun first last hfirst _ hlow _ => absurd ?_ hlow⟩
    obtain rfl : a = first := by simpa [hsplit] using hfirst
    exact hle
  · refine ⟨⟨_, hvalue⟩, fun first last _ hlast _ hhigh => absurd ?_ hhigh⟩
    obtain rfl : a = last := by simpa [hsplit] using hlast
    exact hle
  · exact ⟨⟨_, hvalue⟩,
      fun _ _ _ _ _ _ => ⟨a, b, inside_of_split hkeys hx hsplit hcut hle hnle hvalue⟩⟩

/-- Keys in no order, two of them at one frame. -/
def scattered : Curve Float :=
  ⟨.location, 0,
    [.plain 1 10, .plain 8 20, .plain 2 30, .plain 2 40, .plain 9 50, .plain 0 60, .plain 7 70]⟩

/-- Three pairs of neighbours in `scattered` enclose frame 3, and the curve runs between those of
the last pair. -/
theorem scattered_inside :
    (∃ value, scattered.evaluate 3 = some value) ∧
    Inside scattered 3 (.plain 0 60) (.plain 7 70) := by
  have hkeys : ∀ k ∈ scattered.keys, k.frame.isNaN = false := by decide +kernel
  have hcut : keysUpTo scattered.keys 3 = 6 := by decide +kernel
  obtain ⟨hvalue, hinside⟩ :=
    @evaluate_inside scattered 3 (List.cons_ne_nil _ _) hkeys (by decide +kernel)
  obtain ⟨a, b, hab⟩ :=
    hinside (.plain 1 10) (.plain 7 70) rfl rfl (by decide +kernel) (by decide +kernel)
  have ha := hab.before
  have hb := hab.behind
  rw [hcut] at ha hb
  obtain rfl : .plain 0 60 = a := Option.some.inj ha
  obtain rfl : .plain 7 70 = b := Option.some.inj hb
  exact ⟨hvalue, hab⟩

end SceneExport.Curve
