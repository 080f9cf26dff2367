import Mathlib
import SceneExport.Proofs.Pose.Reconstruction

/-!
# Bones that are baked for the mesh

A bone matters for the mesh if it deforms the mesh itself or if some bone below it does, over any
number of links. The mask of these bones is collected in one sweep from back to front. Parents stand
before their children, so when the sweep comes to a bone all that hangs from the bone has been
passed, and the mark of the bone is final. A bone that is baked for the mesh therefore never lacks
its parent.
-/
namespace SceneExport.Skeleton

variable {α : Type} {s : Skeleton α} {i j p : Nat}

/-- The bone at position `j` has the one at position `i` as its parent. -/
def HangsFrom (s : Skeleton α) (j i : Nat) : Prop :=
  s.bones[j]?.bind Bone.parent = some i

/-- The bone at position `j` is the one at position `i` or hangs below it, over any number of
links. -/
def Below (s : Skeleton α) : Nat → Nat → Prop :=
  Relation.ReflTransGen s.HangsFrom

/-- The bone at position `j` deforms the mesh itself. -/
def DeformsAt (s : Skeleton α) (j : Nat) : Prop :=
  s.bones[j]?.map Bone.deforms = some true

lemma hangsFrom_iff {before after : List (Bone α)} {bone : Bone α}
    (hsplit : s.bones = before ++ bone :: after) :
    s.HangsFrom before.length i ↔ bone.parent = some i := by
  rw [HangsFrom, hsplit, List.getElem?_append_right le_rfl, Nat.sub_self, List.getElem?_cons_zero,
    Option.bind_some]

/-- Parents stand before their children. -/
lemma HangsFrom.lt (h : s.HangsFrom j i) : i < j := by
  obtain ⟨bone, hbone, hparent⟩ := Option.bind_eq_some_iff.mp h
  obtain ⟨hj, rfl⟩ := List.getElem?_eq_some_iff.mp hbone
  have hsplit : s.bones = s.bones.take j ++ s.bones[j] :: s.bones.drop (j + 1) := by
    rw [List.getElem_cons_drop, List.take_append_drop]
  have hsound : flawAfter [] (s.bones.take j ++ s.bones[j] :: s.bones.drop (j + 1)) = none :=
    hsplit ▸ s.sound
  have hlt := parent_lt_of_flawAfter hsound hparent
  rw [List.length_nil, Nat.zero_add, List.length_take] at hlt
  omega

lemma HangsFrom.lt_length (h : s.HangsFrom j i) : j < s.bones.length := by
  obtain ⟨bone, hbone, -⟩ := Option.bind_eq_some_iff.mp h
  exact (List.getElem?_eq_some_iff.mp hbone).1

/-- As `Below`, but only by links from bones that the sweep has passed, those from position `k`
on. -/
def BelowFrom (s : Skeleton α) (k : Nat) : Nat → Nat → Prop :=
  Relation.ReflTransGen fun c p => k ≤ c ∧ s.HangsFrom c p

lemma belowFrom_zero (s : Skeleton α) : s.BelowFrom 0 = s.Below := by
  simp only [BelowFrom, Below, Nat.zero_le, true_and]

/-- Before the sweep starts nothing is below a bone but the bone itself. -/
lemma belowFrom_length : s.BelowFrom s.bones.length j i ↔ j = i := by
  constructor
  · intro h
    induction h with
    | refl => rfl
    | tail _ hlink _ => exact absurd hlink.2.lt_length (by omega)
  · rintro rfl
    exact .refl

/-- Passing a bone adds all that is below it to what is below its parent. -/
lemma belowFrom_succ {k : Nat} :
    s.BelowFrom k j i ↔ s.BelowFrom (k + 1) j i ∨ s.HangsFrom k i ∧ s.BelowFrom (k + 1) j k := by
  have hmono : ∀ c, s.BelowFrom (k + 1) j c → s.BelowFrom k j c := fun c =>
    Relation.ReflTransGen.mono (fun _ _ hlink => ⟨Nat.le_of_succ_le hlink.1, hlink.2⟩) j c
  constructor
  · intro h
    induction h with
    | refl => exact .inl .refl
    | @tail c p _ hlink ih =>
      obtain ⟨hle, hlink⟩ := hlink
      rcases ih with ih | ⟨hk, -⟩
      · rcases hle.eq_or_lt with rfl | hlt
        · exact .inr ⟨hlink, ih⟩
        · exact .inl (ih.tail ⟨hlt, hlink⟩)
      -- the link from `k` is the last one, since parents stand before their children
      · exact absurd hk.lt (by omega)
  · rintro (h | ⟨hlink, h⟩)
    · exact hmono i h
    · exact (hmono k h).tail ⟨le_rfl, hlink⟩

lemma length_markParent (mask : List Bool) (bone : Bone α) (i : Nat) :
    (markParent mask bone i).length = mask.length := by
  unfold markParent
  split
  · split <;> simp
  · rfl

/-- A step of the sweep marks the parent of a marked bone and nothing else. -/
lemma getElem?_markParent {mask : List Bool} {bone : Bone α} {k : Nat}
    (hparent : ∀ p, bone.parent = some p → p < mask.length) :
    (markParent mask bone k)[i]? = some true ↔
      mask[i]? = some true ∨ bone.parent = some i ∧ mask[k]? = some true := by
  unfold markParent
  cases hbone : bone.parent with
  | none => simp
  | some p =>
    by_cases hmark : mask[k]? = some true
    · by_cases hp : p = i
      · subst hp
        simp [hmark, hparent p hbone]
      · simp [hmark, hp]
    · simp [hmark]

/-- The mask once the sweep has passed the bones `rest` at the end of the skeleton. -/
def swept (s : Skeleton α) (k : Nat) (rest : List (Bone α)) : List Bool :=
  (rest.zipIdx k).foldr (fun (bone, i) mask => markParent mask bone i) (s.bones.map Bone.deforms)

lemma length_swept (s : Skeleton α) (k : Nat) (rest : List (Bone α)) :
    (s.swept k rest).length = s.bones.length := by
  induction rest generalizing k with
  | nil => exact List.length_map _
  | cons bone rest ih => exact (length_markParent _ _ _).trans (ih (k + 1))

/-- The invariant of the sweep: the marked bones are those with a deforming bone below them, by
links from bones that are passed. -/
lemma getElem?_swept {before rest : List (Bone α)} (hsplit : s.bones = before ++ rest) :
    (s.swept before.length rest)[i]? = some true ↔
      ∃ j, s.BelowFrom before.length j i ∧ s.DeformsAt j := by
  induction rest generalizing before i with
  | nil =>
    have hlength : before.length = s.bones.length := by rw [hsplit, List.append_nil]
    have hmask : s.swept before.length [] = s.bones.map Bone.deforms := rfl
    rw [hmask, hlength]
    simp only [belowFrom_length, exists_eq_left, DeformsAt, List.getElem?_map]
  | cons bone rest ih =>
    have hsplit' : s.bones = (before ++ [bone]) ++ rest := by
      rw [hsplit, List.append_assoc, List.singleton_append]
    have hlength : (before ++ [bone]).length = before.length + 1 := List.length_append
    have hparent : ∀ p, bone.parent = some p → p < (s.swept (before.length + 1) rest).length := by
      intro p hp
      have hlink : s.HangsFrom before.length p := (hangsFrom_iff hsplit).mpr hp
      rw [length_swept]
      exact hlink.lt.trans hlink.lt_length
    have hstep : s.swept before.length (bone :: rest) =
        markParent (s.swept (before.length + 1) rest) bone before.length := rfl
    have hpassed := fun i => ih (i := i) hsplit'
    rw [hlength] at hpassed
    rw [hstep, getElem?_markParent hparent, hpassed, hpassed, ← hangsFrom_iff hsplit]
    simp only [belowFrom_succ (k := before.length), or_and_right, exists_or, and_assoc,
      exists_and_left]

lemma mem_included : p ∈ (s.included true).map Prod.snd ↔ s.deformMask[p]? = some true := by
  have hlength : s.deformMask.length = s.bones.length := s.length_swept 0 s.bones
  simp only [included, if_true, List.mem_map, List.mem_filter, decide_eq_true_eq, Prod.exists,
    List.mem_zipIdx_iff_getElem?, exists_eq_right]
  constructor
  · rintro ⟨bone, -, hmark⟩
    exact hmark
  · intro hmark
    have hp : p < s.bones.length := hlength ▸ (List.getElem?_eq_some_iff.mp hmark).1
    exact ⟨s.bones[p], List.getElem?_eq_getElem hp, hmark⟩

/-- The sweep marks a bone if and only if the bone or some bone below it deforms the mesh. So the
bones that are baked for the mesh include the parent of each of them. -/
theorem deformMask_iff_below (s : Skeleton α) :
    (∀ i, s.deformMask[i]? = some true ↔ ∃ j, s.Below j i ∧ s.DeformsAt j) ∧
      ∀ i p, i ∈ (s.included true).map Prod.snd → s.HangsFrom i p →
        p ∈ (s.included true).map Prod.snd := by
  have hmask : ∀ i, s.deformMask[i]? = some true ↔ ∃ j, s.Below j i ∧ s.DeformsAt j := by
    intro i
    rw [← belowFrom_zero]
    exact getElem?_swept (List.nil_append s.bones).symm
  refine ⟨hmask, fun i p hi hlink => ?_⟩
  rw [mem_included, hmask] at hi ⊢
  obtain ⟨j, hbelow, hdeforms⟩ := hi
  exact ⟨j, hbelow.tail hlink, hdeforms⟩

end SceneExport.Skeleton
