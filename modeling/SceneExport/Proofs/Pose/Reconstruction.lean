import Mathlib
import SceneExport.Pose.Rig
import SceneExport.Proofs.Matrix.Inverse

/-!
# Local poses and the poses they lead to

Over exact numbers, the local pose of a bone is what `above`, the motion of its parent away from its
rest, and its own rest position have to be followed by to give its pose; and this is how bones are
placed. So bones that are placed by their local poses come back to their poses, and bones that were
placed by bases have these bases as local poses. Parents come before their children, so both go
through the bones from front to back.
-/
namespace SceneExport

namespace Skeleton

variable {α : Type}

lemma flawAfter_cons {names : List String} {bone : Bone α} {bones : List (Bone α)} :
    flawAfter names (bone :: bones) = none ↔ (∀ p, bone.parent = some p → p < names.length) ∧
      bone.name ∉ names ∧ flawAfter (bone.name :: names) bones = none := by
  have hname : (if bone.name ∈ names then some (Bake.Flaw.repeatedName bone.name)
      else flawAfter (bone.name :: names) bones) = none ↔
        bone.name ∉ names ∧ flawAfter (bone.name :: names) bones = none := by
    by_cases h : bone.name ∈ names <;> simp [h]
  cases hparent : bone.parent with
  | none => simpa [flawAfter, hparent] using hname
  | some p =>
    by_cases hp : names.length ≤ p
    · simp [flawAfter, hparent, Option.filter, hp]
    · have hlt : p < names.length := Nat.lt_of_not_le hp
      simpa [flawAfter, hparent, Option.filter, hp, hlt] using hname

/-- Parents come before their children. -/
lemma parent_lt_of_flawAfter {names : List String} {before after : List (Bone α)} {bone : Bone α}
    (h : flawAfter names (before ++ bone :: after) = none) {p : Nat} (hp : bone.parent = some p) :
    p < names.length + before.length := by
  induction before generalizing names with
  | nil => exact (flawAfter_cons.mp h).1 p hp
  | cons b before ih =>
    have hlt := ih (flawAfter_cons.mp h).2.2
    simp only [List.length_cons] at hlt ⊢
    omega

/-- Every name occurs once. -/
lemma nodup_of_flawAfter {names : List String} {bones : List (Bone α)}
    (h : flawAfter names bones = none) :
    (bones.map Bone.name).Nodup ∧ ∀ b ∈ bones, b.name ∉ names := by
  induction bones generalizing names with
  | nil => simp
  | cons b bones ih =>
    obtain ⟨-, hname, hrest⟩ := flawAfter_cons.mp h
    obtain ⟨hnodup, hnames⟩ := ih hrest
    simp only [List.map_cons, List.nodup_cons, List.mem_map, not_exists, not_and, List.mem_cons,
      not_or] at hnames ⊢
    refine ⟨⟨fun c hc => (hnames c hc).1, hnodup⟩, ?_⟩
    rintro c (rfl | hc)
    · exact hname
    · exact (hnames c hc).2

/-- Bones are told apart by their names. -/
lemma find?_name_eq (s : Skeleton α) {poses : List (Mat4 α)}
    (hlength : poses.length = s.bones.length) {q : Bone α × Mat4 α} (hq : q ∈ s.bones.zip poses) :
    (s.bones.zip poses).find? (fun x => x.1.name = q.1.name) = some q := by
  have hnodup : ((s.bones.zip poses).map fun x => x.1.name).Nodup := by
    have hnames := (nodup_of_flawAfter s.sound).1
    rwa [← List.map_fst_zip hlength.ge, List.map_map] at hnames
  cases hfound : (s.bones.zip poses).find? fun x => x.1.name = q.1.name with
  | none =>
    have hnone := List.find?_eq_none.mp hfound q hq
    simp at hnone
  | some x =>
    have hname : x.1.name = q.1.name := by simpa using List.find?_some hfound
    rw [List.inj_on_of_nodup_map hnodup (List.mem_of_find?_eq_some hfound) hq hname]

end Skeleton

namespace Pose

open Mat (toMatrix ofMatrix)

/-- The parent of a bone among bones with their poses. -/
def parentIn {α : Type} (placed : List (Bone α × Mat4 α)) (bone : Bone α) : Option (Placed α) :=
  (bone.parent.bind (placed[·]?)).map fun (parent, pose) => ⟨parent.rest, pose⟩

lemma mem_parentIn {α : Type} {placed : List (Bone α × Mat4 α)} {bone : Bone α} {q : Placed α}
    (h : q ∈ parentIn placed bone) : ∃ x ∈ placed, q = ⟨x.1.rest, x.2⟩ := by
  obtain ⟨x, hx, rfl⟩ := Option.map_eq_some_iff.mp h
  obtain ⟨p, -, hx⟩ := Option.bind_eq_some_iff.mp hx
  exact ⟨x, List.mem_of_getElem? hx, rfl⟩

/-- The parent of a bone stands among the bones before it. -/
lemma parentIn_before {α : Type} {placed before after : List (Bone α × Mat4 α)} {bone : Bone α}
    {pose : Mat4 α} (hsound : Skeleton.flaw? (placed.map Prod.fst) = none)
    (hsplit : placed = before ++ (bone, pose) :: after) :
    parentIn before bone = parentIn placed bone := by
  unfold parentIn
  cases hparent : bone.parent with
  | none => rfl
  | some p =>
    rw [hsplit, List.map_append, List.map_cons] at hsound
    have hlt := Skeleton.parent_lt_of_flawAfter hsound hparent
    rw [List.length_map, List.length_nil, Nat.zero_add] at hlt
    rw [hsplit, Option.bind_some, Option.bind_some, List.getElem?_append_left hlt]

variable {K : Type} [ExactScalar K]

/-- What moves the rest position of the parent to its pose. -/
noncomputable def above : Option (Placed K) → Matrix (Fin 4) (Fin 4) K
  | none => 1
  | some parent => parent.pose.toMatrix * parent.rest.toMatrix⁻¹

/-- The bases are the local poses of bones that have these poses. -/
def Reconstructs (s : Skeleton K) (bias : K) (poses : List (Mat4 K))
    (basis : Bone K → Mat4 K) : Prop :=
  ∀ q ∈ s.bones.zip poses, ∀ site,
    localPose ⟨q.1.rest, q.2⟩ (parentIn (s.bones.zip poses) q.1) bias site = .ok (basis q.1)

lemma invert_eq {m : Mat4 K} (h : IsUnit m.toMatrix) (bias : K) (site : Site) :
    invert m bias site = .ok (ofMatrix m.toMatrix⁻¹) := by
  rw [invert, Mat.safeInverse?_eq h]

lemma isUnit_above {parent : Option (Placed K)}
    (h : ∀ q ∈ parent, IsUnit q.rest.toMatrix ∧ IsUnit q.pose.toMatrix) :
    IsUnit (above parent) := by
  cases parent with
  | none => exact isUnit_one
  | some q =>
    obtain ⟨hrest, hpose⟩ := h q rfl
    exact hpose.mul (Matrix.isUnit_nonsing_inv_iff.mpr hrest)

lemma inherit_eq (bias : K) (frame : Int) (basis : Bone K → Mat4 K)
    {placed : List (Bone K × Mat4 K)} {bone : Bone K}
    (hrest : ∀ parent ∈ parentIn placed bone, IsUnit parent.rest.toMatrix) :
    inherit bias frame basis placed bone =
      .ok
        (ofMatrix (above (parentIn placed bone) * bone.rest.toMatrix * (basis bone).toMatrix)) := by
  unfold inherit
  cases hparent : bone.parent.bind (placed[·]?) with
  | none =>
    have hnone : parentIn placed bone = none := by rw [parentIn, hparent, Option.map_none]
    rw [hnone, above, one_mul, ← Mat.toMatrix_mul, Mat.ofMatrix_toMatrix]
  | some q =>
    obtain ⟨parent, pose⟩ := q
    have hsome : parentIn placed bone = some ⟨parent.rest, pose⟩ := by
      rw [parentIn, hparent, Option.map_some]
    have hinverse := invert_eq (hrest _ hsome) bias ⟨parent.name, frame⟩
    simp only [hinverse, hsome]
    refine congrArg Except.ok (Mat.toMatrix_injective ?_)
    simp only [above, Mat.toMatrix_mul, Mat.toMatrix_ofMatrix]

lemma channel_eq {q : Placed K} (h : IsUnit q.rest.toMatrix) (bias : K) (site : Site) :
    q.channel bias site = .ok (ofMatrix (above (some q))) := by
  simp only [Placed.channel, invert_eq h]
  refine congrArg Except.ok (Mat.toMatrix_injective ?_)
  simp only [above, Mat.toMatrix_mul, Mat.toMatrix_ofMatrix]

lemma localPose_eq {bone : Placed K} {parent : Option (Placed K)}
    (hrest : IsUnit bone.rest.toMatrix)
    (hparent : ∀ q ∈ parent, IsUnit q.rest.toMatrix ∧ IsUnit q.pose.toMatrix) (bias : K)
    (site : Site) :
    localPose bone parent bias site =
      .ok (ofMatrix (bone.rest.toMatrix⁻¹ * (above parent)⁻¹ * bone.pose.toMatrix)) := by
  have hcancel : bone.rest.toMatrix⁻¹ * bone.rest.toMatrix = 1 :=
    Matrix.nonsing_inv_mul _ ((Matrix.isUnit_iff_isUnit_det _).mp hrest)
  have habove := isUnit_above hparent
  unfold localPose
  simp only [invert_eq hrest]
  cases parent with
  | none =>
    refine congrArg Except.ok (Mat.toMatrix_injective ?_)
    simp only [above, Mat.toMatrix_mul, Mat.toMatrix_ofMatrix, inv_one, mul_one, Matrix.mul_assoc,
      hcancel]
  | some q =>
    have hback : invert (ofMatrix (above (some q))) bias site =
        .ok (ofMatrix (above (some q))⁻¹) := by
      rw [← Mat.toMatrix_ofMatrix (above (some q))] at habove
      rw [invert_eq habove, Mat.toMatrix_ofMatrix]
    simp only [channel_eq (hparent q rfl).1, hback, bind, Except.bind]
    refine congrArg Except.ok (Mat.toMatrix_injective ?_)
    simp only [Mat.toMatrix_mul, Mat.toMatrix_ofMatrix, Matrix.mul_assoc, hcancel, mul_one]

section Placing

variable {bias : K} {frame : Int} {basis : Bone K → Mat4 K}

/-- Every bone has the pose that follows from the bones before it. -/
def Follows (bias : K) (frame : Int) (basis : Bone K → Mat4 K)
    (placed rest : List (Bone K × Mat4 K)) : Prop :=
  ∀ before bone pose after, rest = before ++ (bone, pose) :: after →
    inherit bias frame basis (placed ++ before) bone = .ok pose

lemma follows_cons {placed rest : List (Bone K × Mat4 K)} {bone : Bone K} {pose : Mat4 K} :
    Follows bias frame basis placed ((bone, pose) :: rest) ↔
      inherit bias frame basis placed bone = .ok pose ∧
        Follows bias frame basis (placed ++ [(bone, pose)]) rest := by
  constructor
  · intro h
    refine ⟨by simpa using h [] bone pose rest rfl, fun before b g after hrest => ?_⟩
    simpa using h ((bone, pose) :: before) b g after (by rw [hrest, List.cons_append])
  · rintro ⟨hfirst, hrest⟩ before b g after hsplit
    rcases List.cons_eq_append_iff.mp hsplit with ⟨rfl, heq⟩ | ⟨before, rfl, heq⟩
    · obtain ⟨heq, -⟩ := List.cons.inj heq
      obtain ⟨rfl, rfl⟩ := Prod.mk.inj heq
      simpa using hfirst
    · simpa using hrest before b g after heq

lemma placeFrom_cons {placed : List (Bone K × Mat4 K)} {bone : Bone K} {pose : Mat4 K}
    (h : inherit bias frame basis placed bone = .ok pose) (rest : List (Bone K)) :
    placeFrom bias frame basis (fun _ => none) placed (bone :: rest) =
      placeFrom bias frame basis (fun _ => none) (placed ++ [(bone, pose)]) rest := by
  simp only [placeFrom, h]
  rfl

/-- Bones are placed at poses that follow from each other. -/
lemma placeFrom_eq {placed rest : List (Bone K × Mat4 K)}
    (h : Follows bias frame basis placed rest) :
    placeFrom bias frame basis (fun _ => none) placed (rest.map Prod.fst) =
      .ok ((placed ++ rest).map Prod.snd) := by
  induction rest generalizing placed with
  | nil => simp [placeFrom]
  | cons head rest ih =>
    obtain ⟨bone, pose⟩ := head
    obtain ⟨hpose, hrest⟩ := follows_cons.mp h
    rw [List.map_cons, placeFrom_cons hpose, ih hrest, List.append_assoc, List.singleton_append]

/-- Rest position and pose are invertible. -/
def Regular (q : Bone K × Mat4 K) : Prop :=
  IsUnit q.1.rest.toMatrix ∧ IsUnit q.2.toMatrix

/-- Invertible bases lead to invertible poses. -/
lemma exists_follows (bias : K) (frame : Int) {placed : List (Bone K × Mat4 K)}
    {bones : List (Bone K)} (hplaced : ∀ q ∈ placed, Regular q)
    (hbones : ∀ bone ∈ bones, IsUnit bone.rest.toMatrix ∧ IsUnit (basis bone).toMatrix) :
    ∃ rest, rest.map Prod.fst = bones ∧ Follows bias frame basis placed rest ∧ ∀ q ∈ rest,
    Regular q := by
  induction bones generalizing placed with
  | nil => exact ⟨[], rfl, fun before bone pose after h => by simp at h, by simp⟩
  | cons bone bones ih =>
    obtain ⟨hrest, hbasis⟩ := hbones bone List.mem_cons_self
    have hparent : ∀ q ∈ parentIn placed bone, IsUnit q.rest.toMatrix ∧ IsUnit q.pose.toMatrix := by
      intro q hq
      obtain ⟨x, hx, rfl⟩ := mem_parentIn hq
      exact hplaced x hx
    obtain ⟨pose, hpose, hunit⟩ : ∃ pose, inherit bias frame basis placed bone = .ok pose ∧
        IsUnit pose.toMatrix := by
      refine ⟨_, inherit_eq bias frame basis fun q hq => (hparent q hq).1, ?_⟩
      rw [Mat.toMatrix_ofMatrix]
      exact ((isUnit_above hparent).mul hrest).mul hbasis
    have hplaced' : ∀ q ∈ placed ++ [(bone, pose)], Regular q := by
      intro q hq
      rcases List.mem_append.mp hq with hq | hq
      · exact hplaced q hq
      · rw [List.mem_singleton.mp hq]
        exact ⟨hrest, hunit⟩
    obtain ⟨rest, hmap, hfollows, hregular⟩ :=
      ih hplaced' fun b hb => hbones b (List.mem_cons_of_mem _ hb)
    refine ⟨(bone, pose) :: rest,
      by rw [List.map_cons, hmap], follows_cons.mpr ⟨hpose, hfollows⟩, ?_⟩
    intro q hq
    rcases List.mem_cons.mp hq with rfl | hq
    · exact ⟨hrest, hunit⟩
    · exact hregular q hq

/-- A basis is the local pose of a bone if and only if it places the bone at its pose. -/
lemma localPose_eq_iff {before placed : List (Bone K × Mat4 K)} {bone : Bone K} {pose : Mat4 K}
    (hbefore : parentIn before bone = parentIn placed bone) (hrest : IsUnit bone.rest.toMatrix)
    (hparent : ∀ q ∈ parentIn placed bone, IsUnit q.rest.toMatrix ∧ IsUnit q.pose.toMatrix)
    (bias' : K) (site : Site) :
    localPose ⟨bone.rest, pose⟩ (parentIn placed bone) bias' site = .ok (basis bone) ↔
      inherit bias frame basis before bone = .ok pose := by
  have hunit : IsUnit (above (parentIn placed bone) * bone.rest.toMatrix) :=
    (isUnit_above hparent).mul hrest
  have hdet := (Matrix.isUnit_iff_isUnit_det _).mp hunit
  have hrests : ∀ q ∈ parentIn before bone, IsUnit q.rest.toMatrix := by
    rw [hbefore]
    exact fun q hq => (hparent q hq).1
  rw [localPose_eq hrest hparent, inherit_eq bias frame basis hrests, hbefore, ← Matrix.mul_inv_rev,
    Except.ok.injEq, Except.ok.injEq, Mat.ofMatrix_eq_iff, Mat.ofMatrix_eq_iff]
  generalize above (parentIn placed bone) * bone.rest.toMatrix = U at hdet
  constructor
  · intro h
    rw [← h, ← Matrix.mul_assoc, Matrix.mul_nonsing_inv U hdet, Matrix.one_mul]
  · intro h
    rw [← h, ← Matrix.mul_assoc, Matrix.nonsing_inv_mul U hdet, Matrix.one_mul]

section Assigned

variable {s : Skeleton K} {poses : List (Mat4 K)}

/-- If rest positions and the poses of parents are invertible, both are so for every parent. -/
lemma isUnit_of_mem_parentIn (hrest : ∀ bone ∈ s.bones, IsUnit bone.rest.toMatrix)
    (hparents : ∀ bone ∈ s.bones, ∀ q ∈ parentIn (s.bones.zip poses) bone, IsUnit q.pose.toMatrix)
    {bone : Bone K} (hbone : bone ∈ s.bones) {q : Placed K}
    (hq : q ∈ parentIn (s.bones.zip poses) bone) :
    IsUnit q.rest.toMatrix ∧ IsUnit q.pose.toMatrix := by
  have hpose := hparents bone hbone q hq
  obtain ⟨x, hx, rfl⟩ := mem_parentIn hq
  exact ⟨hrest x.1 (List.of_mem_zip hx).1, hpose⟩

/-- Bases are local poses if and only if poses follow from each other by them. -/
theorem reconstructs_iff_follows (hlength : poses.length = s.bones.length)
    (hrest : ∀ bone ∈ s.bones, IsUnit bone.rest.toMatrix)
    (hparents : ∀ bone ∈ s.bones, ∀ q ∈ parentIn (s.bones.zip poses) bone, IsUnit q.pose.toMatrix)
    (bias' : K) :
    Reconstructs s bias' poses basis ↔ Follows bias frame basis [] (s.bones.zip poses) := by
  have hsound : Skeleton.flaw? ((s.bones.zip poses).map Prod.fst) = none := by
    rw [List.map_fst_zip hlength.ge]
    exact s.sound
  have hone : ∀ before bone pose after, s.bones.zip poses = before ++ (bone, pose) :: after →
      ∀ site,
      (localPose ⟨bone.rest, pose⟩ (parentIn (s.bones.zip poses) bone) bias' site =
        .ok (basis bone) ↔ inherit bias frame basis before bone = .ok pose) := by
    intro before bone pose after hsplit site
    have hpair : (bone, pose) ∈ s.bones.zip poses := by simp [hsplit]
    have hmem : bone ∈ s.bones := (List.of_mem_zip hpair).1
    exact localPose_eq_iff (parentIn_before hsound hsplit) (hrest bone hmem)
      (fun q hq => isUnit_of_mem_parentIn hrest hparents hmem hq) bias' site
  constructor
  · intro h before bone pose after hsplit
    have hmem : (bone, pose) ∈ s.bones.zip poses := by simp [hsplit]
    exact (hone before bone pose after hsplit ⟨bone.name, frame⟩).mp (h _ hmem _)
  · rintro h ⟨bone, pose⟩ hq site
    obtain ⟨before, after, hsplit⟩ := List.append_of_mem hq
    exact (hone before bone pose after hsplit site).mpr (h before bone pose after hsplit)

/-- Bones with invertible rest positions have local poses if their parents have invertible poses. -/
lemma exists_reconstructs (hlength : poses.length = s.bones.length)
    (hrest : ∀ bone ∈ s.bones, IsUnit bone.rest.toMatrix)
    (hparents : ∀ bone ∈ s.bones, ∀ q ∈ parentIn (s.bones.zip poses) bone, IsUnit q.pose.toMatrix)
    (bias : K) : ∃ basis, Reconstructs s bias poses basis := by
  -- a basis is a function of the bone alone, so the pose is looked up by the name
  refine ⟨fun bone => match (s.bones.zip poses).find? (fun x => x.1.name = bone.name) with
    | some q =>
      ofMatrix (q.1.rest.toMatrix⁻¹ * (above (parentIn (s.bones.zip poses) q.1))⁻¹ * q.2.toMatrix)
    | none => .identity, fun q hq site => ?_⟩
  have hmem : q.1 ∈ s.bones := (List.of_mem_zip hq).1
  simp only [s.find?_name_eq hlength hq]
  exact localPose_eq (hrest q.1 hmem)
    (fun r hr => isUnit_of_mem_parentIn hrest hparents hmem hr) bias site

lemma place_eq_of_follows (hlength : poses.length = s.bones.length)
    (h : Follows bias frame basis [] (s.bones.zip poses)) :
    place bias frame basis (fun _ => none) s = .ok poses := by
  have hplace := placeFrom_eq h
  rwa [List.map_fst_zip hlength.ge, List.nil_append, List.map_snd_zip hlength.le] at hplace

end Assigned

end Placing

/-- Playing back local poses loses nothing. Whatever poses the bones of a skeleton have, their local
poses place the bones there again without constraints; and the bones that any bases lead to have
these bases as local poses. Rest positions, poses of parents and bases are to be invertible. -/
theorem place_localPose (s : Skeleton K) (hrest : ∀ bone ∈ s.bones, bone.rest.Invertible)
    (bias bias' : K) (frame : Int) :
    (∀ poses : List (Mat4 K), poses.length = s.bones.length →
      (∀ bone ∈ s.bones, ∀ p pose, bone.parent = some p → poses[p]? = some pose → pose.Invertible) →
      (∃ basis, Reconstructs s bias poses basis) ∧
        ∀ basis, Reconstructs s bias poses basis →
          place bias' frame basis (fun _ => none) s = .ok poses) ∧
    ∀ basis : Bone K → Mat4 K, (∀ bone ∈ s.bones, (basis bone).Invertible) →
      ∃ poses, place bias' frame basis (fun _ => none) s = .ok poses ∧
        poses.length = s.bones.length ∧ Reconstructs s bias poses basis := by
  have hunits : ∀ bone ∈ s.bones, IsUnit bone.rest.toMatrix :=
    fun bone hbone => (Mat.invertible_iff_isUnit _).mp (hrest bone hbone)
  constructor
  · intro poses hlength hinvertible
    have hparents : ∀ bone ∈ s.bones, ∀ q ∈ parentIn (s.bones.zip poses) bone,
        IsUnit q.pose.toMatrix := by
      intro bone hbone q hq
      obtain ⟨x, hx, rfl⟩ := Option.map_eq_some_iff.mp hq
      obtain ⟨p, hp, hx⟩ := Option.bind_eq_some_iff.mp hx
      have hpose : poses[p]? = some x.2 := (List.getElem?_zip_eq_some.mp hx).2
      exact (Mat.invertible_iff_isUnit _).mp (hinvertible bone hbone p x.2 hp hpose)
    refine ⟨exists_reconstructs hlength hunits hparents bias, fun basis hbasis => ?_⟩
    exact place_eq_of_follows hlength
      ((reconstructs_iff_follows hlength hunits hparents bias).mp hbasis)
  · intro basis hbasis
    have hboth : ∀ bone ∈ s.bones, IsUnit bone.rest.toMatrix ∧ IsUnit (basis bone).toMatrix :=
      fun bone hbone => ⟨hunits bone hbone, (Mat.invertible_iff_isUnit _).mp (hbasis bone hbone)⟩
    have hnone : ∀ q ∈ ([] : List (Bone K × Mat4 K)), Regular q := by simp
    obtain ⟨placed, hbones, hfollows, hregular⟩ := exists_follows bias' frame hnone hboth
    have hzip : s.bones.zip (placed.map Prod.snd) = placed := (List.zip_of_prod hbones rfl).symm
    have hlength : (placed.map Prod.snd).length = s.bones.length := by
      rw [← hbones, List.length_map, List.length_map]
    have hparents : ∀ bone ∈ s.bones, ∀ q ∈ parentIn (s.bones.zip (placed.map Prod.snd)) bone,
        IsUnit q.pose.toMatrix := by
      intro bone _ q hq
      rw [hzip] at hq
      obtain ⟨x, hx, rfl⟩ := mem_parentIn hq
      exact (hregular x hx).2
    rw [← hzip] at hfollows
    refine ⟨placed.map Prod.snd, place_eq_of_follows hlength hfollows, hlength, ?_⟩
    exact (reconstructs_iff_follows hlength hunits hparents bias).mpr hfollows

/-- A quarter turn with a shift. -/
def turn : Mat4 Rat := ⟨#v[#v[0, 1, 0, 0], #v[-1, 0, 0, 0], #v[0, 0, 1, 0], #v[2, 0, 0, 1]]⟩

/-- A stretch with a shift, which does not commute with the turn. -/
def stretch : Mat4 Rat := ⟨#v[#v[3, 0, 0, 0], #v[0, 1, 0, 0], #v[0, 0, 1, 0], #v[0, 5, 0, 1]]⟩

lemma turn_invertible : turn.Invertible :=
  ⟨⟨#v[#v[0, -1, 0, 0], #v[1, 0, 0, 0], #v[0, 0, 1, 0], #v[0, 2, 0, 1]]⟩, by decide +kernel⟩

lemma stretch_invertible : stretch.Invertible :=
  ⟨⟨#v[#v[1 / 3, 0, 0, 0], #v[0, 1, 0, 0], #v[0, 0, 1, 0], #v[0, -5, 0, 1]]⟩, by decide +kernel⟩

/-- Two bones, the second one at the end of the first. -/
def arm : Skeleton Rat :=
  ⟨[⟨"upper", turn, none, true⟩, ⟨"lower", stretch, some 0, true⟩], by decide +kernel⟩

/-- A pose that flattens the lower bone to nothing is played back too, since no bone hangs from
it. -/
theorem arm_place_localPose :
    (∃ basis, Reconstructs arm 0 [stretch, .ofFn fun _ _ => 0] basis ∧
      place 0 7 basis (fun _ => none) arm = .ok [stretch, .ofFn fun _ _ => 0]) ∧
    ∃ poses, place 0 7 (fun _ => turn) (fun _ => none) arm = .ok poses ∧
      Reconstructs arm 0 poses fun _ => turn := by
  have hrest : ∀ bone ∈ arm.bones, bone.rest.Invertible := by
    simp only [arm, List.mem_cons, List.not_mem_nil, or_false, forall_eq_or_imp, forall_eq]
    exact ⟨turn_invertible, stretch_invertible⟩
  have hparents : ∀ bone ∈ arm.bones, ∀ p pose, bone.parent = some p →
      [stretch, .ofFn fun _ _ => 0][p]? = some pose → pose.Invertible := by
    simp only [arm, List.mem_cons, List.not_mem_nil, or_false, forall_eq_or_imp, forall_eq]
    refine ⟨fun p pose hp => by simp at hp, fun p pose hp hpose => ?_⟩
    obtain rfl : 0 = p := by simpa using hp
    obtain rfl : stretch = pose := by simpa using hpose
    exact stretch_invertible
  obtain ⟨hback, hforth⟩ := place_localPose arm hrest 0 0 7
  constructor
  · obtain ⟨⟨basis, hbasis⟩, hplace⟩ := hback _ rfl hparents
    exact ⟨basis, hbasis, hplace basis hbasis⟩
  · obtain ⟨poses, hplace, -, hposes⟩ := hforth (fun _ => turn) fun _ _ => turn_invertible
    exact ⟨poses, hplace, hposes⟩

end Pose

end SceneExport
