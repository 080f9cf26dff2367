import Mathlib
import SceneExport.Proofs.Basics
import SceneExport.Proofs.Keyframes.Reading
import SceneExport.Proofs.Rounding.Nearest

/-!
# The order of recorded frames

Keys are told apart by the frames they were given, and frames are rounded when they are recorded. So
a curve whose frames increase keeps all its keys, and the recorded frames never decrease, but keys
between the same two frames may be recorded at one frame. They are apart as long as neighbours have
different nearest whole numbers, up to the numbers that single width has no room for.
-/
namespace SceneExport.Keyframes

open Rounding

section Frames

variable {seen : List Float} {previous : Option Interpolation} {keys : List (Key Float)}

/-- Keys at different frames are all first. -/
lemma firstsAfter_eq_self (hseen : ∀ k ∈ keys, ¬ seen.any (· == k.frame) = true)
    (hkeys : keys.Pairwise fun k k' => (k.frame == k'.frame) = false) :
    firstsAfter seen keys = keys := by
  induction keys generalizing seen with
  | nil => rfl
  | cons k rest ih =>
    rw [List.pairwise_cons] at hkeys
    rw [firstsAfter_cons, if_neg (hseen k List.mem_cons_self), ih _ hkeys.2]
    intro k' hk'
    rw [List.any_cons, hkeys.1 k' hk', Bool.false_or]
    exact hseen k' (List.mem_cons_of_mem k hk')

lemma frames_transcript :
    (transcript previous keys).map (·.frame) = keys.map fun k => narrow (whole k.frame) := by
  induction keys generalizing previous with
  | nil => rfl
  | cons k rest ih =>
    rw [transcript_cons, List.map_cons, List.map_cons, ih]
    rfl

/-- Recorded frames that do not decrease are apart if neighbours are. -/
lemma recorded_lt_iff (hfinite : ∀ k ∈ keys, pattern k.frame < 0x7ff0000000000000)
    (hle : keys.Pairwise fun k k' => narrow (whole k.frame) ≤ narrow (whole k'.frame)) :
    (keys.Pairwise fun k k' => narrow (whole k.frame) < narrow (whole k'.frame)) ↔
      keys.IsChain fun k k' => ¬ narrow (whole k.frame) == narrow (whole k'.frame) := by
  have hbound {k : Key Float} (hk : k ∈ keys) : pattern32 (narrow (whole k.frame)) ≤ 0x7f800000 :=
    pattern32_recorded_le (hfinite k hk).le
  have hlt {k k' : Key Float} (hk : k ∈ keys) (hk' : k' ∈ keys) :=
    lt_iff_rank32 (hbound hk) (hbound hk')
  have hbeq {k k' : Key Float} (hk : k ∈ keys) (hk' : k' ∈ keys) :=
    beq_iff_rank32 (hbound hk) (hbound hk')
  have hrank : keys.Pairwise fun k k' => rank32 (narrow (whole k.frame)) ≤
      rank32 (narrow (whole k'.frame)) :=
    hle.imp_of_mem fun hk hk' => (le_iff_rank32 (hbound hk) (hbound hk')).mp
  rw [List.Pairwise.iff_of_mem hlt, pairwise_lt_iff_isChain_ne hrank]
  exact List.IsChain.iff_of_mem_imp fun k k' hk hk' => (not_congr (hbeq hk hk')).symm

end Frames

/-- A curve whose frames increase has a record of each key, and the recorded frames do not decrease.
They increase if and only if neighbours are rounded to different frames. Up to two to the 24 these
are the nearest whole numbers. -/
theorem frames_ordered (c : Curve Float) (hfinite : ∀ k ∈ c.keys, k.frame.isFinite = true)
    (hordered : c.keys.Pairwise (·.frame < ·.frame)) :
    ∃ rs, decode? none (encode c).numbers = some rs ∧ rs.length = c.keys.length ∧
      (rs.map (·.frame)).Pairwise (· ≤ ·) ∧
      ((rs.map (·.frame)).Pairwise (· < ·) ↔
        c.keys.IsChain fun k k' => ¬ narrow (whole k.frame) == narrow (whole k'.frame)) ∧
      ((∀ k ∈ c.keys, |value k.frame| ≤ 2 ^ 24) →
        ((rs.map (·.frame)).Pairwise (· < ·) ↔
          c.keys.IsChain fun k k' => nearest (value k.frame) ≠ nearest (value k'.frame))) := by
  have htop (k : Key Float) (hk : k ∈ c.keys) := pattern_lt_top (hfinite k hk)
  have hfirsts : firstsAfter [] c.keys = c.keys :=
    firstsAfter_eq_self (by simp) (hordered.imp beq_eq_false_of_lt)
  have hle : c.keys.Pairwise fun k k' => narrow (whole k.frame) ≤ narrow (whole k'.frame) :=
    hordered.imp_of_mem fun hk hk' => narrow_whole_le (htop _ hk).le (htop _ hk').le
  have hlt := recorded_lt_iff htop hle
  refine ⟨transcript none c.keys, ?_, length_transcript _ _, ?_⟩
  · rw [encode, decode?_encodeFrom, hfirsts]
  rw [frames_transcript, List.pairwise_map, List.pairwise_map]
  refine ⟨hle, hlt, fun hvalue => hlt.trans ?_⟩
  exact List.IsChain.iff_of_mem_imp fun k k' hk hk' =>
    not_congr (narrow_whole_beq_iff (htop k hk) (htop k' hk') (hvalue k hk) (hvalue k' hk'))

/-- Frames between one and two, and frames that are far enough apart. -/
theorem frames_ordered_rounded :
    let c : Curve Float := ⟨.location, 0, [.plain 1 0, .plain 1.25 0, .plain 1.75 0]⟩
    let d : Curve Float := ⟨.location, 0, [.plain 0.5 0, .plain 1.5 0, .plain 2.5 0]⟩
    (∃ rs, decode? none (encode c).numbers = some rs ∧ rs.length = 3 ∧
      ¬ (rs.map (·.frame)).Pairwise (· < ·)) ∧
      ∃ rs, decode? none (encode d).numbers = some rs ∧ rs.length = 3 ∧
      (rs.map (·.frame)).Pairwise (· < ·) := by
  intro c d
  obtain ⟨rs, hread, hlen, -, hlt, -⟩ := frames_ordered c (by decide +kernel) (by decide +kernel)
  obtain ⟨rs', hread', hlen', -, -, hnearest⟩ :=
    frames_ordered d (by decide +kernel) (by decide +kernel)
  exact ⟨⟨rs, hread, hlen, mt hlt.mp (by decide +kernel)⟩,
    rs', hread', hlen', (hnearest (by decide +kernel)).mpr (by decide +kernel)⟩

end SceneExport.Keyframes
