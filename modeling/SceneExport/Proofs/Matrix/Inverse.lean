import Mathlib
import SceneExport.Matrix.Inverse

/-!
# Matrices over exact numbers

Over the numbers of a field, products, determinants and inverses of matrices are those of linear
algebra. Every matrix that has an inverse gets it, without a bias.
-/
namespace SceneExport

/-- Numbers without rounding: the arithmetic is that of a field, comparison is equality, and all
numbers are finite. -/
class ExactScalar (K : Type) extends Scalar K, Field K where
  ofInt_eq (n : Int) : ofInt n = (n : K)
  beq_iff (a b : K) : (a == b) = true ↔ a = b
  isFinite_eq (a : K) : isFinite a = true

instance exactScalarRat : ExactScalar Rat where
  __ := (inferInstance : Field Rat)
  __ := (inferInstance : Scalar Rat)
  ofInt_eq _ := rfl
  beq_iff a b := by simp
  isFinite_eq _ := rfl

namespace Mat

section Stored

variable {K : Type} {n : Nat}

/-- The matrix as linear algebra has it. -/
def toMatrix (m : Mat n K) : Matrix (Fin n) (Fin n) K :=
  Matrix.of m.entry

/-- The stored form of a matrix. -/
def ofMatrix (A : Matrix (Fin n) (Fin n) K) : Mat n K :=
  ofFn fun row column => A row column

@[simp] theorem toMatrix_ofMatrix (A : Matrix (Fin n) (Fin n) K) : (ofMatrix A).toMatrix = A := by
  ext row column
  simp [toMatrix, ofMatrix]

@[simp] theorem ofMatrix_toMatrix (m : Mat n K) : ofMatrix m.toMatrix = m := by
  obtain ⟨columns⟩ := m
  simp only [ofMatrix, toMatrix, ofFn, Mat.mk.injEq]
  ext column hcolumn row hrow
  simp [entry]

lemma toMatrix_injective : Function.Injective (toMatrix : Mat n K → _) :=
  Function.LeftInverse.injective ofMatrix_toMatrix

lemma ofMatrix_eq_iff {A : Matrix (Fin n) (Fin n) K} {m : Mat n K} :
    ofMatrix A = m ↔ A = m.toMatrix := by
  constructor
  · rintro rfl
    rw [toMatrix_ofMatrix]
  · rintro rfl
    rw [ofMatrix_toMatrix]

end Stored

variable {K : Type} [ExactScalar K] {n : Nat}

lemma ofNat_zero_eq : @OfNat.ofNat K 0 (instOfNatScalar 0) = 0 :=
  (ExactScalar.ofInt_eq 0).trans Int.cast_zero

lemma ofNat_one_eq : @OfNat.ofNat K 1 (instOfNatScalar 1) = 1 :=
  (ExactScalar.ofInt_eq 1).trans Int.cast_one

lemma sum_eq (f : Fin n → K) : Mat.sum f = ∑ k, f k := by
  unfold Mat.sum
  rw [ofNat_zero_eq]
  induction n with
  | zero => simp
  | succ n ih => rw [Fin.foldl_succ_last, ih, Fin.sum_univ_castSucc]

@[simp] theorem toMatrix_mul (a b : Mat n K) : (a * b).toMatrix = a.toMatrix * b.toMatrix := by
  ext row column
  change (ofFn fun row column => Mat.sum fun k => a.entry row k * b.entry k column).entry
    row column = _
  rw [entry_ofFn, sum_eq, Matrix.mul_apply]
  rfl

@[simp] theorem toMatrix_identity : (identity : Mat n K).toMatrix = 1 := by
  ext row column
  simp only [toMatrix, identity, Matrix.of_apply, entry_ofFn, Matrix.one_apply]
  rw [ofNat_zero_eq, ofNat_one_eq]

lemma skip_eq_succAbove (i : Fin 4) (k : Fin 3) : skip i k = i.succAbove k := by
  unfold skip Fin.succAbove
  rfl

lemma minor_eq_det (m : Mat4 K) (row column : Fin 4) :
    m.minor row column = (m.toMatrix.submatrix row.succAbove column.succAbove).det := by
  rw [Matrix.det_fin_three]
  simp only [minor, skip_eq_succAbove, Matrix.submatrix_apply, toMatrix, Matrix.of_apply]
  ring

lemma cofactor_eq (m : Mat4 K) (row column : Fin 4) :
    m.cofactor row column = (-1) ^ (row.val + column.val) * m.minor row column := by
  unfold cofactor
  split
  · next h => rw [Even.neg_one_pow (Nat.even_iff.mpr h), one_mul]
  · next h => rw [Odd.neg_one_pow (Nat.odd_iff.mpr (by omega)), neg_one_mul]

lemma cofactor_eq_adjugate (m : Mat4 K) (row column : Fin 4) :
    m.cofactor column row = m.toMatrix.adjugate row column := by
  rw [cofactor_eq, minor_eq_det, Matrix.adjugate_fin_succ_eq_det_submatrix]

theorem det_eq (m : Mat4 K) : m.det = m.toMatrix.det := by
  rw [Matrix.det_eq_sum_mul_adjugate_col _ 0, Fin.sum_univ_four]
  simp only [det, cofactor_eq_adjugate]
  rfl

/-- Some matrix undoes this one from both sides. -/
def Invertible (m : Mat n K) : Prop :=
  ∃ inverse, m * inverse = identity ∧ inverse * m = identity

theorem invertible_iff_isUnit (m : Mat n K) : m.Invertible ↔ IsUnit m.toMatrix := by
  rw [isUnit_iff_exists]
  constructor
  · rintro ⟨inverse, hright, hleft⟩
    refine ⟨inverse.toMatrix, ?_, ?_⟩
    · rw [← toMatrix_mul, hright, toMatrix_identity]
    · rw [← toMatrix_mul, hleft, toMatrix_identity]
  · rintro ⟨A, hright, hleft⟩
    refine ⟨ofMatrix A, toMatrix_injective ?_, toMatrix_injective ?_⟩
    · rw [toMatrix_mul, toMatrix_ofMatrix, hright, toMatrix_identity]
    · rw [toMatrix_mul, toMatrix_ofMatrix, hleft, toMatrix_identity]

/-- The adjugate over the determinant is the inverse. -/
theorem inverse?_eq {m : Mat4 K} (h : IsUnit m.toMatrix) :
    m.inverse? = some (ofMatrix m.toMatrix⁻¹) := by
  have hdet : m.toMatrix.det ≠ 0 := (Matrix.isUnit_iff_isUnit_det _).mp h |>.ne_zero
  have hzero : ¬ (m.det == 0) = true := by
    rw [ExactScalar.beq_iff, det_eq]
    exact hdet
  simp only [inverse?, ofNat_zero_eq, if_neg hzero, Option.some.injEq]
  apply toMatrix_injective
  ext row column
  rw [toMatrix_ofMatrix, Matrix.inv_def, Matrix.smul_apply, Ring.inverse_eq_inv', smul_eq_mul]
  simp only [toMatrix, Matrix.of_apply, entry_ofFn, cofactor_eq_adjugate, det_eq, ofNat_one_eq]
  rw [one_div, mul_comm]

lemma isFinite_eq_true (m : Mat n K) : m.isFinite = true := by
  simp only [isFinite, List.all_eq_true]
  exact fun x _ => ExactScalar.isFinite_eq x

/-- The bias is never needed. -/
theorem safeInverse?_eq {m : Mat4 K} (h : IsUnit m.toMatrix) (bias : K) :
    m.safeInverse? bias = some (ofMatrix m.toMatrix⁻¹) := by
  rw [safeInverse?, inverse?_eq h, Option.filter_some, isFinite_eq_true, if_pos rfl, Option.some_or]

end Mat

end SceneExport
