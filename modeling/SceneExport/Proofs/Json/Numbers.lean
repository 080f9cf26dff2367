import Mathlib
import SceneExport.Json.Reader
import SceneExport.Proofs.Decimal.Digits

/-!
# Numbers are written as literals

The text of every number is a literal of the kind that the reader takes in, or `null` for those that
are not finite. A literal ends before the first character that cannot go on with it, so what it is
read as does not depend on what follows.
-/
namespace SceneExport

namespace Decimal

open Float.Model.UnpackedFloat (unpack unpackExponent)

/-- The fields of a number that is neither infinite nor undefined give a magnitude. -/
lemma ofFields_magnitude {width top bias field fraction : Nat} (negative : Bool)
    (hfield : field < top) (hfraction : fraction < 2 ^ width) (hwidth : width ≤ 52)
    (hbias : bias ≤ 1075) (htop : top ≤ bias + 972) :
    (Parts.ofFields width top bias negative field fraction).magnitude = .zero ∨
      ∃ b, (Parts.ofFields width top bias negative field fraction).magnitude = .positive b ∧
      b.Sized := by
  have hpow : 2 ^ width ≤ 2 ^ 52 := Nat.pow_le_pow_right (by decide) hwidth
  have hpos : 0 < 2 ^ width := Nat.pow_pos (by decide)
  unfold Parts.ofFields
  dsimp only
  rw [if_neg (Nat.ne_of_lt hfield)]
  split_ifs with hzero hfraction'
  · exact .inl rfl
  · exact .inr ⟨_, rfl, by dsimp only; omega, by dsimp only; omega, by dsimp only; omega,
      by dsimp only; omega⟩
  · refine .inr ⟨_, rfl, ?_, ?_, by dsimp only; omega, by dsimp only; omega⟩
    · exact Nat.add_pos_right _ hpos
    · change fraction + 2 ^ width < 2 ^ 53
      omega

/-- The exponent field of a finite number is not the topmost one. -/
lemma field_lt {spec : Float.Model.Format} (b : BitVec spec.numBits)
    (h : (unpack spec b).isFinite = true) :
    b.toNat / 2 ^ spec.mantissaBitsWithoutImplicit % 2 ^ spec.exponentBits <
      2 ^ spec.exponentBits - 1 := by
  have hne : unpackExponent b ≠ -1#_ := by
    intro htop
    unfold unpack at h
    dsimp only at h
    rw [if_pos htop] at h
    split_ifs at h <;> cases h
  have hfield : (unpackExponent b).toNat =
      b.toNat / 2 ^ spec.mantissaBitsWithoutImplicit % 2 ^ spec.exponentBits := by
    have hwidth : spec.mantissaBitsWithoutImplicit + spec.exponentBits - 1 -
        spec.mantissaBitsWithoutImplicit + 1 = spec.exponentBits := by
      have := spec.he
      omega
    rw [unpackExponent, BitVec.toNat_cast, BitVec.extractLsb_toNat,
      Nat.shiftRight_eq_div_pow, hwidth]
  have htop : (-BitVec.ofNat spec.exponentBits 1).toNat = 2 ^ spec.exponentBits - 1 := by
    rw [BitVec.neg_one_eq_allOnes, BitVec.toNat_allOnes]
  have hlt := (unpackExponent b).isLt
  rw [← hfield]
  have hne' : (unpackExponent b).toNat ≠ 2 ^ spec.exponentBits - 1 :=
    fun heq => hne (BitVec.eq_of_toNat_eq (by rw [heq, htop]))
  omega

lemma ofFloat_magnitude {x : Float} (h : x.isFinite = true) : (Parts.ofFloat x).magnitude = .zero ∨
    ∃ b, (Parts.ofFloat x).magnitude = .positive b ∧ b.Sized :=
  ofFields_magnitude _ (field_lt _ h) (Nat.mod_lt _ (by decide)) (by decide) (by decide) (by decide)

lemma ofFloat32_magnitude {x : Float32} (h : x.isFinite = true) :
    (Parts.ofFloat32 x).magnitude = .zero ∨
    ∃ b, (Parts.ofFloat32 x).magnitude = .positive b ∧ b.Sized :=
  ofFields_magnitude _ (field_lt _ h) (Nat.mod_lt _ (by decide)) (by decide) (by decide) (by decide)

end Decimal

namespace Json

/-- One digit or more. -/
def Digits (cs : List Char) : Prop :=
  cs ≠ [] ∧ ∀ c ∈ cs, Text.isDigit c = true

/-- No literal goes on with this text. -/
def Ends (rest : List Char) : Prop :=
  ∀ c ∈ rest.head?, Text.isDigit c = false ∧ c ≠ '.' ∧ c ≠ 'e' ∧ c ≠ 'E'

/-- The parts of a number literal. -/
structure Literal where
  negative : Bool
  whole : List Char
  fraction : Option (List Char)
  /-- Whether the exponent is negative, and its digits. -/
  exponent : Option (Bool × List Char)
  whole_digits : Digits whole
  /-- Only zero itself starts with a zero. -/
  whole_zero : ∀ c cs, whole ≠ '0' :: c :: cs
  fraction_digits : ∀ digits, fraction = some digits → Digits digits
  exponent_digits : ∀ part, exponent = some part → Digits part.2

namespace Literal

def fractionChars (l : Literal) : List Char :=
  l.fraction.elim [] fun digits => '.' :: digits

def exponentChars (l : Literal) : List Char :=
  l.exponent.elim [] fun part => 'e' :: (if part.1 then '-' else '+') :: part.2

def unsigned (l : Literal) : List Char :=
  l.whole ++ l.fractionChars ++ l.exponentChars

def chars (l : Literal) : List Char :=
  if l.negative then '-' :: l.unsigned else l.unsigned

/-- The literal has neither a fraction nor an exponent. -/
def isWhole (l : Literal) : Bool :=
  l.fraction.isNone && l.exponent.isNone

/-- The number that a literal is read as. -/
def value (l : Literal) : Option Number :=
  if l.isWhole then wholeNumber? l.negative l.whole
  else (Decimal.float? l.negative l.whole (l.fraction.getD []) l.exponent).map .double

end Literal

variable {rest : List Char}

lemma span_digits {digits : List Char} (hdigits : ∀ c ∈ digits, Text.isDigit c = true)
    (hrest : ∀ c ∈ rest.head?, Text.isDigit c = false) :
    (digits ++ rest).takeWhile Text.isDigit = digits ∧
    (digits ++ rest).dropWhile Text.isDigit = rest := by
  have hstop : rest.takeWhile Text.isDigit = [] ∧ rest.dropWhile Text.isDigit = rest := by
    cases rest with
    | nil => exact ⟨rfl, rfl⟩
    | cons c rest =>
      have hc := hrest c rfl
      simp [hc]
  rw [List.takeWhile_append_of_pos hdigits, List.dropWhile_append_of_pos hdigits, hstop.1, hstop.2]
  exact ⟨List.append_nil _, rfl⟩

namespace Literal

lemma readExponent_chars (l : Literal) (hrest : Ends rest) :
    readExponent (l.exponentChars ++ rest) = .ok (l.exponent, rest) := by
  unfold exponentChars
  cases hexponent : l.exponent with
  | none =>
    cases rest with
    | nil => rfl
    | cons c rest =>
      obtain ⟨-, -, he, hE⟩ := hrest c rfl
      simp [readExponent, he, hE]
  | some part =>
    obtain ⟨down, digits⟩ := part
    obtain ⟨hne, hall⟩ := l.exponent_digits (down, digits) hexponent
    obtain ⟨htake, hdrop⟩ := span_digits hall fun c hc => (hrest c hc).1
    cases down <;> simp [readExponent, htake, hdrop, hne]

lemma ends_exponent (l : Literal) (hrest : Ends rest) :
    ∀ c ∈ (l.exponentChars ++ rest).head?, Text.isDigit c = false ∧ c ≠ '.' := by
  unfold exponentChars
  cases l.exponent with
  | none => exact fun c hc => ⟨(hrest c hc).1, (hrest c hc).2.1⟩
  | some part =>
    intro c hc
    obtain rfl : 'e' = c := Option.some.inj hc
    exact ⟨by decide, by decide⟩

lemma readFraction_chars (l : Literal)
    (hrest : ∀ c ∈ rest.head?, Text.isDigit c = false ∧ c ≠ '.') :
    readFraction (l.fractionChars ++ rest) = .ok (l.fraction, rest) := by
  unfold fractionChars
  cases hfraction : l.fraction with
  | none =>
    cases rest with
    | nil => rfl
    | cons c rest =>
      obtain ⟨-, hpoint⟩ := hrest c rfl
      unfold readFraction
      split
      · next heq => exact absurd (List.cons.inj heq).1 hpoint
      · rfl
  | some digits =>
    obtain ⟨hne, hall⟩ := l.fraction_digits digits hfraction
    obtain ⟨htake, hdrop⟩ := span_digits hall fun c hc => (hrest c hc).1
    simp [readFraction, htake, hdrop, hne]

/-- A literal is read as its value, whatever follows. -/
theorem readNumber_chars (l : Literal) (hrest : Ends rest) :
    readNumber l.negative (l.unsigned ++ rest) = (.number l.value, some rest) := by
  obtain ⟨hne, hall⟩ := l.whole_digits
  have hexponent := l.ends_exponent hrest
  have hfraction : ∀ c ∈ (l.fractionChars ++ (l.exponentChars ++ rest)).head?,
      Text.isDigit c = false := by
    unfold fractionChars
    cases l.fraction with
    | none => exact fun c hc => (hexponent c hc).1
    | some digits =>
      intro c hc
      obtain rfl : '.' = c := Option.some.inj hc
      decide
  obtain ⟨htake, hdrop⟩ := span_digits hall hfraction
  unfold readNumber unsigned
  rw [List.append_assoc, List.append_assoc, htake, hdrop]
  dsimp only
  split
  · next hnil => exact absurd hnil hne
  · next c cs hzero => exact absurd hzero (l.whole_zero c cs)
  · rw [l.readFraction_chars hexponent]
    dsimp only
    rw [l.readExponent_chars hrest]
    unfold value isWhole
    cases l.fraction <;> cases l.exponent <;> rfl

end Literal

lemma ne_of_isDigit {c : Char} (hc : Text.isDigit c = true) (d : Char)
    (hd : Text.isDigit d = false) : c ≠ d := by
  rintro rfl
  rw [hc] at hd
  cases hd

lemma isSpace_of_isDigit {c : Char} (hc : Text.isDigit c = true) : isSpace c = false := by
  have hne := ne_of_isDigit hc
  simp [isSpace, hne ' ' rfl, hne '\n' rfl, hne '\t' rfl, hne '\r' rfl]

/-- A value that is no container. -/
lemma readValue_scalar {c : Char} (cs : List Char) (fuel : Nat) (hspace : isSpace c = false)
    (hlist : c ≠ '[') (hobject : c ≠ '{') : readValue (fuel + 1) (c :: cs) = readScalar c cs := by
  have hskip : skipSpace (c :: cs) = c :: cs := by simp [skipSpace, hspace]
  unfold readValue
  rw [hskip]
  split
  · next heq => cases heq
  · next heq => exact absurd (List.cons.inj heq).1 hlist
  · next heq => exact absurd (List.cons.inj heq).1 hobject
  · next heq =>
    obtain ⟨rfl, rfl⟩ := List.cons.inj heq
    rfl

lemma Literal.readValue_chars (l : Literal) (hrest : Ends rest) (fuel : Nat) :
    readValue (fuel + 1) (l.chars ++ rest) = (.number l.value, some rest) := by
  have hnumber := l.readNumber_chars hrest
  unfold chars
  cases hnegative : l.negative with
  | true =>
    rw [hnegative] at hnumber
    rw [if_pos rfl, List.cons_append, readValue_scalar _ _ (by decide) (by decide) (by decide),
      readScalar, if_neg (by decide), if_pos rfl, hnumber]
  | false =>
    rw [hnegative] at hnumber
    rw [if_neg (by decide)]
    obtain ⟨c, cs, hwhole⟩ := List.exists_cons_of_ne_nil l.whole_digits.1
    have hc : Text.isDigit c = true := l.whole_digits.2 c (hwhole ▸ List.mem_cons_self)
    have hne := ne_of_isDigit hc
    have hspace := isSpace_of_isDigit hc
    have hcons : l.unsigned ++ rest = c :: (cs ++ l.fractionChars ++ l.exponentChars ++ rest) := by
      simp [unsigned, hwhole]
    rw [hcons] at hnumber ⊢
    rw [readValue_scalar _ _ hspace (hne '[' rfl) (hne '{' rfl), readScalar, if_neg (hne '"' rfl),
      if_neg (hne '-' rfl), if_pos hc, hnumber]

end Json

open Json (Digits Literal)

lemma digits_toDigits (n : Nat) : Digits (Nat.toDigits 10 n) := by
  refine ⟨Nat.toDigits_ne_nil, fun c hc => ?_⟩
  have hdigit := Nat.isDigit_of_mem_toDigits (by decide) (by decide) hc
  simpa [Char.isDigit, Text.isDigit, Char.le_def] using hdigit

lemma head?_toDigits {n : Nat} (h : n ≠ 0) : (Nat.toDigits 10 n).head? ≠ some '0' := by
  induction n using Nat.strong_induction_on with
  | _ n ih =>
    rw [Nat.toDigits_eq_if (by decide)]
    split_ifs with hsmall
    · interval_cases n <;> simp_all
    · rw [List.head?_append_of_ne_nil _ Nat.toDigits_ne_nil]
      exact ih (n / 10) (by omega) (by omega)

lemma digits_zeros (n : Int) : ∀ c ∈ Decimal.zeros n, Text.isDigit c = true := by
  intro c hc
  rw [List.eq_of_mem_replicate hc]
  decide

lemma ne_zero_cons {digits : List Char} (hhead : digits.head? ≠ some '0') (c : Char)
    (cs : List Char) : digits ≠ '0' :: c :: cs := by
  rintro rfl
  exact hhead rfl

lemma exists_literal_plainText {digits : List Char} (hdigits : Digits digits)
    (hhead : digits.head? ≠ some '0') (negative : Bool) (e : Int) :
    ∃ l : Literal, l.negative = negative ∧ l.isWhole = false ∧
    l.unsigned = Decimal.plainText true digits e := by
  have hzero : Digits ['0'] := ⟨List.cons_ne_nil _ _, List.forall_mem_singleton.mpr rfl⟩
  unfold Decimal.plainText
  by_cases hsmall : e < 0
  · have hfraction : Digits (Decimal.zeros (-e - 1) ++ digits) :=
      ⟨by simp [hdigits.1], List.forall_mem_append.mpr ⟨digits_zeros _, hdigits.2⟩⟩
    refine ⟨⟨negative, ['0'], some (Decimal.zeros (-e - 1) ++ digits), none, hzero, by simp,
      fun _ h => Option.some.inj h ▸ hfraction, by simp⟩, rfl, rfl, ?_⟩
    simp [Literal.unsigned, Literal.fractionChars, Literal.exponentChars, hsmall]
  · rw [if_neg hsmall]
    dsimp only
    by_cases hshort : digits.length ≤ (e + 1).toNat
    · have hwhole : Digits (digits ++ Decimal.zeros ((e + 1).toNat - digits.length)) :=
        ⟨by simp [hdigits.1], List.forall_mem_append.mpr ⟨hdigits.2, digits_zeros _⟩⟩
      refine ⟨⟨negative, digits ++ Decimal.zeros ((e + 1).toNat - digits.length), some ['0'],
        none, hwhole, ne_zero_cons ?_, fun _ h => Option.some.inj h ▸ hzero, by simp⟩, rfl, rfl, ?_⟩
      · rwa [List.head?_append_of_ne_nil _ hdigits.1]
      · simp [Literal.unsigned, Literal.fractionChars, Literal.exponentChars, hshort]
    · have hwhole : Digits (digits.take (e + 1).toNat) :=
        ⟨by simp [hdigits.1]; omega, fun c hc => hdigits.2 c (List.mem_of_mem_take hc)⟩
      have hfraction : Digits (digits.drop (e + 1).toNat) :=
        ⟨by simpa using hshort, fun c hc => hdigits.2 c (List.mem_of_mem_drop hc)⟩
      refine ⟨⟨negative, digits.take (e + 1).toNat, some (digits.drop (e + 1).toNat), none, hwhole,
        ne_zero_cons ?_, fun _ h => Option.some.inj h ▸ hfraction, by simp⟩, rfl, rfl, ?_⟩
      · rwa [List.head?_take, if_neg (by omega)]
      · simp [Literal.unsigned, Literal.fractionChars, Literal.exponentChars, hshort]

lemma exists_literal_scientificText {digits : List Char} (hdigits : Digits digits) (negative : Bool)
    (e : Int) :
    ∃ l : Literal, l.negative = negative ∧ l.isWhole = false ∧
    l.unsigned = Decimal.scientificText digits e := by
  obtain ⟨c, cs, rfl⟩ := List.exists_cons_of_ne_nil hdigits.1
  have hfirst : Digits [c] :=
    ⟨List.cons_ne_nil _ _, List.forall_mem_singleton.mpr (hdigits.2 c List.mem_cons_self)⟩
  have hexponent : Digits (Nat.toDigits 10 e.natAbs) := digits_toDigits _
  by_cases hcs : cs = []
  · refine ⟨⟨negative, [c], none, some (decide (e < 0), Nat.toDigits 10 e.natAbs), hfirst,
      by simp, by simp, fun _ h => Option.some.inj h ▸ hexponent⟩, rfl, rfl, ?_⟩
    simp [Literal.unsigned, Literal.fractionChars, Literal.exponentChars,
      Decimal.scientificText, hcs]
  · have hfraction : Digits cs := ⟨hcs, fun d hd => hdigits.2 d (List.mem_cons_of_mem c hd)⟩
    refine ⟨⟨negative, [c], some cs, some (decide (e < 0), Nat.toDigits 10 e.natAbs),
      hfirst, by simp,
      fun _ h => Option.some.inj h ▸ hfraction, fun _ h => Option.some.inj h ▸ hexponent⟩,
      rfl, rfl, ?_⟩
    simp [Literal.unsigned, Literal.fractionChars, Literal.exponentChars,
      Decimal.scientificText, hcs]

lemma exists_literal_text {layout : Decimal.Layout} (hpoint : layout.pointZero = true) {d : Decimal}
    (hd : d.coefficient ≠ 0) (negative : Bool) :
    ∃ l : Literal, l.negative = negative ∧ l.isWhole = false ∧
    l.unsigned = Decimal.text layout d := by
  unfold Decimal.text
  dsimp only
  split_ifs
  · rw [hpoint]
    exact exists_literal_plainText (digits_toDigits _) (head?_toDigits hd) negative _
  · exact exists_literal_scientificText (digits_toDigits _) negative _

/-- The text of a finite number that was taken apart is a literal, and not one of a whole number. -/
lemma exists_literal_partsText {layout : Decimal.Layout} (hpoint : layout.pointZero = true)
    {p : Decimal.Parts} (hp : p.magnitude = .zero ∨ ∃ b, p.magnitude = .positive b ∧ b.Sized) :
    ∃ l : Literal, l.isWhole = false ∧ (p.text layout).toList = l.chars := by
  rcases hp with hzero | ⟨b, hpositive, hb⟩
  · have hdigits : Digits ['0'] := ⟨List.cons_ne_nil _ _, List.forall_mem_singleton.mpr rfl⟩
    refine ⟨⟨p.negative, ['0'], some ['0'], none, hdigits,
      by simp, fun _ h => Option.some.inj h ▸ hdigits, by simp⟩, rfl, ?_⟩
    simp [Decimal.Parts.text, hzero, hpoint, Literal.chars, Literal.unsigned, Literal.fractionChars,
      Literal.exponentChars]
  · have hd := @Decimal.shortest_ne_zero layout.tie b hb
    obtain ⟨l, hnegative, hwhole, hunsigned⟩ := exists_literal_text hpoint hd p.negative
    refine ⟨l, hwhole, ?_⟩
    simp [Decimal.Parts.text, hpositive, Literal.chars, hnegative, hunsigned]

/-- The literal of a whole number. -/
def wholeLiteral (n : Int) : Literal where
  negative := decide (n < 0)
  whole := Nat.toDigits 10 n.natAbs
  fraction := none
  exponent := none
  whole_digits := digits_toDigits _
  whole_zero := by
    by_cases h : n.natAbs = 0
    · simp [h]
    · exact ne_zero_cons (head?_toDigits h)
  fraction_digits := by simp
  exponent_digits := by simp

lemma toList_toString_int (n : Int) : (toString n).toList = (wholeLiteral n).chars := by
  have hunsigned : (wholeLiteral n).unsigned = Nat.toDigits 10 n.natAbs := by
    simp [Literal.unsigned, Literal.fractionChars, Literal.exponentChars, wholeLiteral]
  rw [Literal.chars, hunsigned, Int.toString_eq_repr]
  cases n with
  | ofNat n => exact Nat.toList_repr
  | negSucc n => simp [Int.repr, wholeLiteral]

/-- The text of every number is a literal, or `null`. -/
theorem Number.toText_cases (n : Number) :
    n.toText = "null" ∨ ∃ l : Literal, n.toText.toList = l.chars := by
  cases n with
  | whole n => exact .inr ⟨wholeLiteral n, toList_toString_int n⟩
  | double x =>
    rw [toText]
    split_ifs with hfinite
    · exact .inr ((exists_literal_partsText rfl (Decimal.ofFloat_magnitude hfinite)).imp
        fun _ h => h.2)
    · exact .inl rfl
  | single x =>
    rw [toText]
    split_ifs with hfinite
    · exact .inr ((exists_literal_partsText rfl (Decimal.ofFloat32_magnitude hfinite)).imp
        fun _ h => h.2)
    · exact .inl rfl

/-- What the text of a number is read as. -/
def Number.reread (n : Number) : Json.Tree :=
  (Json.readValue 1 n.toText.toList).1

/-- The text of a number is read as a whole, whatever follows. -/
theorem Number.readValue_toText (n : Number) {rest : List Char} (hrest : Json.Ends rest)
    (fuel : Nat) : Json.readValue (fuel + 1) (n.toText.toList ++ rest) = (n.reread, some rest) := by
  have hempty : Json.Ends [] := fun _ hc => nomatch hc
  unfold reread
  rcases n.toText_cases with hnull | ⟨l, hl⟩
  · rw [hnull]
    rfl
  · have halone := l.readValue_chars hempty 0
    rw [List.append_nil] at halone
    rw [hl, halone, l.readValue_chars hrest fuel]

/-- The text of a number starts neither with a blank nor with a bracket. -/
lemma Number.exists_cons_toText (n : Number) :
    ∃ c cs, n.toText.toList = c :: cs ∧ Json.isSpace c = false ∧ c ≠ ']' := by
  rcases n.toText_cases with hnull | ⟨l, hl⟩
  · exact ⟨'n', ['u', 'l', 'l'], by rw [hnull]; rfl, by decide, by decide⟩
  · rw [hl, Literal.chars]
    cases l.negative with
    | true => exact ⟨'-', l.unsigned, rfl, by decide, by decide⟩
    | false =>
      obtain ⟨c, cs, hwhole⟩ := List.exists_cons_of_ne_nil l.whole_digits.1
      have hne := Json.ne_of_isDigit (l.whole_digits.2 c (hwhole ▸ List.mem_cons_self))
      refine ⟨c, cs ++ l.fractionChars ++ l.exponentChars,
        by simp [Literal.unsigned, hwhole], ?_, hne ']' rfl⟩
      exact Json.isSpace_of_isDigit (l.whole_digits.2 c (hwhole ▸ List.mem_cons_self))

lemma Number.skip_reread (n : Number) : n.reread.skip = .ok () := by
  have hempty : Json.Ends [] := fun _ hc => nomatch hc
  unfold reread
  rcases n.toText_cases with hnull | ⟨l, hl⟩
  · rw [hnull]
    rfl
  · have halone := l.readValue_chars hempty 0
    rw [List.append_nil] at halone
    rw [hl, halone]
    rfl

/-- A number of double width is never read as a whole number. -/
lemma Number.reread_double (x : Float) :
    (Number.double x).reread = .null ∨ ∃ y : Option Float,
    (Number.double x).reread = .number (y.map .double) := by
  have hempty : Json.Ends [] := fun _ hc => nomatch hc
  unfold reread toText
  dsimp only
  split_ifs with hfinite
  · have hpoint : Decimal.Layout.double.pointZero = true := rfl
    obtain ⟨l, hwhole, hl⟩ := exists_literal_partsText hpoint (Decimal.ofFloat_magnitude hfinite)
    have halone := l.readValue_chars hempty 0
    rw [List.append_nil, Json.Literal.value, hwhole] at halone
    rw [hl, halone]
    exact .inr ⟨_, rfl⟩
  · exact .inl rfl

lemma ofDigits_toDigits {n : Nat} (h : n < 0x10000000000000000) :
    Decimal.Significand.ofDigits (Nat.toDigits 10 n) = ⟨n, 0⟩ := by
  induction n using Nat.strong_induction_on with
  | _ n ih =>
    have hstep : ∀ m d : Nat, d < 10 → m * 10 + d < 0x10000000000000000 →
        (⟨m, 0⟩ : Decimal.Significand).pushWhole ((Nat.digitChar d).toNat - 48) =
          ⟨m * 10 + d, 0⟩ := by
      intro m d hd hlt
      have hdigit : (Nat.digitChar d).toNat - 48 = d := by interval_cases d <;> rfl
      rw [hdigit]
      simp [Decimal.Significand.pushWhole, hlt]
    rw [Nat.toDigits_eq_if (by decide)]
    split_ifs with hsmall
    · simpa [Decimal.Significand.ofDigits] using hstep 0 n hsmall (by omega)
    · have hprefix := ih (n / 10) (by omega) (by omega)
      unfold Decimal.Significand.ofDigits at hprefix ⊢
      rw [List.foldl_append, hprefix]
      have hlast := hstep (n / 10) (n % 10) (Nat.mod_lt _ (by decide)) (by omega)
      rw [Nat.div_add_mod'] at hlast
      simpa using hlast

/-- Whole numbers of up to 64 bits are read back as they were written. -/
theorem Number.reread_whole {n : Int} (hlow : -0x8000000000000000 ≤ n)
    (hhigh : n ≤ 0xffffffffffffffff) : (Number.whole n).reread = .number (some (.whole n)) := by
  have hempty : Json.Ends [] := fun _ hc => nomatch hc
  have hread := (wholeLiteral n).readValue_chars hempty 0
  rw [List.append_nil, ← toList_toString_int] at hread
  have hvalue : (wholeLiteral n).value = some (.whole n) := by
    have hsignificand := ofDigits_toDigits (n := n.natAbs) (by omega)
    unfold Json.Literal.value Json.Literal.isWhole Json.wholeNumber?
    simp only [wholeLiteral, hsignificand]
    by_cases hneg : n < 0
    · have hpos : 0 < n.natAbs ∧ n.natAbs ≤ 0x8000000000000000 := by omega
      simp [hneg, hpos, abs_of_neg hneg]
    · simp [hneg, abs_of_nonneg (not_lt.mp hneg)]
  rw [reread, toText, hread, hvalue]

end SceneExport
