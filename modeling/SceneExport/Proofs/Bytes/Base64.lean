import Mathlib
import SceneExport.Bytes.Base64

/-!
# Base64 is read back

Groups of three bytes are written as four characters and read back as the same three bytes, so no
two byte sequences have the same written form.
-/
namespace SceneExport.Base64

lemma value?_digit {n : Nat} (h : n < 64) : value? (digit n) = some n := by
  have hall : ∀ i : Fin 64, value? (digit i) = some i.val := by decide
  exact hall ⟨n, h⟩

lemma digit_ne_padding {n : Nat} (h : n < 64) : digit n ≠ '=' := by
  intro heq
  have hvalue := value?_digit h
  rw [heq] at hvalue
  cases hvalue

/-- What is written already stands in front. -/
lemma encodeFrom_eq : ∀ (bytes : Bytes) (done : List Char),
    encodeFrom done bytes = done.reverse ++ encodeFrom [] bytes
  | [], done => by simp [encodeFrom]
  | [a], done => by simp [encodeFrom]
  | [a, b], done => by simp [encodeFrom]
  | a :: b :: c :: rest, done => by
    rw [encodeFrom, encodeFrom, encodeFrom_eq rest, encodeFrom_eq rest [_, _, _, _]]
    simp

/-- The characters of a group of three bytes, which are read as one number. -/
def group (n : Nat) : List Char :=
  [digit (n / 262144), digit (n / 4096 % 64), digit (n / 64 % 64), digit (n % 64)]

lemma encodeFrom_group (a b c : UInt8) (rest : Bytes) : encodeFrom [] (a :: b :: c :: rest) =
    group ((a.toNat * 256 + b.toNat) * 256 + c.toNat) ++ encodeFrom [] rest := by
  rw [encodeFrom, encodeFrom_eq]
  rfl

/-- A group is read as its number, written to the base 256. -/
lemma decodeFrom_group {n : Nat} (h : n < 16777216) (done : Bytes) (rest : List Char) :
    decodeFrom done (group n ++ rest) = decodeFrom
      (UInt8.ofNat (n % 256) :: UInt8.ofNat (n / 256 % 256) :: UInt8.ofNat (n / 65536) :: done)
        rest := by
  have hfirst : n / 262144 < 64 := by omega
  have hnumber : ((n / 262144 * 64 + n / 4096 % 64) * 64 + n / 64 % 64) * 64 + n % 64 =
      n := by omega
  have hlast : digit (n % 64) ≠ '=' := digit_ne_padding (Nat.mod_lt _ (by decide))
  change decodeFrom done (_ :: _ :: _ :: _ :: rest) = _
  rw [decodeFrom]
  · simp only [value?_digit hfirst, value?_digit (Nat.mod_lt _ (by decide : 64 > 0)), hnumber]
  · exact fun _ heq _ => absurd heq hlast
  · exact fun heq _ => absurd heq hlast

lemma decodeFrom_one (a : UInt8) (done : Bytes) :
    decodeFrom done (encodeFrom [] [a]) = some (done.reverse ++ [a]) := by
  have ha := a.toNat_lt
  have hfirst : a.toNat * 16 / 64 < 64 := by omega
  have hnumber : a.toNat * 16 / 64 * 64 + a.toNat * 16 % 64 = a.toNat * 16 := by omega
  change decodeFrom done [digit (a.toNat * 16 / 64), digit (a.toNat * 16 % 64), '=', '='] = _
  simp [decodeFrom, value?_digit hfirst, value?_digit (Nat.mod_lt _ (by decide : 64 > 0)), hnumber]

lemma decodeFrom_two (a b : UInt8) (done : Bytes) :
    decodeFrom done (encodeFrom [] [a, b]) = some (done.reverse ++ [a, b]) := by
  have ha := a.toNat_lt
  have hb := b.toNat_lt
  generalize hn : (a.toNat * 256 + b.toNat) * 4 = n
  have hfirst : n / 4096 < 64 := by omega
  have hnumber : (n / 4096 * 64 + n / 64 % 64) * 64 + n % 64 = n := by omega
  have hbytes : n % 4 = 0 ∧ n / 4 % 256 = b.toNat ∧ n / 1024 = a.toNat := by omega
  have hlast : digit (n % 64) ≠ '=' := digit_ne_padding (Nat.mod_lt _ (by decide))
  have hencode : encodeFrom [] [a, b] =
      [digit (n / 4096), digit (n / 64 % 64), digit (n % 64), '='] := by
    rw [← hn]
    rfl
  rw [hencode, decodeFrom]
  · simp only [value?_digit hfirst, value?_digit (Nat.mod_lt _ (by decide : 64 > 0)),
      Option.bind_eq_bind, Option.bind_some, hnumber, hbytes]
    simp
  · exact hlast

theorem decodeFrom_encodeFrom : ∀ (bytes done : Bytes),
    decodeFrom done (encodeFrom [] bytes) = some (done.reverse ++ bytes)
  | [], done => by simp [encodeFrom, decodeFrom]
  | [a], done => decodeFrom_one a done
  | [a, b], done => decodeFrom_two a b done
  | a :: b :: c :: rest, done => by
    have ha := a.toNat_lt
    have hb := b.toNat_lt
    have hc := c.toNat_lt
    generalize hn : (a.toNat * 256 + b.toNat) * 256 + c.toNat = n
    have hbytes : n % 256 = c.toNat ∧ n / 256 % 256 = b.toNat ∧ n / 65536 = a.toNat := by omega
    rw [encodeFrom_group, hn, decodeFrom_group (by omega), decodeFrom_encodeFrom rest,
      hbytes.1, hbytes.2.1, hbytes.2.2]
    simp

/-- What is written is read back. -/
theorem decode?_encode (bytes : Bytes) : decode? (encode bytes) = some bytes := by
  rw [decode?, encode, String.toList_ofList, decodeFrom_encodeFrom]
  rfl

theorem encode_injective : Function.Injective encode := by
  intro a b h
  have hread := congrArg decode? h
  rw [decode?_encode, decode?_encode] at hread
  exact Option.some.inj hread

/-- A written text starts with the character of a value, if it has any. -/
lemma value?_of_head?_encode {bytes : Bytes} {c : Char} (h : (encode bytes).toList.head? = some c) :
    (value? c).isSome := by
  rw [encode, String.toList_ofList] at h
  obtain ⟨n, hn, rfl⟩ : ∃ n < 64, digit n = c := by
    match bytes with
    | [] => cases h
    | [a] =>
      have ha := a.toNat_lt
      exact ⟨a.toNat * 16 / 64, by omega, Option.some.inj h⟩
    | [a, b] =>
      have ha := a.toNat_lt
      have hb := b.toNat_lt
      exact ⟨(a.toNat * 256 + b.toNat) * 4 / 4096, by omega, Option.some.inj h⟩
    | a :: b :: c :: rest =>
      have ha := a.toNat_lt
      have hb := b.toNat_lt
      have hc := c.toNat_lt
      rw [encodeFrom_group] at h
      exact ⟨((a.toNat * 256 + b.toNat) * 256 + c.toNat) / 262144, by omega, Option.some.inj h⟩
  rw [value?_digit hn]
  rfl

end SceneExport.Base64
