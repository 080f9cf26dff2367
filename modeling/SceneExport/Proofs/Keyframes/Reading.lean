import Mathlib
import SceneExport.Keyframes

/-!
# Reading keyframe streams

The records of a stream have different lengths and no marks between them. How long a record is
follows from its own code and from the code before it, so a reader that remembers one code finds
every record. It gets the keys back that are the first at their frame, in single width and with the
handles that are used. The offset that goes with a stream is where its last record starts, unless
the last key of the curve repeats a frame: then it is zero.
-/
namespace SceneExport.Keyframes

open Rounding (whole narrow)

/-- What a stream says of a key. -/
structure Record where
  interpolation : Interpolation
  frame : Float32
  value : Float32
  left : Option (Handle Float32)
  right : Option (Handle Float32)

/-- The number of numbers in a record. -/
def Record.size (r : Record) : Nat :=
  3 + (if r.left.isSome then 2 else 0) + (if r.right.isSome then 2 else 0)

/-- The interpolation with a code. -/
def interpolation? (code : Float32) : Option Interpolation :=
  [.bezier, .linear, .constant].find? fun i => Float32.ofNat i.code == code

/-- Reads a handle where there is one. -/
def handle? (present : Prop) [Decidable present] (numbers : List Float32) :
    Option (Option (Handle Float32) × List Float32) :=
  if present then
    match numbers with
    | frame :: value :: rest => some (some ⟨frame, value⟩, rest)
    | _ => none
  else some (none, numbers)

/-- Reads a record behind one with the given interpolation. -/
def record? (previous : Option Interpolation) : List Float32 → Option (Record × List Float32)
  | code :: frame :: value :: rest => do
    let interpolation ← interpolation? code
    let (left, rest) ← handle? (previous = some .bezier) rest
    let (right, rest) ← handle? (interpolation = .bezier) rest
    return (⟨interpolation, frame, value, left, right⟩, rest)
  | _ => none

section Reader

variable {present : Prop} [Decidable present] {previous : Option Interpolation}
    {numbers rest : List Float32}
  {handle : Option (Handle Float32)} {r : Record}

lemma length_of_handle? (h : handle? present numbers = some (handle, rest)) :
    numbers.length = (if handle.isSome then 2 else 0) + rest.length := by
  unfold handle? at h
  split_ifs at h
  · split at h
    · cases h
      simp
      omega
    · cases h
  · cases h
    simp

/-- A record takes as many numbers as its size says. -/
lemma length_of_record? (h : record? previous numbers = some (r, rest)) :
    numbers.length = r.size + rest.length := by
  unfold record? at h
  split at h
  · simp only [Option.bind_eq_bind, Option.bind_eq_some_iff] at h
    obtain ⟨interpolation, -, ⟨left, rest'⟩, hleft, ⟨right, rest''⟩, hright, h⟩ := h
    cases h
    have hlen := length_of_handle? hleft
    have hlen' := length_of_handle? hright
    simp only [List.length_cons, Record.size, hlen, hlen']
    omega
  · cases h

lemma length_lt_of_record? (h : record? previous numbers = some (r, rest)) :
    rest.length < numbers.length := by
  rw [length_of_record? h, Record.size]
  omega

/-- Reads records until the stream ends. A stream that ends inside a record is not read. -/
def decode? (previous : Option Interpolation) (numbers : List Float32) : Option (List Record) :=
  match numbers with
  | [] => some []
  | code :: others =>
    match h : record? previous (code :: others) with
    | some (r, rest) =>
      have : rest.length < (code :: others).length := length_lt_of_record? h
      (decode? (some r.interpolation) rest).map (r :: ·)
    | none => none
termination_by numbers.length
decreasing_by exact this

lemma decode?_nil : decode? previous [] = some [] := by
  rw [decode?]

lemma decode?_of_record? (h : record? previous numbers = some (r, rest)) :
    decode? previous numbers = (decode? (some r.interpolation) rest).map (r :: ·) := by
  cases numbers with
  | nil => cases h
  | cons number numbers =>
    rw [decode?]
    split
    · rename_i heq
      rw [h] at heq
      cases heq
      rfl
    · rename_i heq
      rw [h] at heq
      cases heq

end Reader

/-- What the format keeps of a key behind one with the given interpolation. -/
def Record.of (previous : Option Interpolation) (k : Key Float) : Record where
  interpolation := k.interpolation
  frame := narrow (whole k.frame)
  value := narrow k.value
  left := if previous = some .bezier then some ⟨narrow k.left.frame, narrow k.left.value⟩ else none
  right :=
    if k.interpolation = .bezier then some ⟨narrow k.right.frame, narrow k.right.value⟩ else none

/-- What the format keeps of keys, each behind the one before it. -/
def transcript (previous : Option Interpolation) (keys : List (Key Float)) : List Record :=
  List.zipWith Record.of (previous :: keys.map fun k => some k.interpolation) keys

/-- The keys that are the first at their frame. -/
def firsts (keys : List (Key Float)) : List (Key Float) :=
  ((keys.zip keys.inits).filter fun (k, before) => !before.any (·.frame == k.frame)).map Prod.fst

/-- The keys that are the first at their frame, and not at a frame that was seen before. -/
def firstsAfter (seen : List Float) (keys : List (Key Float)) : List (Key Float) :=
  ((keys.zip keys.inits).filter fun (k, before) =>
    !seen.any (· == k.frame) && !before.any (·.frame == k.frame)).map Prod.fst

section Written

variable {seen : List Float} {previous : Option Interpolation} {offset : Nat} {k : Key Float}
  {keys rest : List (Key Float)}

lemma firsts_eq_firstsAfter (keys : List (Key Float)) : firsts keys = firstsAfter [] keys := by
  simp [firsts, firstsAfter]

/-- At a frame that was seen there is no new frame. -/
lemma beq_eq_false_of_seen {frame frame' : Float} (hseen : seen.any (· == frame) = true)
    (hnew : seen.any (· == frame') = false) : (frame == frame') = false := by
  by_contra heq
  obtain ⟨earlier, hmem, hearlier⟩ := List.any_eq_true.mp hseen
  have hseen' : seen.any (· == frame') = true :=
    List.any_eq_true.mpr ⟨earlier, hmem, PartialEquivBEq.trans hearlier (Bool.of_not_eq_false heq)⟩
  exact Bool.false_ne_true (hnew.symm.trans hseen')

/-- A key at a frame that was seen is left out. The frames of the others are remembered. -/
lemma firstsAfter_cons : firstsAfter seen (k :: rest) =
    if seen.any (· == k.frame) then firstsAfter seen rest
    else k :: firstsAfter (k.frame :: seen) rest := by
  have hzip : (k :: rest).zip (k :: rest).inits =
      (k, []) :: (rest.zip rest.inits).map (Prod.map id (k :: ·)) := by
    rw [List.inits_cons, List.zip_cons_cons, List.zip_map_right]
  have hfst : Prod.fst ∘ Prod.map id (k :: ·) =
      (Prod.fst : Key Float × List (Key Float) → Key Float) := rfl
  rw [firstsAfter, hzip, List.filter_cons, List.filter_map]
  split_ifs with hnew hseen hseen
  · simp [hseen] at hnew
  · rw [List.map_cons, List.map_map, hfst]
    congr 2
    refine List.filter_congr fun ⟨x, before⟩ _ => ?_
    simp only [Function.comp_apply, Prod.map, id, List.any_cons, Bool.not_or]
    ac_rfl
  · -- the frame of the key was seen, so it is in the way of no frame that was not
    rw [List.map_map, hfst]
    congr 1
    refine List.filter_congr fun ⟨x, before⟩ _ => ?_
    simp only [Function.comp_apply, Prod.map, id, List.any_cons, Bool.not_or]
    cases hx : seen.any (· == x.frame) with
    | true => rfl
    | false => rw [beq_eq_false_of_seen hseen hx, Bool.not_false, Bool.true_and]
  · simp [hseen] at hnew

lemma transcript_cons :
    transcript previous (k :: rest) = .of previous k :: transcript (some k.interpolation) rest :=
  rfl

lemma interpolation?_code (i : Interpolation) : interpolation? (Float32.ofNat i.code) = some i := by
  cases i <;> decide +kernel

lemma handle?_append {present : Prop} [Decidable present] {frame value : Float32}
    {numbers : List Float32} :
    handle? present ((if present then [frame, value] else []) ++ numbers) =
      some (if present then some ⟨frame, value⟩ else none, numbers) := by
  unfold handle?
  split_ifs <;> rfl

/-- A record is read back whatever comes behind it. -/
lemma record?_record {numbers : List Float32} :
    record? previous (record previous k ++ numbers) = some (.of previous k, numbers) := by
  simp only [record, record?, List.cons_append, List.nil_append, List.append_assoc,
    interpolation?_code, Option.bind_eq_bind, Option.bind_some, handle?_append,
    Option.pure_def, Record.of]

lemma encodeFrom_of_seen (hseen : seen.any (· == k.frame) = true) :
    encodeFrom seen previous offset (k :: rest) = encodeFrom seen previous offset rest := by
  rw [encodeFrom, if_pos hseen]

lemma numbers_of_new (hnew : ¬ seen.any (· == k.frame) = true) :
    (encodeFrom seen previous offset (k :: rest)).numbers = record previous k ++
      (encodeFrom (k.frame :: seen) (some k.interpolation) (offset + (record previous k).length)
        rest).numbers := by
  rw [encodeFrom, if_neg hnew]

lemma lastRecord_of_new (hnew : ¬ seen.any (· == k.frame) = true) :
    (encodeFrom seen previous offset (k :: rest)).lastRecord = if rest.isEmpty then offset else
      (encodeFrom (k.frame :: seen) (some k.interpolation) (offset + (record previous k).length)
        rest).lastRecord := by
  rw [encodeFrom, if_neg hnew]

/-- The reader stays in step from any point of a stream. -/
lemma decode?_encodeFrom (keys : List (Key Float)) (seen : List Float)
    (previous : Option Interpolation) (offset : Nat) :
    decode? previous (encodeFrom seen previous offset keys).numbers =
      some (transcript previous (firstsAfter seen keys)) := by
  induction keys generalizing seen previous offset with
  | nil => exact decode?_nil
  | cons k rest ih =>
    by_cases hseen : seen.any (· == k.frame) = true
    · rw [encodeFrom_of_seen hseen, firstsAfter_cons, if_pos hseen, ih]
    · rw [numbers_of_new hseen, firstsAfter_cons, if_neg hseen, transcript_cons,
        decode?_of_record? record?_record]
      rw [show (Record.of previous k).interpolation = k.interpolation from rfl, ih, Option.map_some]

end Written

/-- A stream is read back to its end, as what the format keeps of the keys that are the first at
their frame. -/
theorem decode?_numbers_encode (c : Curve Float) :
    decode? none (encode c).numbers = some (transcript none (firsts c.keys)) := by
  rw [encode, decode?_encodeFrom, firsts_eq_firstsAfter]

/-- The last record of a stream starts at an offset. -/
inductive LastStartsAt : Option Interpolation → List Float32 → Nat → Prop
  | here {previous numbers r} (only : record? previous numbers = some (r, [])) :
      LastStartsAt previous numbers 0
  | later {previous numbers r rest offset} (first : record? previous numbers = some (r, rest))
      (last : LastStartsAt (some r.interpolation) rest offset) :
      LastStartsAt previous numbers (r.size + offset)

section LastRecord

variable {seen : List Float} {previous : Option Interpolation} {numbers : List Float32}
    {k last : Key Float}

/-- A stream starts with its last record just if it has no other. -/
lemma LastStartsAt.exists_of_zero (h : LastStartsAt previous numbers 0) :
    ∃ r, record? previous numbers = some (r, []) := by
  generalize hoffset : 0 = offset at h
  cases h with
  | here only => exact ⟨_, only⟩
  | later =>
    rw [Record.size] at hoffset
    omega

lemma length_record : (record previous k).length = (Record.of previous k).size := by
  have hread : record? previous (record previous k ++ []) = some (.of previous k, []) :=
    record?_record
  simpa using length_of_record? hread

lemma eq_nil_of_decode? (h : decode? previous numbers = some []) : numbers = [] := by
  cases numbers with
  | nil => rfl
  | cons number others =>
    rw [decode?] at h
    split at h
    · simp at h
    · cases h

/-- The last key is at a frame that was seen, or that a key before it has. -/
def Repeated (seen : List Float) (before : List (Key Float)) (last : Key Float) : Prop :=
  (seen ++ before.map (·.frame)).any (· == last.frame) = true

lemma repeated_cons {before : List (Key Float)} :
    Repeated seen (k :: before) last ↔ Repeated (k.frame :: seen) before last := by
  simp only [Repeated, List.map_cons, List.any_append, List.any_cons, Bool.or_eq_true]
  tauto

/-- A frame that was seen does not count twice. -/
lemma repeated_of_seen {before : List (Key Float)} (hseen : seen.any (· == k.frame) = true) :
    Repeated (k.frame :: seen) before last ↔ Repeated seen before last := by
  simp only [Repeated, List.cons_append, List.any_cons, Bool.or_eq_true, or_iff_right_iff_imp]
  intro heq
  rw [List.any_append, Bool.or_eq_true]
  refine .inl (by_contra fun hnew => ?_)
  exact Bool.false_ne_true ((beq_eq_false_of_seen hseen (Bool.of_not_eq_true hnew)).symm.trans heq)

/-- The offset goes with the last key, so it is left at zero if that key has no record. -/
lemma lastRecord_of_repeated (before : List (Key Float)) (seen : List Float)
    (previous : Option Interpolation) (offset : Nat) (h : Repeated seen before last) :
    (encodeFrom seen previous offset (before ++ [last])).lastRecord = 0 := by
  induction before generalizing seen previous offset with
  | nil =>
    have hseen : seen.any (· == last.frame) = true := by simpa [Repeated] using h
    rw [List.nil_append, encodeFrom_of_seen hseen, encodeFrom]
  | cons k before ih =>
    rw [repeated_cons] at h
    by_cases hseen : seen.any (· == k.frame) = true
    · rw [List.cons_append, encodeFrom_of_seen hseen]
      exact ih _ _ _ ((repeated_of_seen hseen).mp h)
    · rw [List.cons_append, lastRecord_of_new hseen, if_neg (by simp)]
      exact ih _ _ _ h

/-- A last key at a frame of its own has the last record. -/
lemma lastStartsAt_of_not_repeated (before : List (Key Float)) (seen : List Float)
    (previous : Option Interpolation) (offset : Nat) (h : ¬ Repeated seen before last) :
    ∃ n, (encodeFrom seen previous offset (before ++ [last])).lastRecord = offset + n ∧
      LastStartsAt previous (encodeFrom seen previous offset (before ++ [last])).numbers n := by
  induction before generalizing seen previous offset with
  | nil =>
    have hnew : ¬ seen.any (· == last.frame) = true := by simpa [Repeated] using h
    rw [List.nil_append, numbers_of_new hnew, lastRecord_of_new hnew]
    exact ⟨0, rfl, .here record?_record⟩
  | cons k before ih =>
    rw [repeated_cons] at h
    by_cases hseen : seen.any (· == k.frame) = true
    · rw [List.cons_append, encodeFrom_of_seen hseen]
      exact ih _ _ _ (mt (repeated_of_seen hseen).mpr h)
    · obtain ⟨n, hn, hlast⟩ :=
        ih (k.frame :: seen) (some k.interpolation) (offset + (record previous k).length) h
      rw [List.cons_append, numbers_of_new hseen, lastRecord_of_new hseen, if_neg (by simp)]
      refine ⟨(Record.of previous k).size + n, ?_, .later record?_record hlast⟩
      rw [hn, length_record, Nat.add_assoc]

lemma length_transcript (previous : Option Interpolation) (keys : List (Key Float)) :
    (transcript previous keys).length = keys.length := by
  simp [transcript]

/-- The last record is the first one if all keys are at one frame. -/
lemma lastStartsAt_zero_iff (c : Curve Float) :
    LastStartsAt none (encode c).numbers 0 ↔ (firsts c.keys).length = 1 := by
  rw [firsts_eq_firstsAfter, encode]
  constructor
  · intro hstart
    obtain ⟨r, hr⟩ := hstart.exists_of_zero
    have hread := decode?_encodeFrom c.keys [] none 0
    rw [decode?_of_record? hr, decode?_nil, Option.map_some, Option.some_inj] at hread
    rw [← length_transcript none, ← hread, List.length_singleton]
  · intro hlen
    cases hkeys : c.keys with
    | nil =>
      rw [hkeys] at hlen
      cases hlen
    | cons k rest =>
      have hnew : ¬ List.any [] (· == k.frame) = true := Bool.false_ne_true
      rw [hkeys, firstsAfter_cons, if_neg hnew, List.length_cons, Nat.add_eq_right,
        List.length_eq_zero_iff] at hlen
      have hrest :=
        decode?_encodeFrom rest [k.frame] (some k.interpolation) (0 + (record none k).length)
      rw [hlen] at hrest
      rw [numbers_of_new hnew, eq_nil_of_decode? hrest]
      exact .here record?_record

end LastRecord

/-- The offset of a stream is where its last record starts, except where the last key repeats the
frame of a key before it and the stream has several records. Then it is zero. -/
theorem lastStartsAt_lastRecord_iff (c : Curve Float) (before : List (Key Float)) (last : Key Float)
    (hkeys : c.keys = before ++ [last]) :
    (LastStartsAt none (encode c).numbers (encode c).lastRecord ↔
      (∀ k ∈ before, ¬ k.frame == last.frame) ∨ (firsts c.keys).length = 1) ∧
    ((∃ k ∈ before, k.frame == last.frame) → (encode c).lastRecord = 0) := by
  have hrepeated : Repeated [] before last ↔ ∃ k ∈ before, k.frame == last.frame := by
    simp [Repeated]
  have hnone : (∀ k ∈ before, ¬ k.frame == last.frame) ↔ ¬ Repeated [] before last := by
    rw [hrepeated]
    push Not
    rfl
  have hzero (h : Repeated [] before last) : (encode c).lastRecord = 0 := by
    rw [encode, hkeys, lastRecord_of_repeated before [] none 0 h]
  rw [hnone, ← hrepeated]
  refine ⟨?_, hzero⟩
  by_cases h : Repeated [] before last
  · rw [hzero h, lastStartsAt_zero_iff, or_iff_right (not_not_intro h)]
  · obtain ⟨n, hn, hstart⟩ := lastStartsAt_of_not_repeated before [] none 0 h
    rw [← hkeys, ← encode] at hn hstart
    rw [hn, Nat.zero_add]
    exact iff_of_true hstart (.inl h)

/-- Two keys at the end of a curve have one frame, and two keys at its start. -/
theorem lastStartsAt_lastRecord_repeated :
    let c : Curve Float := ⟨.location, 0, [.plain 1 0, .plain 2 0, .plain 2 0]⟩
    let d : Curve Float := ⟨.location, 0, [.plain 1 0, .plain 1 0, .plain 2 0]⟩
    ¬ LastStartsAt none (encode c).numbers (encode c).lastRecord ∧ (encode c).lastRecord = 0 ∧
      LastStartsAt none (encode d).numbers (encode d).lastRecord := by
  intro c d
  obtain ⟨hiff, hzero⟩ := lastStartsAt_lastRecord_iff c [.plain 1 0, .plain 2 0] (.plain 2 0) rfl
  obtain ⟨hiff', -⟩ := lastStartsAt_lastRecord_iff d [.plain 1 0, .plain 1 0] (.plain 2 0) rfl
  exact ⟨mt hiff.mp (by decide +kernel), hzero (by decide +kernel), hiff'.mpr (by decide +kernel)⟩

end SceneExport.Keyframes
