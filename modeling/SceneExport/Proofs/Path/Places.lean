import Mathlib
import SceneExport.Path

/-!
# Places and their spelling

A text is read as a place by following its names one after another. The names that are left are
normal: none of them is empty or a dot, and `..` stands only at the start of a relative place. A
normal place is what its own spelling is read as, with one exception: a relative place whose first
name is a letter with a colon behind it is spelled as if it were on a drive. Plain places, which
have no colons, are no such exception.
-/
namespace SceneExport

namespace Text

variable {cut : Char → Bool} {cs : List Char}

theorem pieces_eq_splitOnP (cut : Char → Bool) (cs : List Char) :
    pieces cut cs = cs.splitOnP cut := by
  induction cs with
  | nil => simp [pieces]
  | cons c cs ih =>
    rw [pieces, ih, List.splitOnP_cons_eq_if_modifyHead]
    cases h : cs.splitOnP cut with
    | nil => exact absurd h (List.splitOnP_ne_nil _ _)
    | cons piece rest => simp

lemma pieces_append_cons (xs ys : List Char) {c : Char} (hc : cut c = true) :
    pieces cut (xs ++ c :: ys) = pieces cut xs ++ pieces cut ys := by
  simp only [pieces_eq_splitOnP, List.splitOnP_append_cons xs ys hc]

lemma pieces_of_forall (h : ∀ c ∈ cs, cut c = false) : pieces cut cs = [cs] := by
  rw [pieces_eq_splitOnP, List.splitOnP_eq_singleton h]

lemma pieces_cons (cut : Char → Bool) (c : Char) (cs : List Char) :
    ∃ piece rest, pieces cut cs = piece :: rest ∧
    pieces cut (c :: cs) = if cut c then [] :: piece :: rest else (c :: piece) :: rest := by
  cases h : pieces cut cs with
  | nil =>
    rw [pieces_eq_splitOnP] at h
    exact absurd h (List.splitOnP_ne_nil _ _)
  | cons piece rest => exact ⟨piece, rest, rfl, by rw [pieces, h]⟩

/-- Pieces are made of the characters of the text that are no separators. -/
lemma mem_of_mem_pieces {piece : List Char} (h : piece ∈ pieces cut cs) {c : Char}
    (hc : c ∈ piece) : c ∈ cs ∧ cut c = false := by
  induction cs generalizing piece with
  | nil =>
    obtain rfl : piece = [] := by simpa [pieces] using h
    simp at hc
  | cons d cs ih =>
    obtain ⟨first, rest, hcs, hpieces⟩ := pieces_cons cut d cs
    rw [hcs] at ih
    rw [hpieces] at h
    split at h <;> grind

lemma isAsciiLetter_eq (c : Char) : isAsciiLetter c = c.isAlpha := by
  have hle : ∀ a b : Char, (a ≤ b) = (a.val ≤ b.val) := fun _ _ => rfl
  simp only [isAsciiLetter, Char.isAlpha, Char.isUpper, Char.isLower, hle, ge_iff_le,
    Bool.decide_and]
  rw [Bool.or_comm]

lemma isAsciiLetter_toUpper (c : Char) : isAsciiLetter c.toUpper = isAsciiLetter c := by
  rw [isAsciiLetter_eq, isAsciiLetter_eq, Char.isAlpha_toUpper_eq_isAlpha]

end Text

namespace Path

/-- A name that leads somewhere, written without separators. -/
structure Proper (name : Name) : Prop where
  ne_nil : name ≠ []
  ne_dot : name ≠ ['.']
  slash : '/' ∉ name
  backslash : '\\' ∉ name

lemma proper_parentName : Proper parentName :=
  ⟨by decide, by decide, by decide, by decide⟩

/-- Names that were followed, the last of them first: those of a way down, behind `..` for the way
up that only a relative place has. -/
inductive Normal (absolute : Bool) : List Name → Prop
  | up (n : Nat) : (absolute = true → n = 0) → Normal absolute (List.replicate n parentName)
  | down {name : Name} {passed : List Name} : Proper name → name ≠ parentName →
    Normal absolute passed → Normal absolute (name :: passed)

variable {absolute : Bool} {name : Name} {names passed : List Name}

lemma follow_skip (h : name = [] ∨ name = ['.']) : follow absolute passed name = passed :=
  if_pos h

lemma follow_down (hname : Proper name) (hne : name ≠ parentName) :
    follow absolute passed name = name :: passed := by
  unfold follow
  rw [if_neg (not_or.mpr ⟨hname.ne_nil, hname.ne_dot⟩), if_neg hne]

lemma follow_parentName : follow absolute passed parentName = match passed with
    | [] => if absolute then [] else [parentName]
    | last :: before =>
      if last ≠ parentName then before else if absolute then passed else parentName :: passed := by
  unfold follow
  exact (if_neg (by decide)).trans (if_pos rfl)

namespace Normal

lemma nil : Normal absolute [] :=
  .up 0 fun _ => rfl

lemma proper (h : Normal absolute passed) : ∀ name ∈ passed, Proper name := by
  induction h with
  | up n _ =>
    intro name hname
    rw [List.eq_of_mem_replicate hname]
    exact proper_parentName
  | down hname _ _ ih =>
    intro other hother
    rcases List.mem_cons.mp hother with rfl | hother
    · exact hname
    · exact ih other hother

lemma parentName_notMem (h : Normal true passed) : parentName ∉ passed := by
  induction h with
  | up n hn => simp [hn rfl]
  | down _ hne _ ih => simp [Ne.symm hne, ih]

/-- Normal names are a way up and a way down. -/
lemma exists_up (h : Normal absolute passed) :
    ∃ n down, passed = down ++ List.replicate n parentName ∧
    parentName ∉ down ∧ (absolute = true → n = 0) := by
  induction h with
  | up n hn => exact ⟨n, [], rfl, by simp, hn⟩
  | @down name passed _ hne _ ih =>
    obtain ⟨n, down, rfl, hdown, hn⟩ := ih
    exact ⟨n, name :: down, rfl, by simp [Ne.symm hne, hdown], hn⟩

/-- Following one more name leaves normal names. -/
lemma follow (h : Normal absolute passed) (hslash : '/' ∉ name) (hback : '\\' ∉ name) :
    Normal absolute (Path.follow absolute passed name) := by
  by_cases hskip : name = [] ∨ name = ['.']
  · rwa [follow_skip hskip]
  have hname : Proper name := ⟨fun h => hskip (.inl h), fun h => hskip (.inr h), hslash, hback⟩
  by_cases hparent : name = parentName
  · subst hparent
    rw [follow_parentName]
    cases h with
    | up n hn =>
      cases n with
      | zero =>
        cases absolute with
        | false => exact .up 1 (by simp)
        | true => exact .nil
      | succ n =>
        cases absolute with
        | false =>
          have hup : Normal false (List.replicate (n + 2) parentName) := .up _ (by simp)
          simpa [List.replicate_succ] using hup
        | true => simp at hn
    | down _ hne hpassed => simpa [hne] using hpassed
  · rw [follow_down hname hparent]
    exact .down hname hparent h

lemma foldl_follow (h : Normal absolute passed) (hslash : ∀ name ∈ names, '/' ∉ name)
    (hback : ∀ name ∈ names, '\\' ∉ name) :
    Normal absolute (names.foldl (Path.follow absolute) passed) := by
  induction names generalizing passed with
  | nil => exact h
  | cons name names ih =>
    refine ih (h.follow (hslash _ List.mem_cons_self) (hback _ List.mem_cons_self)) ?_ ?_
    · exact fun other hother => hslash other (List.mem_cons_of_mem _ hother)
    · exact fun other hother => hback other (List.mem_cons_of_mem _ hother)

/-- Following normal names from the start passes exactly these. -/
theorem foldl_reverse (h : Normal absolute passed) :
    passed.reverse.foldl (Path.follow absolute) [] = passed := by
  induction h with
  | up n hn =>
    rw [List.reverse_replicate]
    induction n with
    | zero => rfl
    | succ n ih =>
      have hrel : absolute = false := by
        by_contra habs
        exact absurd (hn (by simpa using habs)) (by omega)
      subst hrel
      rw [List.replicate_succ', List.foldl_append, ih (by simp), List.foldl_cons, List.foldl_nil,
        follow_parentName, ← List.replicate_succ']
      cases n <;> simp [List.replicate_succ]
  | down hname hne _ ih =>
    rw [List.reverse_cons, List.foldl_append, ih, List.foldl_cons, List.foldl_nil,
      follow_down hname hne]

lemma append (h : Normal absolute passed) (hproper : ∀ name ∈ names, Proper name)
    (hdown : parentName ∉ names) : Normal absolute (names ++ passed) := by
  induction names with
  | nil => exact h
  | cons name names ih =>
    simp only [List.mem_cons, not_or] at hdown
    refine .down (hproper name List.mem_cons_self) (Ne.symm hdown.1) (ih ?_ hdown.2)
    exact fun other hother => hproper other (List.mem_cons_of_mem _ hother)

lemma drop (h : Normal absolute passed) (n : Nat) : Normal absolute (passed.drop n) := by
  induction h generalizing n with
  | up m hm =>
    rw [List.drop_replicate]
    exact .up _ fun habs => by rw [hm habs, Nat.zero_sub]
  | down hname hne hpassed ih =>
    cases n with
    | zero => exact .down hname hne hpassed
    | succ n => exact ih n

lemma take (h : Normal absolute passed) (n : Nat) : Normal absolute (passed.take n) := by
  induction h generalizing n with
  | up m hm =>
    rw [List.take_replicate]
    exact .up _ fun habs => by rw [hm habs, Nat.min_zero]
  | down hname hne _ ih =>
    cases n with
    | zero => exact .nil
    | succ n => exact .down hname hne (ih n)

/-- A way that starts further up. -/
lemma append_up (h : Normal absolute passed) (n : Nat) :
    Normal false (passed ++ List.replicate n parentName) := by
  induction h with
  | up m _ =>
    rw [List.replicate_append_replicate]
    exact .up _ (by simp)
  | down hname hne _ ih => exact .down hname hne ih

end Normal

/-- Only names that are followed are passed. -/
lemma mem_of_mem_foldl_follow (h : name ∈ names.foldl (follow absolute) passed) :
    name ∈ passed ∨ name ∈ names := by
  induction names generalizing passed with
  | nil => exact .inl h
  | cons next names ih =>
    rcases ih h with h | h
    · have hstep : name ∈ passed ∨ name = next := by
        unfold follow at h
        grind
      exact hstep.imp_right fun hname => by simp [hname]
    · exact .inr (List.mem_cons_of_mem _ h)

lemma foldl_follow_down (hproper : ∀ name ∈ names, Proper name) (hdown : parentName ∉ names) :
    names.foldl (follow absolute) passed = names.reverse ++ passed := by
  induction names generalizing passed with
  | nil => rfl
  | cons name names ih =>
    simp only [List.mem_cons, not_or] at hdown
    rw [List.foldl_cons, follow_down (hproper name List.mem_cons_self) (Ne.symm hdown.1),
      ih (fun other hother => hproper other (List.mem_cons_of_mem _ hother)) hdown.2]
    simp

/-- Going up as often as names were passed on the way down. -/
lemma foldl_follow_up {n : Nat} (hn : n ≤ passed.length) (hdown : parentName ∉ passed.take n) :
    (List.replicate n parentName).foldl (follow absolute) passed = passed.drop n := by
  induction n generalizing passed with
  | zero => rfl
  | succ n ih =>
    cases passed with
    | nil => simp at hn
    | cons last before =>
      have hlast : last ≠ parentName := by
        rintro rfl
        simp at hdown
      rw [List.replicate_succ, List.foldl_cons, follow_parentName]
      simp only [hlast, ne_eq, not_false_eq_true, if_true, List.drop_succ_cons]
      refine ih (by simpa using hn) ?_
      simp only [List.take_succ_cons, List.mem_cons, not_or] at hdown
      exact hdown.2

lemma slashed_append (xs ys : List Char) : slashed (xs ++ ys) = slashed xs ++ slashed ys :=
  List.map_append

lemma mem_slashed {cs : List Char} {c : Char} (h : c ∈ slashed cs) :
    c ≠ '\\' ∧ (c = '/' ∨ c ∈ cs) := by
  obtain ⟨d, hd, rfl⟩ := List.mem_map.mp h
  by_cases hback : d = '\\'
  · simp [hback]
  · simp [hback, hd]

lemma slashed_eq_self {cs : List Char} (h : '\\' ∉ cs) : slashed cs = cs := by
  have hkeep : ∀ c ∈ cs, (if c = '\\' then '/' else c) = id c := by
    intro c hc
    have hback : c ≠ '\\' := fun hback => h (hback ▸ hc)
    exact if_neg hback
  rw [slashed, List.map_congr_left hkeep, List.map_id]

lemma colon_notMem_slashed {cs : List Char} (h : ':' ∉ cs) : ':' ∉ slashed cs := by
  intro hc
  rcases (mem_slashed hc).2 with hc | hc
  · exact absurd hc (by decide)
  · exact h hc

lemma splitDrive_letter {c : Char} (hc : Text.isAsciiLetter c = true) (cs : List Char) :
    splitDrive (c :: ':' :: cs) = (some c.toUpper, cs) :=
  if_pos hc

lemma splitDrive_none {cs : List Char}
    (h : ∀ c rest, cs = c :: ':' :: rest → Text.isAsciiLetter c = false) :
    splitDrive cs = (none, cs) := by
  unfold splitDrive
  split
  · next c rest => rw [h c rest rfl, if_neg (by decide)]
  · rfl

lemma splitDrive_of_colon {cs : List Char} (h : ':' ∉ cs) : splitDrive cs = (none, cs) := by
  refine splitDrive_none ?_
  rintro c rest rfl
  simp at h

/-- The names of a text, some of which lead nowhere. -/
def namesOf (cs : List Char) : List Name :=
  Text.pieces (· = '/') (slashed cs)

lemma mem_namesOf {cs : List Char} (h : name ∈ namesOf cs) :
    '/' ∉ name ∧ '\\' ∉ name ∧ (':' ∉ cs → ':' ∉ name) := by
  refine ⟨fun hc => ?_, fun hc => ?_, fun hcolon hc => ?_⟩
  · simpa using (Text.mem_of_mem_pieces h hc).2
  · exact (mem_slashed (Text.mem_of_mem_pieces h hc).1).1 rfl
  · exact colon_notMem_slashed hcolon (Text.mem_of_mem_pieces h hc).1

/-- The place that is reached from another one by following names. -/
def Place.enter (p : Place) (names : List Name) : Place :=
  { p with names := (names.foldl (follow p.absolute) p.names.reverse).reverse }

/-- A place that a text can be read as: its names are normal, and its drive is a capital letter. -/
structure Place.Regular (p : Place) : Prop where
  drive : ∀ d ∈ p.drive, Text.isAsciiLetter d = true ∧ d.toUpper = d
  normal : Normal p.absolute p.names.reverse

/-- A normal place without a drive whose names have no colon. -/
structure Place.Plain (p : Place) : Prop where
  drive : p.drive = none
  normal : Normal p.absolute p.names.reverse
  colon : ∀ name ∈ p.names, ':' ∉ name

namespace Place

variable {p : Place} {path : String}

/-- What stands behind the drive is read from the root or from the place where relative paths
start. -/
lemma ofText_eq_of_split {drive : Option Char} {rest : List Char}
    (h : splitDrive (slashed path.toList) = (drive, rest)) :
    ofText path = enter ⟨drive, rest.head? = some '/', []⟩ (Text.pieces (· = '/') rest) := by
  rw [ofText, ofChars, h]
  rfl

/-- A text without a colon names no drive. -/
lemma ofText_eq (h : ':' ∉ path.toList) :
    ofText path = enter ⟨none, (slashed path.toList).head? = some '/', []⟩ (namesOf path.toList) :=
  ofText_eq_of_split (splitDrive_of_colon (colon_notMem_slashed h))

lemma exists_splitDrive (cs : List Char) :
    (∃ c rest, cs = c :: ':' :: rest ∧ Text.isAsciiLetter c = true ∧
    splitDrive cs = (some c.toUpper, rest)) ∨ splitDrive cs = (none, cs) := by
  by_cases h : ∃ c rest, cs = c :: ':' :: rest ∧ Text.isAsciiLetter c = true
  · obtain ⟨c, rest, rfl, hc⟩ := h
    exact .inl ⟨c, rest, rfl, hc, splitDrive_letter hc rest⟩
  · refine .inr (splitDrive_none fun c rest hcs => ?_)
    simpa using fun hc => h ⟨c, rest, hcs, hc⟩

lemma regular_enter_start {drive : Option Char} {absolute : Bool} {cs rest : List Char}
    (hdrive : ∀ d ∈ drive, Text.isAsciiLetter d = true ∧ d.toUpper = d)
    (hrest : rest ⊆ slashed cs) :
    (enter ⟨drive, absolute, []⟩ (Text.pieces (· = '/') rest)).Regular := by
  refine ⟨hdrive, ?_⟩
  rw [enter, List.reverse_reverse]
  refine Normal.nil.foldl_follow (fun name hname hc => ?_) fun name hname hc => ?_
  · simpa using (Text.mem_of_mem_pieces hname hc).2
  · exact (mem_slashed (hrest (Text.mem_of_mem_pieces hname hc).1)).1 rfl

/-- Whatever is written in a text, it is read as a normal place. -/
theorem regular_ofText (path : String) : (ofText path).Regular := by
  rcases exists_splitDrive (slashed path.toList) with ⟨c, rest, hcs, hc, hsplit⟩ | hsplit
  · rw [ofText_eq_of_split hsplit]
    refine regular_enter_start ?_ (by rw [hcs]; exact fun d hd => by simp [hd])
    rintro d ⟨⟩
    exact ⟨by rw [Text.isAsciiLetter_toUpper, hc], Char.toUpper_toUpper_eq_toUpper c⟩
  · rw [ofText_eq_of_split hsplit]
    exact regular_enter_start (by simp) (List.Subset.refl _)

lemma enter_plain (hp : p.Plain) (hslash : ∀ name ∈ names, '/' ∉ name)
    (hback : ∀ name ∈ names, '\\' ∉ name) (hcolon : ∀ name ∈ names, ':' ∉ name) :
    (p.enter names).Plain := by
  refine ⟨hp.drive, ?_, fun name hname => ?_⟩
  · rw [enter, List.reverse_reverse]
    exact hp.normal.foldl_follow hslash hback
  · rcases mem_of_mem_foldl_follow (List.mem_reverse.mp hname) with hname | hname
    · exact hp.colon name (List.mem_reverse.mp hname)
    · exact hcolon name hname

lemma plain_start (absolute : Bool) : Plain ⟨none, absolute, []⟩ :=
  ⟨rfl, .nil, by simp⟩

theorem plain_ofText (h : ':' ∉ path.toList) : (ofText path).Plain := by
  rw [ofText_eq h]
  refine enter_plain (plain_start _) ?_ ?_ ?_
  · exact fun name hname => (mem_namesOf hname).1
  · exact fun name hname => (mem_namesOf hname).2.1
  · exact fun name hname => (mem_namesOf hname).2.2 h

lemma isAbsolute_eq (h : ':' ∉ path.toList) :
    isAbsolute path = decide ((slashed path.toList).head? = some '/') := by
  rw [isAbsolute, ofText_eq h, enter]

lemma pieces_joinNames (hne : names ≠ []) (hslash : ∀ name ∈ names, '/' ∉ name) :
    Text.pieces (· = '/') (joinNames names) = names := by
  induction names with
  | nil => exact absurd rfl hne
  | cons name names ih =>
    have hname : ∀ c ∈ name, decide (c = '/') = false := by
      intro c hc
      exact decide_eq_false fun hcut => hslash name List.mem_cons_self (hcut ▸ hc)
    cases names with
    | nil => exact Text.pieces_of_forall hname
    | cons next names =>
      rw [joinNames, Text.pieces_append_cons _ _ (by simp), Text.pieces_of_forall hname,
        ih (by simp) fun other hother => hslash other (List.mem_cons_of_mem _ hother)]
      · rfl
      · simp

lemma joinNames_cons (name : Name) (hne : names ≠ []) :
    joinNames (name :: names) = name ++ '/' :: joinNames names := by
  cases names with
  | nil => exact absurd rfl hne
  | cons next names => rw [joinNames]; simp

lemma mem_joinNames {c : Char} (h : c ∈ joinNames names) : c = '/' ∨ ∃ name ∈ names, c ∈ name := by
  induction names with
  | nil => simp [joinNames] at h
  | cons name names ih =>
    by_cases hne : names = []
    · subst hne
      exact .inr ⟨name, List.mem_cons_self, h⟩
    · rw [joinNames_cons name hne] at h
      rcases List.mem_append.mp h with h | h
      · exact .inr ⟨name, List.mem_cons_self, h⟩
      · rcases List.mem_cons.mp h with rfl | h
        · exact .inl rfl
        · refine (ih h).imp_right fun ⟨other, hother, hc⟩ => ?_
          exact ⟨other, List.mem_cons_of_mem _ hother, hc⟩

lemma joinNames_eq_nil_iff (hproper : ∀ name ∈ names, Proper name) :
    joinNames names = [] ↔ names = [] := by
  cases names with
  | nil => simp [joinNames]
  | cons name names =>
    by_cases hne : names = []
    · subst hne
      simp [joinNames, (hproper name List.mem_cons_self).ne_nil]
    · simp [joinNames_cons name hne]

lemma head?_joinNames (hproper : ∀ name ∈ names, Proper name) :
    (joinNames names).head? ≠ some '/' := by
  cases names with
  | nil => simp [joinNames]
  | cons name names =>
    have hname := hproper name List.mem_cons_self
    have hhead : (joinNames (name :: names)).head? = name.head? := by
      by_cases hne : names = []
      · subst hne
        rfl
      · rw [joinNames_cons name hne, List.head?_append_of_ne_nil _ hname.ne_nil]
    rw [hhead]
    exact fun hslash => hname.slash (List.mem_of_mem_head? hslash)

lemma notMem_joinNames {c : Char} (hc : c ≠ '/') (h : ∀ name ∈ names, c ∉ name) :
    c ∉ joinNames names := by
  intro hin
  rcases mem_joinNames hin with hin | ⟨name, hname, hin⟩
  · exact hc hin
  · exact h name hname hin

lemma namesOf_joinNames (hne : names ≠ []) (hslash : ∀ name ∈ names, '/' ∉ name)
    (hback : ∀ name ∈ names, '\\' ∉ name) : namesOf (joinNames names) = names := by
  rw [namesOf, slashed_eq_self (notMem_joinNames (by decide) hback), pieces_joinNames hne hslash]

/-- Following the names that a joined text is split into is following the names that were joined. -/
lemma foldl_namesOf_joinNames (hproper : ∀ name ∈ names, Proper name) :
    (namesOf (joinNames names)).foldl (follow absolute) passed =
      names.foldl (follow absolute) passed := by
  by_cases hne : names = []
  · subst hne
    exact @follow_skip absolute _ _ (.inl rfl)
  · rw [namesOf_joinNames hne (fun name hname => (hproper name hname).slash)
      fun name hname => (hproper name hname).backslash]

/-- The names of a relative place as a text. -/
def relativeChars (names : List Name) : List Char :=
  if names.isEmpty then ['.'] else joinNames names

lemma foldl_namesOf_relativeChars (hproper : ∀ name ∈ names, Proper name) :
    (namesOf (relativeChars names)).foldl (follow absolute) passed =
      names.foldl (follow absolute) passed := by
  unfold relativeChars
  cases names with
  | nil => exact @follow_skip absolute _ _ (.inr rfl)
  | cons name names => exact foldl_namesOf_joinNames hproper

lemma notMem_relativeChars {c : Char} (hslash : c ≠ '/') (hdot : c ≠ '.')
    (h : ∀ name ∈ names, c ∉ name) : c ∉ relativeChars names := by
  unfold relativeChars
  cases names with
  | nil => simpa using hdot
  | cons name names => exact notMem_joinNames hslash h

lemma joinNames_cons_cons (c : Char) (name : Name) (names : List Name) :
    joinNames ((c :: name) :: names) = c :: joinNames (name :: names) := by
  cases names <;> rfl

/-- A joined text that starts like a drive has a first name that does. -/
lemma exists_of_joinNames_eq {c : Char} {rest : List Char} (hproper : ∀ name ∈ names, Proper name)
    (h : joinNames names = c :: ':' :: rest) : ∃ name, names.head? = some (c :: ':' :: name) := by
  cases names with
  | nil => cases h
  | cons name names =>
    cases name with
    | nil => exact absurd rfl (hproper [] List.mem_cons_self).ne_nil
    | cons d name =>
      rw [joinNames_cons_cons] at h
      obtain ⟨hd, hrest⟩ := List.cons.inj h
      cases name with
      | nil => cases names <;> cases hrest
      | cons e name =>
        rw [joinNames_cons_cons] at hrest
        exact ⟨name, by rw [hd, (List.cons.inj hrest).1]; rfl⟩

lemma Regular.proper (hp : p.Regular) : ∀ name ∈ p.names, Proper name :=
  fun name hname => hp.normal.proper name (List.mem_reverse.mpr hname)

lemma toList_toText_of_none (hp : p.Regular) (hdrive : p.drive = none) :
    p.toText.toList = if p.absolute then '/' :: joinNames p.names else relativeChars p.names := by
  have hnil := joinNames_eq_nil_iff hp.proper
  simp only [toText, String.toList_ofList, toChars, hdrive, List.nil_append, relativeChars]
  cases p.absolute <;> simp [hnil]

lemma toList_toText_of_some {d : Char} (hdrive : p.drive = some d) :
    p.toText.toList = d :: ':' :: if p.absolute then '/' :: joinNames p.names
    else joinNames p.names := by
  simp only [toText, String.toList_ofList, toChars, hdrive]
  cases p.absolute <;> simp

lemma Regular.backslash_notMem (hp : p.Regular) : '\\' ∉ p.toText.toList := by
  have hnames : ∀ name ∈ p.names, '\\' ∉ name := fun name hname => (hp.proper name hname).backslash
  have hjoin := notMem_joinNames (by decide) hnames
  cases hdrive : p.drive with
  | none =>
    rw [toList_toText_of_none hp hdrive]
    split
    · exact List.not_mem_cons_of_ne_of_not_mem (by decide) hjoin
    · exact notMem_relativeChars (by decide) (by decide) hnames
  | some d =>
    have hd : '\\' ≠ d := by
      rintro rfl
      exact absurd (hp.drive _ hdrive).1 (by decide)
    rw [toList_toText_of_some hdrive]
    refine List.not_mem_cons_of_ne_of_not_mem hd (List.not_mem_cons_of_ne_of_not_mem (by decide) ?_)
    split
    · exact List.not_mem_cons_of_ne_of_not_mem (by decide) hjoin
    · exact hjoin

/-- A relative place that is spelled like one on a drive, for its first name is a letter and a colon
before the given name. -/
structure SpelledLikeDrive (p : Place) (letter : Char) (rest : Name) : Prop where
  drive : p.drive = none
  absolute : p.absolute = false
  head : p.names.head? = some (letter :: ':' :: rest)
  isLetter : Text.isAsciiLetter letter = true

/-- The text behind a drive is read as the names that it was made of. -/
lemma enter_joinNames (drive : Option Char) (hnormal : Normal absolute names.reverse) :
    let cs := if absolute then '/' :: joinNames names else joinNames names
    enter ⟨drive, cs.head? = some '/', []⟩ (namesOf cs) = ⟨drive, absolute, names⟩ := by
  have hproper : ∀ name ∈ names, Proper name := fun name hname =>
    hnormal.proper name (List.mem_reverse.mpr hname)
  have hfold := hnormal.foldl_reverse
  rw [List.reverse_reverse] at hfold
  cases absolute with
  | false =>
    have hhead := head?_joinNames hproper
    simp [hhead, enter, foldl_namesOf_joinNames hproper, hfold]
  | true =>
    have hnames : namesOf ('/' :: joinNames names) = [] :: namesOf (joinNames names) :=
      Text.pieces_append_cons [] (slashed (joinNames names)) (by decide)
    simp [hnames, enter, foldl_namesOf_joinNames hproper, hfold, follow_skip]

lemma ofText_letter {letter : Char} {rest : List Char} (hpath : path.toList = letter :: ':' :: rest)
    (hletter : Text.isAsciiLetter letter = true) (hback : '\\' ∉ path.toList) :
    ofText path = enter ⟨some letter.toUpper, rest.head? = some '/', []⟩ (namesOf rest) := by
  have hrest : slashed rest = rest := slashed_eq_self fun hin => hback (by simp [hpath, hin])
  rw [namesOf, hrest]
  refine ofText_eq_of_split ?_
  rw [slashed_eq_self hback, hpath, splitDrive_letter hletter]

/-- What a place that is spelled like one on a drive is taken for. -/
lemma SpelledLikeDrive.ofText_toText {letter : Char} {rest : Name}
    (h : p.SpelledLikeDrive letter rest) (hp : p.Regular) :
    ∃ names, p.names = (letter :: ':' :: rest) :: names ∧
      p.toText.toList = letter :: ':' :: joinNames (rest :: names) ∧
      ofText p.toText =
        enter ⟨some letter.toUpper, (joinNames (rest :: names)).head? = some '/', []⟩
        (namesOf (joinNames (rest :: names))) := by
  obtain ⟨names, hnames⟩ := List.head?_eq_some_iff.mp h.head
  have htext : p.toText.toList = letter :: ':' :: joinNames (rest :: names) := by
    rw [toList_toText_of_none hp h.drive, h.absolute, hnames, relativeChars, if_neg (by decide),
      if_neg (by simp), joinNames_cons_cons, joinNames_cons_cons]
  exact ⟨names, hnames, htext, ofText_letter htext h.isLetter hp.backslash_notMem⟩

lemma splitDrive_toText (hp : p.Regular) (hdrive : p.drive = none)
    (h : ∀ letter rest, ¬ p.SpelledLikeDrive letter rest) :
    splitDrive p.toText.toList = (none, p.toText.toList) := by
  refine splitDrive_none fun c rest hcs => ?_
  rw [toList_toText_of_none hp hdrive] at hcs
  cases habs : p.absolute with
  | true =>
    rw [habs, if_pos rfl] at hcs
    rw [← (List.cons.inj hcs).1]
    decide
  | false =>
    rw [habs, if_neg (by decide), relativeChars] at hcs
    split at hcs
    · cases hcs
    · obtain ⟨name, hhead⟩ := exists_of_joinNames_eq hp.proper hcs
      by_contra hc
      exact h c name ⟨hdrive, habs, hhead, by simpa using hc⟩

lemma ofText_toText_of_none (hp : p.Regular) (hdrive : p.drive = none)
    (h : ∀ letter rest, ¬ p.SpelledLikeDrive letter rest) : ofText p.toText = p := by
  have htext := toList_toText_of_none hp hdrive
  have hslashed := slashed_eq_self hp.backslash_notMem
  have hread : ofText p.toText =
      enter ⟨none, p.toText.toList.head? = some '/', []⟩ (namesOf p.toText.toList) := by
    rw [namesOf, hslashed]
    exact ofText_eq_of_split (by rw [hslashed, splitDrive_toText hp hdrive h])
  have hnormal := hp.normal
  obtain ⟨drive, absolute, names⟩ := p
  obtain rfl : drive = none := hdrive
  rw [hread, htext]
  by_cases hstart : absolute = false ∧ names = []
  · obtain ⟨rfl, rfl⟩ := hstart
    rfl
  · have hchars : (if absolute then '/' :: joinNames names else relativeChars names) =
        if absolute then '/' :: joinNames names else joinNames names := by
      cases absolute with
      | true => rfl
      | false => simpa [relativeChars] using fun hnil => absurd ⟨rfl, hnil⟩ hstart
    simp only [hchars]
    exact enter_joinNames none hnormal

/-- A place is read back from its spelling if and only if it is not spelled like one on a drive. -/
theorem ofText_toText_iff (hp : p.Regular) :
    ofText p.toText = p ↔ ∀ letter rest, ¬ p.SpelledLikeDrive letter rest := by
  constructor
  · intro hback letter rest h
    obtain ⟨names, -, -, hread⟩ := h.ofText_toText hp
    have hdrive := congrArg Place.drive (hback.symm.trans hread)
    rw [h.drive] at hdrive
    cases hdrive
  · intro h
    cases hdrive : p.drive with
    | none => exact ofText_toText_of_none hp hdrive h
    | some d =>
      obtain ⟨hletter, hupper⟩ := hp.drive d hdrive
      rw [ofText_letter (toList_toText_of_some hdrive) hletter hp.backslash_notMem,
        enter_joinNames _ hp.normal, hupper, ← hdrive]

lemma Plain.regular (hp : p.Plain) : p.Regular :=
  ⟨by simp [hp.drive], hp.normal⟩

lemma Plain.proper (hp : p.Plain) : ∀ name ∈ p.names, Proper name :=
  hp.regular.proper

lemma toList_toText (hp : p.Plain) :
    p.toText.toList = if p.absolute then '/' :: joinNames p.names else relativeChars p.names :=
  toList_toText_of_none hp.regular hp.drive

lemma colon_notMem_toText (hp : p.Plain) : ':' ∉ p.toText.toList := by
  rw [toList_toText hp]
  split
  · exact List.not_mem_cons_of_ne_of_not_mem (by decide) (notMem_joinNames (by decide) hp.colon)
  · exact notMem_relativeChars (by decide) (by decide) hp.colon

lemma backslash_notMem_toText (hp : p.Plain) : '\\' ∉ p.toText.toList :=
  hp.regular.backslash_notMem

/-- A plain place is read back from its spelling. -/
theorem ofText_toText (hp : p.Plain) : ofText p.toText = p := by
  refine (ofText_toText_iff hp.regular).mpr fun letter rest h => ?_
  exact hp.colon _ (List.mem_of_mem_head? h.head) (by simp)

end Place

end Path

end SceneExport
