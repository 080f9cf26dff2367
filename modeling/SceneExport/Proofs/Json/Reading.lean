import Mathlib
import SceneExport.Proofs.Json.Numbers
import SceneExport.Proofs.Json.Spelling

/-!
# Written values are read back

The reader takes in the text of every value, in both styles, up to its last character, and finds in
it what was written: the same containers, texts and keys, and for each number what its text is read
as. The proof follows the value. A container is read item by item, and no more steps are needed than
there are characters, twice over.
-/
namespace SceneExport.Json

lemma readQuoted_plain (k : Content) {c : Char} (hquote : c ≠ '"') (hback : c ≠ '\\')
    (hcontrol : ¬ c.toNat < 0x20) (rest : List Char) :
    readQuoted k (c :: rest) = readQuoted (k.push c) rest := by
  rw [readQuoted.eq_def]
  split <;> simp_all

lemma readQuoted_simple (k : Content) {c e : Char} (hu : c ≠ 'u') (he : simpleEscape? c = some e)
    (rest : List Char) : readQuoted k ('\\' :: c :: rest) = readQuoted (k.push e) rest := by
  rw [readQuoted.eq_def]
  split <;> grind

lemma hexUnit?_control {n : Nat} (h : n < 0x20) :
    hexUnit? '0' '0' (Char.ofNat (48 + n / 16))
      (if n % 16 < 10 then Char.ofNat (48 + n % 16) else Char.ofNat (87 + n % 16)) = some n := by
  have hall : ∀ n < 0x20, hexUnit? '0' '0' (Char.ofNat (48 + n / 16))
      (if n % 16 < 10 then Char.ofNat (48 + n % 16) else Char.ofNat (87 + n % 16)) = some n := by
    decide
  exact hall n h

lemma readQuoted_unit (k : Content) {a b : Char} {n : Nat} (h : hexUnit? '0' '0' a b = some n)
    (rest : List Char) :
    readQuoted k ('\\' :: 'u' :: '0' :: '0' :: a :: b :: rest) =
      readQuoted (k.pushUnit n) rest := by
  rw [readQuoted.eq_def]
  simp [h]

/-- An escaped character is read back. -/
lemma readQuoted_escapeChar (k : Content) (c : Char) (rest : List Char) :
    readQuoted k (escapeChar c ++ rest) = readQuoted (k.push c) rest := by
  by_cases hshort : c ∈ ['"', '\\', '\n', '\r', '\t', '\x08', '\x0c']
  · have hescape : ∃ e, escapeChar c = ['\\', e] ∧ e ≠ 'u' ∧ simpleEscape? e = some c := by
      fin_cases hshort
      exacts [⟨'"', by decide⟩, ⟨'\\', by decide⟩, ⟨'n', by decide⟩, ⟨'r', by decide⟩,
        ⟨'t', by decide⟩, ⟨'b', by decide⟩, ⟨'f', by decide⟩]
    obtain ⟨e, hescape, hu, he⟩ := hescape
    rw [hescape]
    exact readQuoted_simple k hu he rest
  simp only [List.mem_cons, List.not_mem_nil, or_false, not_or] at hshort
  obtain ⟨hquote, hback, hline, hreturn, htab, hbackspace, hfeed⟩ := hshort
  simp only [escapeChar, hquote, hback, hline, hreturn, htab, hbackspace, hfeed, if_false]
  by_cases hcontrol : c.toNat < 0x20
  · have hpush : k.pushUnit c.toNat = k.push c := by
      unfold Content.pushUnit
      rw [if_neg (by omega), if_neg (by omega), Char.ofNat_toNat]
    rw [if_pos hcontrol, ← hpush]
    exact readQuoted_unit k (hexUnit?_control hcontrol) rest
  · rw [if_neg hcontrol]
    exact readQuoted_plain k hquote hback hcontrol rest

/-- A text in quotes is read back, whatever follows. -/
theorem readQuoted_quoted (s : String) (rest : List Char) :
    readQuoted .empty (s.toList.flatMap escapeChar ++ '"' :: rest) = .done (some s) rest := by
  have hall : ∀ (cs chars : List Char),
      readQuoted ⟨chars, none, false⟩ (cs.flatMap escapeChar ++ '"' :: rest) =
      .done (some (String.ofList (chars.reverse ++ cs))) rest := by
    intro cs
    induction cs with
    | nil =>
      intro chars
      simp [readQuoted, Content.finish]
    | cons c cs ih =>
      intro chars
      rw [List.flatMap_cons, List.append_assoc, readQuoted_escapeChar]
      exact (ih (c :: chars)).trans (by simp)
  simpa [Content.empty] using hall s.toList []

lemma isPlain_append (cs rest : List Char) :
    isPlain (cs ++ '"' :: rest) = isPlain (cs ++ ['"']) := by
  have htake : (cs ++ '"' :: rest).takeWhile (· ≠ '"') = (cs ++ ['"']).takeWhile (· ≠ '"') := by
    induction cs with
    | nil => simp
    | cons c cs ih => by_cases hc : c = '"' <;> simp_all
  rw [isPlain, isPlain, htake]

/-- A key as it is written: plain unless something in it is escaped. -/
def keyOf (key : String) : MemberKey :=
  ⟨some key, isPlain (key.toList.flatMap escapeChar ++ ['"'])⟩

mutual

/-- What the text of a value is read as. -/
def reread : Json → Tree
  | .null => .null
  | .bool b => .bool b
  | .number n => n.reread
  | .text s => .text (some s)
  | .list items => .list (rereadItems items) none
  | .object members => .object (rereadMembers members) none

def rereadItems : List Json → List Tree
  | [] => []
  | item :: items => reread item :: rereadItems items

def rereadMembers : List (String × Json) → List (MemberKey × Tree)
  | [] => []
  | (key, value) :: members => (keyOf key, reread value) :: rereadMembers members

end

lemma rereadItems_eq_map (items : List Json) : rereadItems items = items.map reread := by
  induction items with
  | nil => rfl
  | cons item items ih => rw [rereadItems, ih, List.map_cons]

lemma rereadMembers_eq_map (members : List (String × Json)) :
    rereadMembers members = members.map fun m => (keyOf m.1, reread m.2) := by
  induction members with
  | nil => rfl
  | cons m members ih => rw [rereadMembers, ih, List.map_cons]

lemma skipSpace_line (style : Style) (depth : Nat) {c : Char} (hc : isSpace c = false)
    (cs : List Char) : skipSpace (style.line depth ++ c :: cs) = c :: cs := by
  have hblank : ∀ d ∈ style.line depth, isSpace d = true := by
    intro d hd
    cases style with
    | compact => cases hd
    | wide =>
      rcases List.mem_cons.1 hd with rfl | hd
      · rfl
      · exact (List.mem_replicate.1 hd).2 ▸ rfl
  rw [skipSpace, List.dropWhile_append_of_pos hblank, List.dropWhile_cons_of_neg (by simp [hc])]

lemma exists_cons_spell (style : Style) (depth : Nat) (v : Json) :
    ∃ c cs, spell style depth v = c :: cs ∧ isSpace c = false ∧ c ≠ ']' := by
  match v with
  | .null => exact ⟨'n', ['u', 'l', 'l'], rfl, by decide, by decide⟩
  | .bool true => exact ⟨'t', ['r', 'u', 'e'], rfl, by decide, by decide⟩
  | .bool false => exact ⟨'f', ['a', 'l', 's', 'e'], rfl, by decide, by decide⟩
  | .number n => exact n.exists_cons_toText
  | .text s => exact ⟨'"', _, rfl, by decide, by decide⟩
  | .list [] => exact ⟨'[', _, rfl, by decide, by decide⟩
  | .list (_ :: _) =>
    exact ⟨'[', _, by rw [spell, List.cons_append, List.cons_append], by decide, by decide⟩
  | .object [] => exact ⟨'{', _, rfl, by decide, by decide⟩
  | .object (_ :: _) =>
    exact ⟨'{', _, by rw [spell, List.cons_append, List.cons_append], by decide, by decide⟩

lemma ends_line (style : Style) (depth : Nat) {c : Char} (hc : c ∈ [']', '}']) (rest : List Char) :
    Ends (style.line depth ++ c :: rest) := by
  cases style with
  | compact => fin_cases hc <;> exact fun d hd => Option.some.inj hd ▸ by decide
  | wide => exact fun d hd => Option.some.inj hd ▸ by decide

lemma ends_comma (rest : List Char) : Ends (',' :: rest) :=
  fun d hd => Option.some.inj hd ▸ by decide

/-- The value is read back wherever it is written, with twice as many steps as it has characters. -/
def Reads (v : Json) : Prop :=
  ∀ style depth fuel rest, 2 * (spell style depth v).length ≤ fuel → Ends rest →
    readValue fuel (spell style depth v ++ rest) = (reread v, some rest)

lemma length_spell_pos (style : Style) (depth : Nat) (v : Json) :
    0 < (spell style depth v).length := by
  obtain ⟨c, cs, hspell, -, -⟩ := exists_cons_spell style depth v
  rw [hspell]
  exact Nat.succ_pos _

lemma reads_of_readScalar {v : Json}
    (h : ∀ style depth, ∃ c cs, spell style depth v = c :: cs ∧ isSpace c = false ∧ c ≠ '[' ∧
      c ≠ '{' ∧ ∀ rest, readScalar c (cs ++ rest) = (reread v, some rest)) :
    Reads v := by
  intro style depth fuel rest hfuel _
  obtain ⟨c, cs, hspell, hspace, hlist, hobject, hread⟩ := h style depth
  rw [hspell] at hfuel ⊢
  obtain ⟨fuel, rfl⟩ := Nat.exists_eq_add_of_lt (show 0 < fuel by simp at hfuel; omega)
  rw [List.cons_append, Nat.zero_add, readValue_scalar _ _ hspace hlist hobject, hread]

lemma reads_null : Reads .null :=
  reads_of_readScalar fun _ _ =>
    ⟨'n', ['u', 'l', 'l'], rfl, by decide, by decide, by decide, fun _ => rfl⟩

lemma reads_bool : (b : Bool) → Reads (.bool b)
  | true => reads_of_readScalar fun _ _ =>
    ⟨'t', ['r', 'u', 'e'], rfl, by decide, by decide, by decide, fun _ => rfl⟩
  | false => reads_of_readScalar fun _ _ =>
    ⟨'f', ['a', 'l', 's', 'e'], rfl, by decide, by decide, by decide, fun _ => rfl⟩

lemma reads_text (s : String) : Reads (.text s) := by
  refine reads_of_readScalar fun _ _ =>
    ⟨'"', s.toList.flatMap escapeChar ++ ['"'],
      by rw [spell, quoted, List.cons_append], by decide, by decide, by decide, fun rest => ?_⟩
  rw [List.append_assoc, List.singleton_append, readScalar, if_pos rfl, readQuoted_quoted, reread]

lemma reads_number (n : Number) : Reads (.number n) := by
  intro style depth fuel rest hfuel hrest
  have hpos := length_spell_pos style depth (.number n)
  obtain ⟨fuel, rfl⟩ := Nat.exists_eq_add_of_lt (show 0 < fuel by omega)
  rw [spell, Nat.zero_add, n.readValue_toText hrest, reread]

/-- The items of a list from the start of an item on. The steps are bounded by the characters that
are left. -/
lemma readItems_spell (style : Style) (depth outer : Nat) (rest : List Char) {items : List Json}
    (hitems : ∀ v ∈ items, Reads v) {item : Json} (hitem : Reads item) (done : List Tree)
    (fuel : Nat)
    (hfuel : 2 * ((spell style depth item).length +
      (spellItems style depth false items).length) + 1 ≤ fuel) :
    readItems fuel done (spell style depth item ++
      (spellItems style depth false items ++ (style.line outer ++ ']' :: rest))) =
        (.list (done.reverse ++ (item :: items).map reread) none, some rest) := by
  induction items generalizing item done fuel with
  | nil =>
    obtain ⟨fuel, rfl⟩ := Nat.exists_eq_add_of_lt (show 0 < fuel by omega)
    rw [Nat.zero_add, readItems, spellItems, List.nil_append,
      hitem style depth fuel _ (by omega) (ends_line style outer (by decide) rest)]
    simp only [skipSpace_line style outer (show isSpace ']' = false by decide)]
    simp
  | cons next items ih =>
    obtain ⟨fuel, rfl⟩ := Nat.exists_eq_add_of_lt (show 0 < fuel by omega)
    have hpos := length_spell_pos style depth item
    have hnext : spellItems style depth false (next :: items) ++ (style.line outer ++ ']' :: rest) =
        ',' :: (style.line depth ++ (spell style depth next ++
          (spellItems style depth false items ++ (style.line outer ++ ']' :: rest)))) := by
      simp [spellItems]
    have hlength : (spellItems style depth false (next :: items)).length =
        1 + (style.line depth).length + (spell style depth next).length +
          (spellItems style depth false items).length := by
      simp [spellItems]
      omega
    have htail :=
      ih (fun v hv => hitems v (List.mem_cons_of_mem _ hv)) (hitems next List.mem_cons_self)
      (reread item :: done) fuel (by omega)
    rw [Nat.zero_add, readItems, hnext, hitem style depth fuel _ (by omega) (ends_comma _)]
    obtain ⟨c, cs, hspell, hspace, hbracket⟩ := exists_cons_spell style depth next
    simp only [skipSpace, List.dropWhile_cons_of_neg (show ¬ isSpace ',' = true by decide)]
    rw [hspell] at htail ⊢
    rw [List.cons_append] at htail ⊢
    have hskip := skipSpace_line style depth hspace
      (cs ++ (spellItems style depth false items ++ (style.line outer ++ ']' :: rest)))
    rw [skipSpace] at hskip
    rw [hskip]
    split
    · exact absurd ‹_› (by simp)
    · exact absurd (List.cons.inj ‹_›).1 hbracket
    · rw [htail]
      simp

lemma readValue_space (fuel : Nat) {c : Char} (hc : isSpace c = true) (cs : List Char) :
    readValue fuel (c :: cs) = readValue fuel cs := by
  cases fuel with
  | zero => rw [readValue, readValue]
  | succ fuel => rw [readValue, readValue, skipSpace, List.dropWhile_cons_of_pos hc, ← skipSpace]

/-- The value of a member, from the colon on. -/
lemma exists_colon (style : Style) (cs : List Char) :
    ∃ after, style.colon.toList ++ cs = ':' :: after ∧ ∀ fuel,
    readValue fuel after = readValue fuel cs := by
  cases style with
  | compact => exact ⟨cs, rfl, fun _ => rfl⟩
  | wide => exact ⟨' ' :: cs, rfl, fun fuel => readValue_space fuel rfl cs⟩

/-- One member is read, and the object ends there or goes on with the next key. -/
lemma readMembers_member (style : Style) (depth : Nat) (key : String) {value : Json}
    (hvalue : Reads value) (done : List (MemberKey × Tree)) {fuel : Nat}
    (hfuel : 2 * (spell style depth value).length ≤ fuel) {tail : List Char} (htail : Ends tail) :
    (∀ rest, skipSpace tail = '}' :: rest →
      readMembers (fuel + 1) done
        (quoted key ++ (style.colon.toList ++ (spell style depth value ++ tail))) =
        (.object ((keyOf key, reread value) :: done).reverse none, some rest)) ∧
    (∀ more c cs, skipSpace tail = ',' :: more → skipSpace more = c :: cs →
      readMembers (fuel + 1) done
        (quoted key ++ (style.colon.toList ++ (spell style depth value ++ tail))) =
        readMembers fuel ((keyOf key, reread value) :: done) (c :: cs)) := by
  obtain ⟨after, hcolon, hread⟩ := exists_colon style (spell style depth value ++ tail)
  have hvalue := (hread fuel).trans (hvalue style depth fuel tail hfuel htail)
  have hskip : skipSpace (':' :: after) = ':' :: after := rfl
  have hquoted : quoted key ++ ':' :: after =
      '"' :: (key.toList.flatMap escapeChar ++ '"' :: ':' :: after) := by
    simp [quoted]
  rw [hcolon, hquoted, readMembers]
  simp only [readQuoted_quoted, hskip, hvalue, isPlain_append _ (':' :: after)]
  refine ⟨fun rest hrest => ?_, fun more c cs hmore hnext => ?_⟩
  · simp only [hrest, keyOf]
  · simp only [hmore, hnext, keyOf]

/-- The members of an object from the start of a key on. -/
lemma readMembers_spell (style : Style) (depth outer : Nat) (rest : List Char)
    {members : List (String × Json)} (hmembers : ∀ m ∈ members, Reads m.2) (key : String)
    {value : Json} (hvalue : Reads value) (done : List (MemberKey × Tree)) (fuel : Nat)
    (hfuel : 2 * ((spell style depth value).length +
      (spellMembers style depth false members).length) + 1 ≤ fuel) :
    readMembers fuel done (quoted key ++ (style.colon.toList ++ (spell style depth value ++
      (spellMembers style depth false members ++ (style.line outer ++ '}' :: rest))))) =
        (.object (done.reverse ++ ((key, value) :: members).map fun m =>
          (keyOf m.1, reread m.2)) none, some rest) := by
  induction members generalizing key value done fuel with
  | nil =>
    obtain ⟨fuel, rfl⟩ := Nat.exists_eq_add_of_lt (show 0 < fuel by omega)
    rw [spellMembers, List.nil_append, Nat.zero_add,
      (readMembers_member style depth key hvalue done (by omega)
      (ends_line style outer (by decide) rest)).1 rest
      (skipSpace_line style outer (by decide) rest)]
    simp
  | cons m members ih =>
    obtain ⟨next, nextValue⟩ := m
    obtain ⟨fuel, rfl⟩ := Nat.exists_eq_add_of_lt (show 0 < fuel by omega)
    have hpos := length_spell_pos style depth value
    have hnext : spellMembers style depth false ((next, nextValue) :: members) ++
        (style.line outer ++ '}' :: rest) =
        ',' :: (style.line depth ++
          (quoted next ++ (style.colon.toList ++ (spell style depth nextValue ++
            (spellMembers style depth false members ++ (style.line outer ++ '}' :: rest)))))) := by
      simp [spellMembers]
    have hlength : (spell style depth nextValue).length +
        (spellMembers style depth false members).length + 1 ≤
        (spellMembers style depth false ((next, nextValue) :: members)).length := by
      simp [spellMembers]
      omega
    have hnextValue : Reads nextValue := hmembers (next, nextValue) List.mem_cons_self
    have htail := ih (fun m hm => hmembers m (List.mem_cons_of_mem _ hm)) next hnextValue
      ((keyOf key, reread value) :: done) fuel (by omega)
    rw [hnext, Nat.zero_add]
    refine ((readMembers_member style depth key hvalue done (by omega) (ends_comma _)).2 _ '"' _ rfl
      (skipSpace_line style depth (by decide) _)).trans (htail.trans ?_)
    simp

lemma readValue_open_list (fuel : Nat) {c : Char} {cs ds : List Char}
    (hskip : skipSpace cs = c :: ds) (hc : c ≠ ']') :
    readValue (fuel + 1) ('[' :: cs) = readItems fuel [] (c :: ds) := by
  have hopen : skipSpace ('[' :: cs) = '[' :: cs := rfl
  rw [readValue]
  simp only [hopen, hskip]
  split
  · exact absurd ‹_› (by simp)
  · exact absurd (List.cons.inj ‹_›).1 hc
  · rfl

lemma readValue_open_object (fuel : Nat) {cs ds : List Char} (hskip : skipSpace cs = '"' :: ds) :
    readValue (fuel + 1) ('{' :: cs) = readMembers fuel [] ('"' :: ds) := by
  have hopen : skipSpace ('{' :: cs) = '{' :: cs := rfl
  rw [readValue]
  simp only [hopen, hskip]
  split
  · exact absurd ‹_› (by simp)
  · exact absurd (List.cons.inj ‹_›).1 (by decide)
  · rfl

lemma reads_list {items : List Json} (h : ∀ v ∈ items, Reads v) : Reads (.list items) := by
  intro style depth fuel rest hfuel _
  have hpos := length_spell_pos style depth (.list items)
  obtain ⟨fuel, rfl⟩ := Nat.exists_eq_add_of_lt (show 0 < fuel by omega)
  rw [Nat.zero_add] at hfuel ⊢
  match items with
  | [] => rfl
  | item :: items =>
    have hspell : spell style depth (.list (item :: items)) ++ rest =
        '[' :: (style.line (depth + 1) ++ (spell style (depth + 1) item ++
          (spellItems style (depth + 1) false items ++ (style.line depth ++ ']' :: rest)))) := by
      simp [spell, spellItems]
    have hlength : (spell style (depth + 1) item).length +
        (spellItems style (depth + 1) false items).length + 2 ≤
        (spell style depth (.list (item :: items))).length := by
      simp [spell, spellItems]
      omega
    have hitems :=
      readItems_spell style (depth + 1) depth rest (fun v hv => h v (List.mem_cons_of_mem _ hv))
      (h item List.mem_cons_self) [] fuel (by omega)
    obtain ⟨c, cs, hitem, hspace, hbracket⟩ := exists_cons_spell style (depth + 1) item
    rw [hitem, List.cons_append] at hitems hspell
    rw [hspell, readValue_open_list fuel (skipSpace_line style _ hspace _) hbracket]
    exact hitems.trans (by rw [reread, rereadItems_eq_map, List.reverse_nil, List.nil_append])

lemma reads_object {members : List (String × Json)} (h : ∀ m ∈ members, Reads m.2) :
    Reads (.object members) := by
  intro style depth fuel rest hfuel _
  have hpos := length_spell_pos style depth (.object members)
  obtain ⟨fuel, rfl⟩ := Nat.exists_eq_add_of_lt (show 0 < fuel by omega)
  rw [Nat.zero_add] at hfuel ⊢
  match members with
  | [] => rfl
  | (key, value) :: members =>
    have hspell : spell style depth (.object ((key, value) :: members)) ++ rest =
        '{' :: (style.line (depth + 1) ++
          (quoted key ++ (style.colon.toList ++ (spell style (depth + 1) value ++
            (spellMembers style (depth + 1) false members ++
              (style.line depth ++ '}' :: rest)))))) := by
      simp [spell, spellMembers]
    have hlength : (spell style (depth + 1) value).length +
        (spellMembers style (depth + 1) false members).length +
        2 ≤ (spell style depth (.object ((key, value) :: members))).length := by
      simp [spell, spellMembers]
      omega
    have hvalue : Reads value := h (key, value) List.mem_cons_self
    have hmembers :=
      readMembers_spell style (depth + 1) depth rest (fun m hm => h m (List.mem_cons_of_mem _ hm))
      key hvalue [] fuel (by omega)
    rw [hspell]
    refine (readValue_open_object fuel (skipSpace_line style _ (by decide) _)).trans
      (hmembers.trans ?_)
    rw [reread, rereadMembers_eq_map, List.reverse_nil, List.nil_append]

mutual

/-- Every value is read back. -/
theorem reads : (v : Json) → Reads v
  | .null => reads_null
  | .bool b => reads_bool b
  | .number n => reads_number n
  | .text s => reads_text s
  | .list items => reads_list (reads_items items)
  | .object members => reads_object (reads_members members)

theorem reads_items : (items : List Json) → ∀ v ∈ items, Reads v
  | [] => fun _ hv => nomatch hv
  | item :: items => List.forall_mem_cons.2 ⟨reads item, reads_items items⟩

theorem reads_members : (members : List (String × Json)) → ∀ m ∈ members, Reads m.2
  | [] => fun _ hm => nomatch hm
  | (_, value) :: members => List.forall_mem_cons.2 ⟨reads value, reads_members members⟩

end

/-- A written document holds its value and nothing behind it. -/
theorem ofText_render (style : Style) (v : Json) :
    Document.ofText (v.render style) = ⟨v.reread, false⟩ := by
  have hread :=
    reads v style 0 (2 * (spell style 0 v).length + 2) [] (by omega) (fun _ h => nomatch h)
  rw [List.append_nil] at hread
  rw [Document.ofText, toList_render, hread]
  rfl

mutual

/-- What was written can be skipped. -/
theorem skip_reread : (v : Json) → v.reread.skip = .ok ()
  | .null | .bool _ | .text _ => rfl
  | .number n => n.skip_reread
  | .list items => by
    rw [reread, Tree.skip, skipItems_reread items]
    rfl
  | .object members => by
    rw [reread, Tree.skip, skipMembers_reread members]
    rfl

theorem skipItems_reread : (items : List Json) → Tree.skipItems (rereadItems items) = .ok ()
  | [] => rfl
  | item :: items => by
    rw [rereadItems, Tree.skipItems, skip_reread item]
    exact skipItems_reread items

theorem skipMembers_reread :
    (members : List (String × Json)) → Tree.skipMembers (rereadMembers members) = .ok ()
  | [] => rfl
  | (_, value) :: members => by
    rw [rereadMembers, Tree.skipMembers, skip_reread value]
    exact skipMembers_reread members

end

end SceneExport.Json
