import Mathlib
import SceneExport.Template

/-!
# The grammar of templates

A template is a sequence of tokens: characters, doubled dollar signs, and placeholders in two
spellings. The name in a bare placeholder goes on for as long as it can, so whether a token may
stand somewhere depends on what follows it. A template is filled in exactly when it can be read as
tokens to its end and each name has a value. Otherwise it can be read up to a dollar sign that
starts no such token, and what is wrong there is the error.
-/
namespace SceneExport.Template

variable {values : List (String × String)}

/-- A name that a placeholder can have. -/
inductive Identifier : List Char → Prop
  | mk {c : Char} {cs : List Char} : startsName c = true → (∀ d ∈ cs, continuesName d = true) →
    Identifier (c :: cs)

/-- No name goes on in the text. -/
def NoName (rest : List Char) : Prop :=
  ∀ c ∈ rest.head?, continuesName c = false

inductive Token where
  /-- A character that is no dollar sign. -/
  | char (c : Char)
  /-- A dollar sign, written twice. -/
  | dollar
  | bare (name : List Char)
  | braced (name : List Char)

namespace Token

def spelling : Token → List Char
  | char c => [c]
  | dollar => ['$', '$']
  | bare name => '$' :: name
  | braced name => '$' :: '{' :: (name ++ ['}'])

/-- The token may stand before the rest of a template. -/
def Stands (rest : List Char) : Token → Prop
  | char c => c ≠ '$'
  | dollar => True
  | bare name => Identifier name ∧ NoName rest
  | braced name => Identifier name

/-- What is put in the place of a token. -/
def value? (values : List (String × String)) : Token → Option String
  | char c => some (String.singleton c)
  | dollar => some "$"
  | bare name | braced name => values.lookup (String.ofList name)

end Token

/-- The text is read as tokens up to a rest. -/
inductive Reads : List Char → List Token → List Char → Prop
  | done (rest : List Char) : Reads rest [] rest
  | next {token : Token} {tokens : List Token} {cs rest : List Char} :
    token.Stands cs → Reads cs tokens rest → Reads (token.spelling ++ cs) (token :: tokens) rest

/-- Each token has its piece of the text that a template is filled in to. -/
def Filled (values : List (String × String)) (tokens : List Token) (pieces : List String) : Prop :=
  List.Forall₂ (fun token piece => token.value? values = some piece) tokens pieces

/-- What is wrong with a dollar sign on a line, from the text behind it. -/
inductive Offends (values : List (String × String)) (line : Nat) : List Char → Error → Prop
  | unterminated {rest : List Char} :
      '}' ∉ rest → Offends values line ('{' :: rest) (.unterminated line)
  | invalidBraced {name rest : List Char} : '}' ∉ name → ¬ Identifier name →
    Offends values line ('{' :: (name ++ '}' :: rest)) (.invalid line)
  | invalidBare {rest : List Char} : (∀ c ∈ rest.head?, c ≠ '$' ∧ c ≠ '{' ∧ startsName c = false) →
    Offends values line rest (.invalid line)
  | unboundBraced {name rest : List Char} :
      Identifier name → values.lookup (String.ofList name) = none →
    Offends values line ('{' :: (name ++ '}' :: rest)) (.unbound (String.ofList name))
  | unboundBare {name rest : List Char} : Identifier name → NoName rest →
    values.lookup (String.ofList name) = none →
    Offends values line (name ++ rest) (.unbound (String.ofList name))

variable {name rest cs : List Char} {out piece : String} {line : Nat}

lemma isName_iff : isName name = true ↔ Identifier name := by
  cases name with
  | nil => exact ⟨fun h => by simp [isName] at h, by rintro ⟨⟩⟩
  | cons c cs =>
    have hstart : startsName c = true → continuesName c = true := fun h => by
      simp [continuesName, h]
    have hall : isName (c :: cs) = true ↔ startsName c = true ∧ ∀ d ∈ cs,
        continuesName d = true := by
      simp only [isName, List.head?_cons, Option.map_some, Option.getD_some, Bool.and_eq_true,
        List.all_eq_true, List.forall_mem_cons]
      exact ⟨fun h => ⟨h.1, h.2.2⟩, fun h => ⟨h.1, hstart h.1, h.2⟩⟩
    rw [hall]
    constructor
    · rintro ⟨hc, hcs⟩
      exact .mk hc hcs
    · rintro ⟨hc, hcs⟩
      exact ⟨hc, hcs⟩

namespace Identifier

lemma continues (h : Identifier name) : ∀ c ∈ name, continuesName c = true := by
  obtain ⟨hc, hcs⟩ := h
  exact List.forall_mem_cons.mpr ⟨by simp [continuesName, hc], hcs⟩

lemma notMem (h : Identifier name) {c : Char} (hc : continuesName c = false) : c ∉ name := by
  intro hmem
  rw [h.continues c hmem] at hc
  cases hc

lemma head?_append (h : Identifier name) (rest : List Char) {c : Char} (hc : startsName c = false) :
    (name ++ rest).head? ≠ some c := by
  obtain ⟨hstart, -⟩ := h
  rintro ⟨⟩
  rw [hstart] at hc
  cases hc

end Identifier

lemma ne_brace_of_notMem (h : '}' ∉ name) : ∀ c ∈ name, decide (c ≠ '}') = true := by
  intro c hc
  refine decide_eq_true ?_
  rintro rfl
  exact h hc

lemma placeholder?_braced (h : '}' ∉ name) :
    placeholder? ('{' :: (name ++ '}' :: rest)) = some (name, name.length + 2) := by
  have hname : (name ++ '}' :: rest).takeWhile (· ≠ '}') = name := by
    rw [List.takeWhile_append_of_pos (ne_brace_of_notMem h)]
    simp
  unfold placeholder?
  simp only [hname]
  simp

lemma placeholder?_unterminated (h : '}' ∉ rest) : placeholder? ('{' :: rest) = none := by
  have hname : rest.takeWhile (· ≠ '}') = rest :=
    List.takeWhile_eq_self_iff.mpr (ne_brace_of_notMem h)
  unfold placeholder?
  simp only [hname]
  simp

lemma placeholder?_bare (h : cs.head? ≠ some '{') :
    placeholder? cs = some (cs.takeWhile continuesName, (cs.takeWhile continuesName).length) := by
  unfold placeholder?
  split
  · simp at h
  · rfl

lemma takeWhile_name (hname : ∀ c ∈ name, continuesName c = true) (hrest : NoName rest) :
    (name ++ rest).takeWhile continuesName = name := by
  rw [List.takeWhile_append_of_pos hname]
  cases rest with
  | nil => simp
  | cons c rest => simp [hrest c rfl]

lemma fillFrom_skip (cs skipped : List Char) :
    fillFrom values out line skipped.length (skipped ++ cs) =
    fillFrom values out (line + skipped.count '\n') 0 cs := by
  induction skipped generalizing line with
  | nil => rfl
  | cons c skipped ih =>
    rw [List.length_cons, List.cons_append, fillFrom, ih, List.count_cons]
    congr 1
    by_cases hline : c = '\n' <;> simp [hline]
    omega

lemma fillFrom_placeholder {width : Nat} (hhead : rest.head? ≠ some '$')
    (hplace : placeholder? rest = some (name, width)) :
    fillFrom values out line 0 ('$' :: rest) =
      if isName name then (values.lookup (String.ofList name)).elim
        (.error (.unbound (String.ofList name)))
        fun value => fillFrom values (out ++ value) line width rest
      else .error (.invalid line) := by
  rw [fillFrom]
  · simp only [hplace]
    cases values.lookup (String.ofList name) <;> rfl
  · rintro rest' rfl
    simp at hhead

lemma fillFrom_bound {width : Nat} (hhead : rest.head? ≠ some '$')
    (hplace : placeholder? rest = some (name, width)) (hname : Identifier name)
    (hvalue : values.lookup (String.ofList name) = some piece) :
    fillFrom values out line 0 ('$' :: rest) = fillFrom values (out ++ piece) line width rest := by
  rw [fillFrom_placeholder hhead hplace, if_pos (isName_iff.mpr hname), hvalue, Option.elim_some]

/-- A token is replaced, and the rest of the template is filled in behind it. -/
lemma fillFrom_token {token : Token} (hstands : token.Stands cs)
    (hvalue : token.value? values = some piece) :
    fillFrom values out line 0 (token.spelling ++ cs) =
      fillFrom values (out ++ piece) (line + token.spelling.count '\n') 0 cs := by
  cases token with
  | char c =>
    obtain rfl := Option.some.inj hvalue
    have hc : c ≠ '$' := hstands
    rw [Token.spelling, List.singleton_append, fillFrom, String.push_eq_append]
    · by_cases hline : c = '\n' <;> simp [hline]
    · exact fun _ heq _ => hc heq
    · exact hc
  | dollar =>
    obtain rfl := Option.some.inj hvalue
    rw [Token.spelling]
    change fillFrom values out line 0 ('$' :: '$' :: cs) = _
    rw [fillFrom]
    rfl
  | bare name =>
    obtain ⟨hname, hrest⟩ := hstands
    have hplace := placeholder?_bare (hname.head?_append cs (c := '{') (by decide))
    rw [takeWhile_name hname.continues hrest] at hplace
    rw [Token.spelling, List.cons_append,
      fillFrom_bound (hname.head?_append cs (by decide)) hplace hname hvalue, fillFrom_skip,
      List.count_cons]
    rfl
  | braced name =>
    have hname : Identifier name := hstands
    have hplace : placeholder? ('{' :: (name ++ '}' :: cs)) = some (name, name.length + 2) :=
      placeholder?_braced (hname.notMem (by decide))
    have hwidth : name.length + 2 = ('{' :: (name ++ ['}'])).length := by simp
    have hspelling : '{' :: (name ++ '}' :: cs) = '{' :: (name ++ ['}']) ++ cs := by simp
    have hskip : fillFrom values (out ++ piece) line (name.length + 2)
        ('{' :: (name ++ '}' :: cs)) =
        fillFrom values (out ++ piece) (line + ('{' :: (name ++ ['}'])).count '\n') 0 cs := by
      rw [hwidth, hspelling, fillFrom_skip]
    rw [Token.spelling, List.cons_append, ← hspelling, fillFrom_bound (by simp) hplace hname hvalue,
      hskip, List.count_cons]
    rfl

lemma Reads.eq_append {tokens : List Token} (h : Reads cs tokens rest) :
    cs = tokens.flatMap Token.spelling ++ rest := by
  induction h with
  | done rest => rfl
  | next _ _ ih => rw [List.flatMap_cons, List.append_assoc, ← ih]

/-- Tokens that have values are replaced, and the rest of the template is filled in behind them. -/
lemma fillFrom_reads {tokens : List Token} {pieces : List String} (hreads : Reads cs tokens rest)
    (hfilled : Filled values tokens pieces) :
    fillFrom values out line 0 cs =
      fillFrom values (out ++ String.join pieces)
        (line + (tokens.flatMap Token.spelling).count '\n') 0 rest := by
  induction hreads generalizing out line pieces with
  | done rest =>
    cases hfilled
    simp
  | next hstands _ ih =>
    cases hfilled with
    | cons hvalue hfilled =>
      rw [fillFrom_token hstands hvalue, ih hfilled, String.join_cons, String.append_assoc,
        List.flatMap_cons, List.count_append, Nat.add_assoc]

lemma not_identifier_takeWhile (h : ∀ c ∈ rest.head?, startsName c = false) :
    ¬ Identifier (rest.takeWhile continuesName) := by
  cases rest with
  | nil => rintro ⟨⟩
  | cons c rest =>
    intro hname
    generalize htake : (c :: rest).takeWhile continuesName = name at hname
    obtain ⟨hstart, -⟩ := hname
    rw [List.takeWhile_cons] at htake
    split at htake
    · obtain ⟨rfl, -⟩ := List.cons.inj htake
      rw [h c rfl] at hstart
      cases hstart
    · cases htake

lemma fillFrom_offends {e : Error} (h : Offends values line rest e) :
    fillFrom values out line 0 ('$' :: rest) = .error e := by
  cases h with
  | unterminated hbrace =>
    rw [fillFrom]
    · simp only [placeholder?_unterminated hbrace]
    · rintro rest' ⟨⟩
  | invalidBraced hbrace hname =>
    rw [fillFrom_placeholder (by simp) (placeholder?_braced hbrace),
      if_neg (mt isName_iff.mp hname)]
  | invalidBare hhead =>
    have hdollar : rest.head? ≠ some '$' := fun heq => (hhead '$' heq).1 rfl
    have hbrace : rest.head? ≠ some '{' := fun heq => (hhead '{' heq).2.1 rfl
    have hname := not_identifier_takeWhile fun c hc => (hhead c hc).2.2
    rw [fillFrom_placeholder hdollar (placeholder?_bare hbrace), if_neg (mt isName_iff.mp hname)]
  | unboundBraced hname hvalue =>
    rw [fillFrom_placeholder (by simp) (placeholder?_braced (hname.notMem (by decide))),
      if_pos (isName_iff.mpr hname), hvalue, Option.elim_none]
  | @unboundBare name rest hname hrest hvalue =>
    have hplace := placeholder?_bare (hname.head?_append rest (c := '{') (by decide))
    rw [takeWhile_name hname.continues hrest] at hplace
    rw [fillFrom_placeholder (hname.head?_append rest (by decide)) hplace,
      if_pos (isName_iff.mpr hname), hvalue, Option.elim_none]

/-- The text is at its end, or at a dollar sign that something is wrong with. -/
def Stops (values : List (String × String)) (cs : List Char) : Prop :=
  cs = [] ∨ ∃ rest, cs = '$' :: rest ∧ ∀ line, ∃ e, Offends values line rest e

/-- The text starts with a token that has a value. -/
def Proceeds (values : List (String × String)) (cs : List Char) : Prop :=
  ∃ token : Token, ∃ piece rest, cs = token.spelling ++ rest ∧ token.Stands rest ∧
    token.value? values = some piece

lemma proceeds_or_stops_brace (values : List (String × String)) (rest : List Char) :
    Proceeds values ('$' :: '{' :: rest) ∨ Stops values ('$' :: '{' :: rest) := by
  by_cases hclosed : '}' ∈ rest
  · obtain ⟨name, rest, rfl, hname⟩ := List.eq_append_cons_of_mem hclosed
    by_cases hidentifier : Identifier name
    · cases hvalue : values.lookup (String.ofList name) with
      | some piece =>
        exact .inl ⟨.braced name, piece, rest, by simp [Token.spelling], hidentifier, hvalue⟩
      | none => exact .inr (.inr ⟨_, rfl, fun _ => ⟨_, .unboundBraced hidentifier hvalue⟩⟩)
    · exact .inr (.inr ⟨_, rfl, fun _ => ⟨_, .invalidBraced hname hidentifier⟩⟩)
  · exact .inr (.inr ⟨_, rfl, fun _ => ⟨_, .unterminated hclosed⟩⟩)

lemma proceeds_or_stops_name (values : List (String × String)) {c : Char}
    (hstart : startsName c = true) (rest : List Char) :
    Proceeds values ('$' :: c :: rest) ∨ Stops values ('$' :: c :: rest) := by
  -- the name is the longest one
  set name := c :: rest.takeWhile continuesName with hname
  have hidentifier : Identifier name := .mk hstart fun d hd => List.mem_takeWhile_imp hd
  have hrest : NoName (rest.dropWhile continuesName) := by
    intro d hd
    simpa [Option.mem_def.mp hd] using List.head?_dropWhile_not continuesName rest
  have hsplit : c :: rest = name ++ rest.dropWhile continuesName := by
    rw [hname, List.cons_append, List.takeWhile_append_dropWhile]
  rw [hsplit]
  cases hvalue : values.lookup (String.ofList name) with
  | some piece => exact .inl ⟨.bare name, piece, _, rfl, ⟨hidentifier, hrest⟩, hvalue⟩
  | none => exact .inr (.inr ⟨_, rfl, fun _ => ⟨_, .unboundBare hidentifier hrest hvalue⟩⟩)

/-- There is a token with a value, or something is wrong. -/
lemma proceeds_or_stops (values : List (String × String)) (cs : List Char) :
    Proceeds values cs ∨ Stops values cs := by
  cases cs with
  | nil => exact .inr (.inl rfl)
  | cons c rest =>
    by_cases hc : c = '$'
    · subst hc
      by_cases hbare : ∀ d ∈ rest.head?, d ≠ '$' ∧ d ≠ '{' ∧ startsName d = false
      · exact .inr (.inr ⟨rest, rfl, fun _ => ⟨_, .invalidBare hbare⟩⟩)
      cases rest with
      | nil => simp at hbare
      | cons d rest =>
        by_cases hdollar : d = '$'
        · exact .inl ⟨.dollar, "$", rest, by rw [hdollar]; rfl, trivial, rfl⟩
        by_cases hbrace : d = '{'
        · rw [hbrace]
          exact proceeds_or_stops_brace values rest
        · exact proceeds_or_stops_name values (by simpa [hdollar, hbrace] using hbare) rest
    · exact .inl ⟨.char c, String.singleton c, rest, rfl, hc, rfl⟩

lemma Token.length_spelling_pos (token : Token) : 0 < token.spelling.length := by
  cases token <;> simp [spelling]

/-- A template is read until nothing more can be read. -/
lemma exists_reads (values : List (String × String)) (cs : List Char) :
    ∃ tokens pieces rest, Reads cs tokens rest ∧ Filled values tokens pieces ∧
    Stops values rest := by
  rcases proceeds_or_stops values cs with ⟨token, piece, behind, hsplit, hstands, hvalue⟩ | hstops
  · have hshorter : behind.length < cs.length := by
      rw [hsplit, List.length_append]
      exact Nat.lt_add_of_pos_left token.length_spelling_pos
    obtain ⟨tokens, pieces, rest, hreads, hfilled, hstops⟩ := exists_reads values behind
    rw [hsplit]
    exact ⟨token :: tokens, piece :: pieces, rest, .next hstands hreads,
      .cons hvalue hfilled, hstops⟩
  · exact ⟨[], [], cs, .done cs, .nil, hstops⟩
termination_by cs.length

section Templates

variable {template : String} {tokens : List Token} {pieces : List String}

lemma fill_of_reads (hreads : Reads template.toList tokens [])
    (hfilled : Filled values tokens pieces) :
    fill template values = .ok (String.join pieces) := by
  rw [fill, fillFrom_reads hreads hfilled, fillFrom, String.empty_append]

lemma fill_of_offends {before : List Char} {e : Error}
    (hsplit : template.toList = before ++ '$' :: rest)
    (hreads : Reads template.toList tokens ('$' :: rest)) (hfilled : Filled values tokens pieces)
    (hoffends : Offends values (1 + before.count '\n') rest e) :
    fill template values = .error e := by
  have hbefore : tokens.flatMap Token.spelling = before :=
    List.append_cancel_right (hreads.eq_append.symm.trans hsplit)
  rw [fill, fillFrom_reads hreads hfilled, hbefore, fillFrom_offends hoffends]

end Templates

/-- Every dollar sign of a text written twice. -/
def doubled (s : String) : String :=
  String.ofList (s.toList.flatMap fun c => if c = '$' then ['$', '$'] else [c])

lemma exists_reads_doubled (values : List (String × String)) (s : String) :
    ∃ tokens pieces, Reads (doubled s).toList tokens [] ∧ Filled values tokens pieces ∧
      String.join pieces = s := by
  rw [doubled, String.toList_ofList]
  suffices h : ∀ cs : List Char, ∃ tokens pieces,
      Reads (cs.flatMap fun c => if c = '$' then ['$', '$'] else [c]) tokens [] ∧
        Filled values tokens pieces ∧ String.join pieces = String.ofList cs by
    simpa using h s.toList
  intro cs
  induction cs with
  | nil => exact ⟨[], [], .done [], .nil, rfl⟩
  | cons c cs ih =>
    obtain ⟨tokens, pieces, hreads, hfilled, hjoin⟩ := ih
    have hpieces : String.join (String.singleton c :: pieces) = String.ofList (c :: cs) := by
      rw [String.join_cons, hjoin, String.ofList_cons]
    rw [List.flatMap_cons]
    by_cases hc : c = '$'
    · subst hc
      exact ⟨.dollar :: tokens, "$" :: pieces, @Reads.next .dollar _ _ _ trivial hreads,
        .cons rfl hfilled, hpieces⟩
    · rw [if_neg hc]
      exact ⟨.char c :: tokens, _ :: pieces, @Reads.next (.char c) _ _ _ hc hreads,
        .cons rfl hfilled, hpieces⟩

/-- Filling in a template goes well exactly when the template is read as tokens to its end and every
name has a value; the result is then made of the values as they are. It fails exactly when there is
a dollar sign that something is wrong with behind tokens that have values. Every text is the result
of a template, with each dollar sign written twice. -/
theorem fill_grammar (template : String) (values : List (String × String)) :
    (∀ out, fill template values = .ok out ↔
      ∃ tokens pieces, Reads template.toList tokens [] ∧ Filled values tokens pieces ∧
        out = String.join pieces) ∧
    (∀ e, fill template values = .error e ↔
      ∃ before rest tokens pieces, template.toList = before ++ '$' :: rest ∧
        Reads template.toList tokens ('$' :: rest) ∧ Filled values tokens pieces ∧
        Offends values (1 + before.count '\n') rest e) ∧
    ∀ s, fill (doubled s) values = .ok s := by
  obtain ⟨tokens, pieces, rest, hreads, hfilled, hstops⟩ := exists_reads values template.toList
  refine ⟨fun out => ⟨fun hok => ?_, ?_⟩, fun e => ⟨fun herror => ?_, ?_⟩, fun s => ?_⟩
  · rcases hstops with rfl | ⟨rest, rfl, hoffends⟩
    · rw [fill_of_reads hreads hfilled] at hok
      exact ⟨tokens, pieces, hreads, hfilled, (Except.ok.inj hok).symm⟩
    · obtain ⟨e, he⟩ := hoffends _
      rw [fill_of_offends hreads.eq_append hreads hfilled he] at hok
      cases hok
  · rintro ⟨tokens, pieces, hreads, hfilled, rfl⟩
    exact fill_of_reads hreads hfilled
  · rcases hstops with rfl | ⟨rest, rfl, hoffends⟩
    · rw [fill_of_reads hreads hfilled] at herror
      cases herror
    · obtain ⟨e', he⟩ := hoffends _
      rw [fill_of_offends hreads.eq_append hreads hfilled he] at herror
      rw [← Except.error.inj herror]
      exact ⟨_, rest, tokens, pieces, hreads.eq_append, hreads, hfilled, he⟩
  · rintro ⟨before, rest, tokens, pieces, hsplit, hreads, hfilled, he⟩
    exact fill_of_offends hsplit hreads hfilled he
  · obtain ⟨tokens, pieces, hreads, hfilled, rfl⟩ := exists_reads_doubled values s
    exact fill_of_reads hreads hfilled

/-- Values are not read again, and the first dollar sign that something is wrong with decides. -/
example : fill "[$a] $$5" [("a", "$b")] = .ok "[$b] $5" ∧
    fill "$$$a\n$5 $b" [("a", "1")] = .error (.invalid 2) :=
  ⟨by rfl, by rfl⟩

end SceneExport.Template
