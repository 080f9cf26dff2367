import Mathlib

/-!
# Results, lists and whole numbers

Lemmas that are about no part of a scene and that the library does not have: results that may be
errors, steps that end well, lists of rows and related lists, and ranges of whole numbers.
-/
namespace SceneExport

section Results

variable {ε β γ : Type}

lemma ok_bind (b : β) (f : β → Except ε γ) : (Except.ok b >>= f) = f b := rfl

lemma bind_eq_ok {x : Except ε β} {f : β → Except ε γ} {c : γ} :
    (x >>= f) = .ok c ↔ ∃ b, x = .ok b ∧ f b = .ok c := by
  cases x with
  | error e => exact ⟨fun h => (nomatch h), fun ⟨_, h, _⟩ => (nomatch h)⟩
  | ok b => exact ⟨fun h => ⟨b, rfl, h⟩, fun ⟨_, hb, h⟩ => Except.ok.inj hb ▸ h⟩

lemma map_eq_ok {x : Except ε β} {f : β → γ} {c : γ} :
    x.map f = .ok c ↔ ∃ b, x = .ok b ∧ f b = c := by
  cases x with
  | error e => exact ⟨fun h => (nomatch h), fun ⟨_, h, _⟩ => (nomatch h)⟩
  | ok b =>
    exact ⟨fun h => ⟨b, rfl, Except.ok.inj h⟩, fun ⟨_, hb, h⟩ => Except.ok.inj hb ▸ congrArg _ h⟩

lemma toOption_bind (x : Except ε β) (f : β → Except ε γ) :
    (x >>= f).toOption = x.toOption.bind fun b => (f b).toOption := by
  cases x <;> rfl

lemma isOk_pure (b : β) : (pure b : Except ε β).isOk = true := rfl

lemma isOk_bind_pure (x : Except ε β) (f : β → γ) : (x >>= fun b => pure (f b)).isOk = x.isOk := by
  cases x <;> rfl

lemma map_unit_of_isOk {x : Except ε β} (h : x.isOk = true) : (x.map fun _ => ()) = .ok () := by
  cases x with
  | error e => simp [Except.isOk, Except.toBool] at h
  | ok b => rfl

lemma forall₂_of_mapM {f : β → Except ε γ} {xs : List β} {ys : List γ} (h : xs.mapM f = .ok ys) :
    List.Forall₂ (fun x y => f x = .ok y) xs ys := by
  induction xs generalizing ys with
  | nil =>
    cases h
    exact .nil
  | cons x xs ih =>
    rw [List.mapM_cons, bind_eq_ok] at h
    obtain ⟨y, hy, h⟩ := h
    obtain ⟨rest, hrest, hdone⟩ := bind_eq_ok.mp h
    cases hdone
    exact .cons hy (ih hrest)

end Results

section Steps

variable {σ β γ : Type} {s s' s'' : σ}

/-- A step that ends well hands its result on. -/
lemma run_bind_ok {ε : Type} {m : ExceptT ε (StateM σ) β} {f : β → ExceptT ε (StateM σ) γ} {b : β}
    (h : m.run.run s = (.ok b, s')) : (m >>= f).run.run s = (f b).run.run s' := by
  rw [ExceptT.run_bind, StateT.run_bind, h]
  rfl

lemma run_liftM_bind {ε : Type} {m : StateM σ β} {f : β → ExceptT ε (StateM σ) γ} {b : β}
    (h : m.run s = (b, s')) : (liftM m >>= f).run.run s = (f b).run.run s' := by
  have hlift : (liftM m : ExceptT ε (StateM σ) β).run.run s = (.ok (m.run s).1, (m.run s).2) := rfl
  rw [h] at hlift
  exact run_bind_ok hlift

variable {f : β → StateM σ γ}

lemma run_mapM_cons {b : β} {bs : List β} {r : γ} {rs : List γ} (h : (f b).run s = (r, s'))
    (hs : (bs.mapM f).run s' = (rs, s'')) : ((b :: bs).mapM f).run s = (r :: rs, s'') := by
  rw [List.mapM_cons, StateT.run_bind, h]
  change StateT.run (_ >>= _ : StateM σ _) s' = _
  rw [StateT.run_bind, hs]
  rfl

lemma run_mapM_append {bs bs' : List β} {rs rs' : List γ} (h : (bs.mapM f).run s = (rs, s'))
    (h' : (bs'.mapM f).run s' = (rs', s'')) : ((bs ++ bs').mapM f).run s = (rs ++ rs', s'') := by
  rw [List.mapM_append, StateT.run_bind, h]
  change StateT.run (_ >>= _ : StateM σ _) s' = _
  rw [StateT.run_bind, h']
  rfl

end Steps

section Lists

variable {β γ κ : Type} {p q : β → Bool} {l : List β}

lemma exists_of_mem_right {R : β → γ → Prop} {xs : List β} {ys : List γ} (h : List.Forall₂ R xs ys)
    {y : γ} (hy : y ∈ ys) : ∃ x ∈ xs, R x y := by
  induction h with
  | nil => cases hy
  | cons hr _ ih =>
    rcases List.mem_cons.mp hy with rfl | hy
    · exact ⟨_, List.mem_cons_self, hr⟩
    · obtain ⟨x, hx, hxy⟩ := ih hy
      exact ⟨x, List.mem_cons_of_mem _ hx, hxy⟩

lemma split_concat {before after : List β} {a b : β} (h : l ++ [b] = before ++ a :: after) :
    (l = before ∧ b = a) ∨ ∃ rest, l = before ++ a :: rest := by
  rcases List.eq_nil_or_concat after with rfl | ⟨rest, c, rfl⟩
  · exact .inl (by simpa using h)
  · rw [List.concat_eq_append, ← List.cons_append, ← List.append_assoc] at h
    exact .inr ⟨rest, (List.append_inj' h rfl).1⟩

lemma getElem?_of_drop {rest : List β} {b : β} {start : Nat} (h : l.drop start = b :: rest) :
    l[start]? = some b ∧ l.drop (start + 1) = rest ∧ l[start + 1]? = rest.head? := by
  have hrest : l.drop (start + 1) = rest := by
    rw [← List.tail_drop, h, List.tail_cons]
  refine ⟨?_, hrest, ?_⟩
  · rw [← List.head?_drop, h, List.head?_cons]
  · rw [← List.head?_drop, hrest]

/-- The last element that is accepted, with what stands before and behind it. -/
lemma exists_last (h : ∃ b ∈ l, p b = true) :
    ∃ xs b ys, l = xs ++ b :: ys ∧ p b = true ∧ ∀ c ∈ ys, p c = false := by
  induction l with
  | nil => simp at h
  | cons b l ih =>
    by_cases htail : ∃ c ∈ l, p c = true
    · obtain ⟨xs, c, ys, hl, hc, hys⟩ := ih htail
      exact ⟨b :: xs, c, ys, by rw [hl, List.cons_append], hc, hys⟩
    · refine ⟨[], b, l, rfl, ?_, fun c hc => by_contra fun hp => htail ⟨c, hc, by simpa using hp⟩⟩
      obtain ⟨c, hc, hp⟩ := h
      rcases List.mem_cons.1 hc with rfl | hc
      · exact hp
      · exact absurd ⟨c, hc, hp⟩ htail

/-- A pattern does not reach across an element that it does not have. -/
lemma infix_append_cons_iff {pattern xs ys : List β} {b : β} (hb : b ∉ pattern) :
    pattern <:+: xs ++ b :: ys ↔ pattern <:+: xs ∨ pattern <:+: ys := by
  rw [List.infix_append_iff]
  constructor
  · rintro (hxs | hys | ⟨front, back, rfl, hfront, hback⟩)
    · exact .inl hxs
    · rcases List.infix_cons_iff.mp hys with hys | hys
      · rcases List.prefix_cons_iff.mp hys with rfl | ⟨rest, rfl, -⟩
        · exact .inl (List.nil_infix)
        · simp at hb
      · exact .inr hys
    · rcases List.prefix_cons_iff.mp hback with rfl | ⟨rest, rfl, -⟩
      · exact .inl (by simpa using hfront.isInfix)
      · simp at hb
  · rintro (hxs | hys)
    · exact .inl hxs
    · exact .inr (.inl (List.infix_cons_iff.mpr (.inr hys)))

/-- A pattern whose first element does not come again cannot start before a place that has this
element and reach it. -/
lemma prefix_of_prefix_append {pattern front rest : List β} {b : β} (hb : b ∉ pattern)
    (hfront : front ≠ []) (h : b :: pattern <+: front ++ b :: rest) : b :: pattern <+: front := by
  obtain ⟨behind, hsplit⟩ := h
  rcases List.append_eq_append_iff.mp hsplit with ⟨back, hback, -⟩ | ⟨back, hback, hrest⟩
  · exact ⟨back, hback.symm⟩
  · cases back with
    | nil => exact ⟨[], by simpa using hback⟩
    | cons d back =>
      obtain ⟨rfl, -⟩ := List.cons.inj hrest
      cases front with
      | nil => exact absurd rfl hfront
      | cons e front =>
        obtain ⟨-, rfl⟩ := List.cons.inj hback
        simp at hb

/-- When no two elements answer to a key, what a filter leaves is found under the key or nothing
is. -/
lemma find?_filter_of_nodup [DecidableEq κ] (key : β → κ) {k : κ} (hnodup : (l.map key).Nodup)
    (hq : ∀ b, q b = true ↔ key b = k) : (l.filter p).find? q = (l.find? q).filter p := by
  induction l with
  | nil => rfl
  | cons b l ih =>
    rw [List.map_cons, List.nodup_cons] at hnodup
    by_cases hb : q b = true
    · have hothers : ∀ b' ∈ l.filter p, q b' ≠ true := by
        intro b' hb' hkey
        rw [hq] at hb hkey
        exact hnodup.1 (hb ▸ hkey ▸ List.mem_map_of_mem (List.mem_filter.mp hb').1)
      cases hp : p b with
      | true => simp [hb, hp, Option.filter]
      | false =>
        rw [List.filter_cons_of_neg (by simp [hp]), List.find?_cons_of_pos hb,
          List.find?_eq_none.mpr hothers]
        simp [Option.filter, hp]
    · rw [List.find?_cons_of_neg hb, ← ih hnodup.2]
      cases hp : p b with
      | true => rw [List.filter_cons_of_pos hp, List.find?_cons_of_neg hb]
      | false => rw [List.filter_cons_of_neg (by simp [hp])]

lemma eraseDups_append_singleton [BEq β] [LawfulBEq β] (l : List β) (b : β) :
    (l ++ [b]).eraseDups = if b ∈ l then l.eraseDups else l.eraseDups ++ [b] := by
  rw [List.eraseDups_append]
  by_cases h : b ∈ l
  · simp [List.removeAll, h]
  · simp [List.removeAll, h, List.eraseDups_cons]

/-- Pairs with different first parts are the graph of a function. -/
lemma exists_eq_map_graph [DecidableEq κ] (d : β) {pairs : List (κ × β)}
    (h : (pairs.map Prod.fst).Nodup) :
    ∃ g : κ → β, pairs = (pairs.map Prod.fst).map fun z => (z, g z) := by
  induction pairs with
  | nil => exact ⟨fun _ => d, rfl⟩
  | cons first rest ih =>
    obtain ⟨hfirst, hrest⟩ := List.nodup_cons.mp h
    obtain ⟨g, hg⟩ := ih hrest
    refine ⟨Function.update g first.1 first.2, ?_⟩
    have hsame : ((rest.map Prod.fst).map fun z => (z, Function.update g first.1 first.2 z)) =
        (rest.map Prod.fst).map fun z => (z, g z) := by
      refine List.map_congr_left fun z hz => ?_
      rw [Function.update_of_ne]
      rintro rfl
      exact hfirst hz
    rw [List.map_cons, List.map_cons, hsame, ← hg, Function.update_self]

end Lists

section Rows

variable {β : Type} {n : Nat} {rows : List (List β)}

/-- In rows of one length an element is found by its number. -/
lemma getElem?_flatten_of_length (hrows : ∀ row ∈ rows, row.length = n) {i : Nat} (hi : i < n)
    (j : Nat) : rows.flatten[n * j + i]? = rows[j]?.bind (·[i]?) := by
  induction rows generalizing j with
  | nil => simp
  | cons row rows ih =>
    obtain ⟨hrow, hrows⟩ := List.forall_mem_cons.mp hrows
    cases j with
    | zero => simp [List.getElem?_append_left (hrow ▸ hi)]
    | succ j =>
      rw [List.flatten_cons, Nat.mul_succ, List.getElem?_append_right (by omega), hrow,
        List.getElem?_cons_succ, ← ih hrows]
      congr 1
      omega

lemma length_flatten_of_length (hrows : ∀ row ∈ rows, row.length = n) :
    rows.flatten.length = n * rows.length := by
  rw [List.length_flatten, List.map_congr_left hrows, List.map_const', List.sum_replicate,
    smul_eq_mul, Nat.mul_comm]

/-- Rows that are long enough all have one length if together they are not longer. -/
lemma length_eq_of_sum (hrows : ∀ row ∈ rows, n ≤ row.length)
    (hsum : rows.flatten.length = n * rows.length) : ∀ row ∈ rows, row.length = n := by
  induction rows with
  | nil => simp
  | cons row rows ih =>
    obtain ⟨hrow, hrows⟩ := List.forall_mem_cons.mp hrows
    have hleast : n * rows.length ≤ rows.flatten.length := by
      have hcard := List.card_nsmul_le_sum (rows.map List.length) n (List.forall_mem_map.mpr hrows)
      rwa [List.length_map, smul_eq_mul, Nat.mul_comm, ← List.length_flatten] at hcard
    rw [List.flatten_cons, List.length_append, List.length_cons, Nat.mul_succ] at hsum
    exact List.forall_mem_cons.mpr ⟨by omega, ih hrows (by omega)⟩

end Rows

section Integers

/-- Numbers that do not decrease are apart if neighbours are. -/
lemma pairwise_lt_iff_isChain_ne {β : Type} {f : β → Int} {l : List β}
    (hle : l.Pairwise (f · ≤ f ·)) : l.Pairwise (f · < f ·) ↔ l.IsChain (f · ≠ f ·) := by
  have htrans : IsTrans β (f · < f ·) := ⟨fun _ _ _ => lt_trans⟩
  refine ⟨fun h => h.isChain.imp fun _ _ => ne_of_lt, fun h => ?_⟩
  rw [← List.isChain_iff_pairwise]
  induction h with
  | nil => exact .nil
  | singleton a => exact .singleton a
  | cons_cons hne _ ih =>
    obtain ⟨hhead, htail⟩ := List.pairwise_cons.mp hle
    exact .cons_cons (lt_of_le_of_ne (hhead _ List.mem_cons_self) hne) (ih htail)

lemma int_range_eq_cons {lo hi : Int} (h : lo < hi) :
    Int.range lo hi = lo :: Int.range (lo + 1) hi := by
  obtain ⟨count, hcount⟩ : ∃ count, (hi - lo).toNat = count + 1 := ⟨(hi - lo - 1).toNat, by omega⟩
  have hrest : (hi - (lo + 1)).toNat = count := by omega
  rw [Int.range, Int.range, hcount, hrest, List.range_succ_eq_map, List.map_cons, List.map_map]
  refine congrArg₂ _ (by simp) (List.map_congr_left fun i _ => ?_)
  simp only [Function.comp_apply]
  push_cast
  ring

end Integers

end SceneExport
