import Mathlib
import SceneExport.Proofs.Walk.Reach

/-!
# Writing parents by nested calls

An object is written after its parent, and so on upwards: writing one object is a call inside which
its parent is written. Parents are named freely, so an object may be its own ancestor, and the calls
have no structure to follow. Each call that makes another one has marked an identifier that was not
marked before. There are no more such calls than there are identifiers of objects, and behind them
one call at most, which makes none.

The walk gets all objects of such a climb at once and writes them from the top. That this is what
the nested calls do is shown here too.
-/
namespace SceneExport.Export.Walk

open Project (Object)
open Manifest (Ref)

variable {p : Project}

/-- Writes what belongs to an object whose parent is written. -/
def finish (p : Project) (o : Object) : WalkM Ref := do
  writeObjectBody p o
  return ⟨p.uuid o⟩

/-- Goes on with an object when the call for its parent has come back, unless that has failed. -/
def resume (p : Project) (o : Object) : Except Error Ref × Walk → Except Error Ref × Walk
  | (.ok _, w) => after (finish p o) w
  | (.error e, w) => (.error e, w)

/-- Writes an object by calls that are nested `depth` deep at most, or not at all if that is not
enough. The objects of all calls come out with the outcome, the first call first. -/
def writeNested (p : Project) :
    (depth : Nat) → Object → Walk → Option (List Object × (Except Error Ref × Walk))
  | 0, _, _ => none
  | depth + 1, o, w =>
    if p.uuid o ∈ w.context.exported then some ([o], .ok ⟨p.uuid o⟩, w)
    else
      match o.parent with
      | none => some ([o], after (finish p o) (w.marked (p.uuid o)))
      | some name =>
        match p.object? name with
        | none => some ([o], .error (missing "Parent object" o.name name), w.marked (p.uuid o))
        | some parent =>
          (writeNested p depth parent (w.marked (p.uuid o))).map fun r => (o :: r.1, resume p o r.2)

/-- Writes the objects of a climb from the top, unless a parent was missing there. -/
def writeClimb (p : Project) (absent : Option String) (chain : List Object) (r : Ref) : WalkM Ref :=
  match absent, chain with
  | some name, owner :: _ => throw (missing "Parent object" owner.name name)
  | _, chain => do
    chain.forM (writeObjectBody p)
    return r

/-- The state with the marks of a climb. -/
def climbed (w : Walk) (marks : List String) : Walk :=
  { w with context := { w.context with exported := marks } }

lemma after_writeObject (o : Object) (w : Walk) :
    after (writeObject p o) w =
      after (writeClimb p (climb p w.context.exported [] o.name).missing
        (climb p w.context.exported [] o.name).chain ⟨p.uuid o⟩)
        (w.climbed (climb p w.context.exported [] o.name).marks) := rfl

/-- One more object at the lower end of a climb is written when those above it are. -/
lemma after_writeClimb_append {absent : Option String} {above : List Object}
    (h : absent ≠ none → above ≠ []) (o : Object) (r : Ref) (w : Walk) :
    after (writeClimb p absent (above ++ [o]) ⟨p.uuid o⟩) w =
      resume p o (after (writeClimb p absent above r) w) := by
  cases absent with
  | none =>
    have hsplit : (writeClimb p none (above ++ [o]) ⟨p.uuid o⟩ : WalkM Ref) =
        writeClimb p none above r >>= fun _ => finish p o := by
      change (above ++ [o]).forM (writeObjectBody p) >>= _ =
        (above.forM (writeObjectBody p) >>= _) >>= _
      simp only [List.forM_eq_forM, List.forM_append, List.forM_cons, List.forM_nil, bind_assoc,
        pure_bind, finish]
    rw [hsplit, after_bind]
    rcases after (writeClimb p none above r) w with ⟨_ | _, v⟩ <;> rfl
  | some name =>
    cases above with
    | nil => exact absurd rfl (h (Option.some_ne_none name))
    | cons owner above => rfl

/-- How an object is written from a state: the objects `rising` belong to calls that make another
one, and `last` to the call that makes none. -/
structure Nests (p : Project) (o : Object) (w : Walk) (rising : List Object) (last : Object)
    (outcome : Except Error Ref × Walk) : Prop where
  nodup : (rising.map p.uuid).Nodup
  fresh : ∀ q ∈ rising, p.uuid q ∉ w.context.exported
  known : ∀ q ∈ rising, q ∈ p.objects
  runs : ∀ depth, rising.length < depth → writeNested p depth o w = some (rising ++ [last], outcome)

/-- A call that makes no other one. -/
lemma Nests.single {o : Object} {w : Walk} {outcome : Except Error Ref × Walk}
    (h : ∀ depth, writeNested p (depth + 1) o w = some ([o], outcome)) :
    Nests p o w [] o outcome where
  nodup := List.nodup_nil
  fresh _ hq := absurd hq List.not_mem_nil
  known _ hq := absurd hq List.not_mem_nil
  runs depth hdepth := by
    cases depth with
    | zero => exact absurd hdepth (Nat.not_lt_zero _)
    | succ depth => exact h depth

/-- A call that makes another one has marked its object before. -/
lemma Nests.cons {o parent last : Object} {name : String} {w : Walk} {rising : List Object}
    {outcome : Except Error Ref × Walk} (hknown : o ∈ p.objects)
    (hfresh : p.uuid o ∉ w.context.exported) (hparent : o.parent = some name)
    (hfound : p.object? name = some parent)
    (h : Nests p parent (w.marked (p.uuid o)) rising last outcome) :
    Nests p o w (o :: rising) last (resume p o outcome) where
  nodup := by
    refine List.nodup_cons.mpr ⟨fun hmem => ?_, h.nodup⟩
    obtain ⟨q, hq, heq⟩ := List.mem_map.mp hmem
    exact h.fresh q hq (heq ▸ List.mem_cons_self)
  fresh :=
    List.forall_mem_cons.mpr
      ⟨hfresh, fun q hq hmarked => h.fresh q hq (List.mem_cons_of_mem _ hmarked)⟩
  known := List.forall_mem_cons.mpr ⟨hknown, h.known⟩
  runs depth hdepth := by
    cases depth with
    | zero => exact absurd hdepth (Nat.not_lt_zero _)
    | succ depth =>
      rw [writeNested, if_neg hfresh, hparent]
      simp only [hfound, h.runs depth (Nat.lt_of_succ_lt_succ hdepth)]
      rfl

/-- There is one call more than objects that were marked on the way. -/
lemma Nests.length_le {o last : Object} {w : Walk} {rising : List Object}
    {outcome : Except Error Ref × Walk} (h : Nests p o w rising last outcome) :
    rising.length ≤ (p.objects.map p.uuid).toFinset.card := by
  rw [← List.length_map p.uuid, ← List.toFinset_card_of_nodup h.nodup]
  refine Finset.card_le_card fun uuid huuid => ?_
  obtain ⟨q, hq, rfl⟩ := List.mem_map.mp (List.mem_toFinset.mp huuid)
  exact List.mem_toFinset.mpr (List.mem_map_of_mem (h.known q hq))

/-- The objects of a climb from the object of a name are written by nested calls. -/
theorem nests_climb (marks : List String) (chain : List Object) (name : String) {o : Object}
    (hfound : p.object? name = some o) :
    ∃ above rising last, (climb p marks chain name).chain = above ++ chain ∧
      ((climb p marks chain name).missing ≠ none → above ≠ []) ∧
      ∀ w : Walk, w.context.exported = marks → Nests p o w rising last
        (after (writeClimb p (climb p marks chain name).missing above ⟨p.uuid o⟩)
          (w.climbed (climb p marks chain name).marks)) := by
  fun_induction climb p marks chain name generalizing o with
  | case1 _ _ _ hnone => simp [hfound] at hnone
  | case2 marks chain name q hq hmarked =>
    obtain rfl : q = o := by simpa [hq] using hfound
    refine ⟨[], [], q, rfl, fun h => absurd rfl h, fun w hw => .single fun depth => ?_⟩
    rw [writeNested, if_pos (hw ▸ hmarked), ← hw]
    rfl
  | case3 marks chain name q hq hmarked hparent =>
    obtain rfl : q = o := by simpa [hq] using hfound
    refine ⟨[q], [], q, rfl, fun h => absurd rfl h, fun w hw => .single fun depth => ?_⟩
    have hwrite : after (writeClimb p none ([] ++ [q]) ⟨p.uuid q⟩) (w.marked (p.uuid q)) =
        after (finish p q) (w.marked (p.uuid q)) :=
      after_writeClimb_append (fun h => absurd rfl h) q ⟨p.uuid q⟩ _
    rw [writeNested, if_neg (hw ▸ hmarked), hparent, ← hw]
    exact congrArg (fun outcome => some ([q], outcome)) hwrite.symm
  | case4 marks chain name q hq hmarked parent hparent ih =>
    obtain rfl : q = o := by simpa [hq] using hfound
    cases hup : p.object? parent with
    | none =>
      have hstop : climb p (p.uuid q :: marks) (q :: chain) parent =
          ⟨p.uuid q :: marks, q :: chain, some parent⟩ := by
        rw [climb]
        split
        · rfl
        · next hsome => simp [hup] at hsome
      rw [hstop]
      refine ⟨[q], [], q, rfl, fun _ => List.cons_ne_nil q [], fun w hw => .single fun depth => ?_⟩
      rw [writeNested, if_neg (hw ▸ hmarked), hparent, ← hw]
      simp only [hup]
      rfl
    | some o =>
      obtain ⟨above, rising, last, hchain, hne, hnests⟩ := ih hup
      refine ⟨above ++ [q], q :: rising, last,
        by rw [hchain, List.append_cons], fun _ => by simp, fun w hw => ?_⟩
      rw [after_writeClimb_append hne q ⟨p.uuid o⟩]
      exact .cons (List.mem_of_find?_eq_some hq) (hw ▸ hmarked) hparent hup
        (hnests (w.marked (p.uuid q)) (congrArg (p.uuid q :: ·) hw))

/-- Every object that is found is written by nested calls that come to an end, in any project and
from any state. The calls that make another one have marked identifiers that were not marked before,
all of them different, so there is at most one call more than there are different identifiers of
objects. -/
theorem writeObject_nested {name : String} {o : Object} (hfound : p.object? name = some o)
    (w : Walk) :
    ∃ rising last, (rising.map p.uuid).Nodup ∧ (∀ q ∈ rising, p.uuid q ∉ w.context.exported) ∧
      (rising ++ [last]).length ≤ (p.objects.map p.uuid).toFinset.card + 1 ∧
      ∀ depth, (rising ++ [last]).length ≤ depth →
        writeNested p depth o w = some (rising ++ [last], after (writeObject p o) w) := by
  obtain ⟨above, rising, last, hchain, -, hnests⟩ :=
    nests_climb w.context.exported [] o.name (Project.named?_name hfound)
  rw [List.append_nil] at hchain
  have h := hnests w rfl
  rw [← hchain, ← after_writeObject] at h
  have hcalls : (rising ++ [last]).length = rising.length + 1 := List.length_append
  exact ⟨rising, last, h.nodup, h.fresh, hcalls.trans_le (Nat.succ_le_succ h.length_le),
    fun depth hdepth => h.runs depth (hcalls.symm.trans_le hdepth)⟩

/-- Two objects that are each other's parent take three calls at most. -/
theorem duet_writeObject_nested :
    ∃ o, duet.object? "left" = some o ∧ ∃ rising last, (rising.map duet.uuid).Nodup ∧
      (rising ++ [last]).length ≤ 3 ∧ writeNested duet 3 o ⟨blank, .empty "6.3" ""⟩ =
        some (rising ++ [last], after (writeObject duet o) ⟨blank, .empty "6.3" ""⟩) := by
  have hcard : (duet.objects.map duet.uuid).toFinset.card = 2 := by decide +kernel
  obtain ⟨o, hfound⟩ : ∃ o, duet.object? "left" = some o := ⟨_, rfl⟩
  obtain ⟨rising, last, hnodup, -, hlength, hrun⟩ :=
    writeObject_nested hfound ⟨blank, .empty "6.3" ""⟩
  rw [hcard] at hlength
  exact ⟨o, hfound, rising, last, hnodup, hlength, hrun 3 hlength⟩

end SceneExport.Export.Walk
