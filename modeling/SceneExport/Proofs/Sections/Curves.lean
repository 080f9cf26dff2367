import Mathlib
import SceneExport.Export.Action
import SceneExport.Proofs.Entries
import SceneExport.Proofs.Sections.Stored

/-!
# Where the curves of an action stand

The curves of an action are gathered by path and written one after another. Each entry of the
manifest is that of a component of a path. If several curves belong to one component all of them are
written, and the entry is that of the last one. Of the curves of a scale only the first one is
written.
-/
namespace SceneExport

/-- The curves of a path, in the order of the action. -/
def Action.curvesOf (a : Action Float) (path : String) : List (Curve Float) :=
  (a.curves.filter fun (g, c) => c.dataPath g.bone = path).map Prod.snd

/-- The curve that is exported for a component of a path: for scales the first one of the path, else
the last one of the component. -/
def Action.source? (a : Action Float) (path : String) (index : Nat) : Option (Curve Float) :=
  if Text.contains path "scale" then if index = 0 then (a.curvesOf path).head? else none
  else (a.curvesOf path).reverse.find? fun c => c.index = index

namespace Export

open Manifest (CurveEntry ActionEntry)
open Sections (Stored Grown floatBytes)

section Gather

variable {β : Type}

lemma keys_gatherOne (key : String) (b : β) (xs : List (String × List β)) :
    (gatherOne key b xs).map Prod.fst =
      if key ∈ xs.map Prod.fst then xs.map Prod.fst else xs.map Prod.fst ++ [key] := by
  induction xs with
  | nil => rfl
  | cons x xs ih =>
    obtain ⟨k, bs⟩ := x
    by_cases hk : k = key
    · simp [gatherOne, hk]
    · by_cases hxs : key ∈ xs.map Prod.fst <;> simp_all [gatherOne, eq_comm]

lemma mem_gatherOne {key k : String} {b : β} {bs : List β} {xs : List (String × List β)}
    (hnodup : (xs.map Prod.fst).Nodup) (h : (k, bs) ∈ gatherOne key b xs) :
    (k ≠ key ∧ (k, bs) ∈ xs) ∨
      (k = key ∧ ∃ old, bs = old ++ [b] ∧
        ((key, old) ∈ xs ∨ old = [] ∧ key ∉ xs.map Prod.fst)) := by
  induction xs with
  | nil =>
    obtain ⟨rfl, rfl⟩ : k = key ∧ bs = [b] := by simpa [gatherOne] using h
    exact .inr ⟨rfl, [], by simp⟩
  | cons x xs ih =>
    obtain ⟨k', bs'⟩ := x
    rw [List.map_cons, List.nodup_cons] at hnodup
    unfold gatherOne at h
    split at h
    · next hk =>
      rcases List.mem_cons.mp h with heq | hmem
      · obtain ⟨rfl, rfl⟩ := Prod.mk.inj heq
        exact .inr ⟨hk, bs', rfl, .inl (by simp [hk])⟩
      · refine .inl ⟨fun hkey => hnodup.1 ?_, List.mem_cons_of_mem _ hmem⟩
        rw [hk, ← hkey]
        exact List.mem_map.mpr ⟨(k, bs), hmem, rfl⟩
    · next hk =>
      rcases List.mem_cons.mp h with heq | hmem
      · obtain ⟨rfl, rfl⟩ := Prod.mk.inj heq
        exact .inl ⟨hk, List.mem_cons_self⟩
      · rcases ih hnodup.2 hmem with ⟨hne, hin⟩ | ⟨hkey, old, hbs, hold⟩
        · exact .inl ⟨hne, List.mem_cons_of_mem _ hin⟩
        · refine .inr
            ⟨hkey, old, hbs, hold.imp (List.mem_cons_of_mem _) fun ⟨hnil, hout⟩ => ⟨hnil, ?_⟩⟩
          simp [hout, Ne.symm hk]

/-- Under each key stand the values that were given with it, in their order. -/
theorem mem_gather (pairs : List (String × β)) :
    ((gather pairs).map Prod.fst).Nodup ∧ (∀ x ∈ pairs, x.1 ∈ (gather pairs).map Prod.fst) ∧
      ∀ k bs, (k, bs) ∈ gather pairs → bs = (pairs.filter fun x => x.1 = k).map Prod.snd := by
  induction pairs using List.reverseRecOn with
  | nil => exact ⟨List.nodup_nil, by simp, by simp [gather]⟩
  | append_singleton pairs x ih =>
    obtain ⟨key, b⟩ := x
    obtain ⟨hnodup, hkeys, hvalues⟩ := ih
    have hstep : gather (pairs ++ [(key, b)]) = gatherOne key b (gather pairs) := by
      simp [gather, List.foldl_append]
    rw [hstep, keys_gatherOne]
    refine ⟨?_, ?_, ?_⟩
    · split
      · exact hnodup
      · next hnew => exact List.nodup_append.mpr ⟨hnodup, by simp, by grind⟩
    · intro x hx
      rcases List.mem_append.mp hx with hx | hx
      · have hin := hkeys x hx
        split <;> simp_all
      · obtain rfl := List.mem_singleton.mp hx
        split <;> simp_all
    · intro k bs hmem
      rcases mem_gatherOne hnodup hmem with ⟨hne, hin⟩ | ⟨rfl, old, rfl, hold⟩
      · rw [hvalues k bs hin, List.filter_append]
        simp [Ne.symm hne]
      · have hfilter : old = (pairs.filter fun x => x.1 = k).map Prod.snd := by
          rcases hold with hold | ⟨rfl, hnew⟩
          · exact hvalues k old hold
          · have hnone : (pairs.filter fun x => x.1 = k) = [] := by
              rw [List.filter_eq_nil_iff]
              intro x hx hxk
              have hkey := hkeys x hx
              rw [of_decide_eq_true hxk] at hkey
              exact hnew hkey
            rw [hnone]
            rfl
        rw [hfilter, List.filter_append, List.map_append]
        simp

end Gather

lemma mem_curvesByPath {a : Action Float} {path : String} {curves : List (Curve Float)}
    (h : (path, curves) ∈ curvesByPath a) : curves = a.curvesOf path := by
  have hall : (path, curves) ∈ gather (a.curves.map fun (g, c) => (c.dataPath g.bone, c)) := by
    unfold curvesByPath at h
    dsimp only at h
    split at h
    · exact (List.mem_filter.mp h).1
    · exact h
  rw [(mem_gather _).2.2 path curves hall, List.filter_map, List.map_map]
  rfl

section Components

variable {e : Encoding} {index i : Nat} {entry : CurveEntry} {done slot : List (Nat × CurveEntry)}

/-- The ranges of the curves of one path. -/
def ranges (slot : List (Nat × CurveEntry)) : List Range :=
  slot.map fun (_, entry) => entry.data

/-- An entry that is put takes the place of one, or is added. -/
lemma ranges_put (index : Nat) (entry : CurveEntry) (done : List (Nat × CurveEntry)) :
    (ranges (Entries.put index entry done)).Subperm (ranges done ++ [entry.data]) := by
  induction done with
  | nil => exact List.Subperm.refl _
  | cons x done ih =>
    obtain ⟨k, v⟩ := x
    unfold Entries.put
    split
    · have hperm : (ranges done ++ [entry.data]).Perm (entry.data :: ranges done) :=
        List.perm_append_singleton _ _
      exact hperm.symm.subperm.trans (List.sublist_cons_self v.data _).subperm
    · exact (List.subperm_cons v.data).mpr ih

/-- The last curve of a component. -/
def lastOf (curves : List (Nat × Curve Float)) (index : Nat) : Option (Curve Float) :=
  (curves.reverse.find? fun x => x.1 = index).map Prod.snd

lemma lastOf_cons (index : Nat) (c : Curve Float) (rest : List (Nat × Curve Float)) (i : Nat) :
    lastOf ((index, c) :: rest) i = (lastOf rest i).or (if index = i then some c else none) := by
  unfold lastOf
  rw [List.reverse_cons, List.find?_append, List.find?_singleton]
  cases rest.reverse.find? fun x => x.1 = i <;> by_cases hi : index = i <;> simp [hi]

/-- What is known of the curves of one path after they are written: each entry is that of the last
curve of its component, or one from before. -/
lemma encodeComponents_stored (curves : List (Nat × Curve Float)) (hwhole : e.sections.Whole)
    (done : List (Nat × CurveEntry)) (hnodup : (done.map Prod.fst).Nodup) :
    ∃ fs, Grown e.sections (encodeComponents e done curves).2.sections fs [] ∧
      (ranges (encodeComponents e done curves).1).Subperm (ranges done ++ fs) ∧
      ∀ i entry, (i, entry) ∈ (encodeComponents e done curves).1 →
        (∃ c, lastOf curves i = some c ∧ Stored floatBytes
          (encodeComponents e done curves).2.sections.float entry.data
            (Keyframes.encode c).numbers) ∨
        (lastOf curves i = none ∧ (i, entry) ∈ done) := by
  induction curves generalizing e done with
  | nil =>
    refine ⟨[], .refl _, ?_, fun i entry h => .inr ⟨rfl, h⟩⟩
    rw [List.append_nil]
    exact List.Subperm.refl _
  | cons x rest ih =>
    obtain ⟨index, c⟩ := x
    let pushed := e.sections.pushFloats (Keyframes.encode c).numbers
    let entry : CurveEntry := ⟨pushed.1, (Keyframes.encode c).lastRecord, transformChannels⟩
    have hpush : Grown e.sections pushed.2 [entry.data] [] := .pushFloats _ _
    obtain ⟨fs, hgrown, hranges, hentries⟩ := ih
      (e := ⟨pushed.2, e.fractional || (Keyframes.encode c).fractional⟩) (hpush.whole hwhole) _
      (Entries.nodup_put index entry hnodup)
    refine ⟨entry.data :: fs, hpush.trans hgrown, ?_, fun i entry' hmem => ?_⟩
    · refine hranges.trans ?_
      have hput := (List.subperm_append_right fs).mpr (ranges_put index entry done)
      rwa [List.append_assoc] at hput
    · rw [lastOf_cons]
      rcases hentries i entry' hmem with ⟨c', hc', hstored⟩ | ⟨hnone, hdone⟩
      · exact .inl ⟨c', by rw [hc']; rfl, hstored⟩
      · rw [hnone, Option.none_or]
        rcases Entries.eq_or_mem_of_mem_put hnodup hdone with ⟨hne, hold⟩ | ⟨rfl, rfl⟩
        · exact .inr ⟨if_neg (Ne.symm hne), hold⟩
        · exact .inl ⟨c, if_pos rfl, hgrown.float.stored (Sections.stored_pushFloats hwhole _)⟩

lemma encodePaths_stored (paths : List (String × List (Curve Float))) (hwhole : e.sections.Whole) :
    ∃ fs, Grown e.sections (encodePaths e paths).2.sections fs [] ∧
      ((encodePaths e paths).1.flatMap fun (_, slot) => ranges slot).Subperm fs ∧
      ∀ path slot, (path, slot) ∈ (encodePaths e paths).1 → ∃ curves, (path, curves) ∈ paths ∧
        ∀ i entry, (i, entry) ∈ slot → ∃ c, lastOf (components path curves) i = some c ∧
          Stored floatBytes (encodePaths e paths).2.sections.float entry.data
            (Keyframes.encode c).numbers := by
  induction paths generalizing e with
  | nil => exact ⟨[], .refl _, by simp [encodePaths], by simp [encodePaths]⟩
  | cons x rest ih =>
    obtain ⟨path, curves⟩ := x
    obtain ⟨fs, hgrown, hranges, hentries⟩ :=
      encodeComponents_stored (components path curves) hwhole [] List.nodup_nil
    obtain ⟨fs', hgrown', hranges', hpaths⟩ := ih (hgrown.whole hwhole)
    refine ⟨fs ++ fs', hgrown.trans hgrown', ?_, fun path' slot hmem => ?_⟩
    · exact hranges.append hranges'
    · rcases List.mem_cons.mp hmem with heq | hmem
      · obtain ⟨rfl, rfl⟩ := Prod.mk.inj heq
        refine ⟨curves, List.mem_cons_self, fun i entry hentry => ?_⟩
        rcases hentries i entry hentry with ⟨c, hc, hstored⟩ | ⟨-, hold⟩
        · exact ⟨c, hc, hgrown'.float.stored hstored⟩
        · simp at hold
      · obtain ⟨curves', hin, hslot⟩ := hpaths path' slot hmem
        exact ⟨curves', List.mem_cons_of_mem _ hin, hslot⟩

end Components

lemma lastOf_components (a : Action Float) (path : String) (index : Nat) :
    lastOf (components path (a.curvesOf path)) index = a.source? path index := by
  unfold components Action.source?
  split
  · cases a.curvesOf path with
    | nil => simp [lastOf]
    | cons c rest => by_cases hindex : index = 0 <;> simp [lastOf, hindex, Ne.symm]
  · rw [lastOf, ← List.map_reverse, List.find?_map, Option.map_map]
    simp [Function.comp_def]

end Export

namespace Manifest.ActionEntry

/-- The ranges of all curves. -/
def ranges (e : ActionEntry) : List Range :=
  e.curves.flatMap fun (_, slot) => Export.ranges slot

/-- The streams of the exported curves stand at the ranges of the entry. -/
def Holds (floats : Range → List Float32 → Prop) (e : ActionEntry) (a : Action Float) : Prop :=
  ∀ path slot, (path, slot) ∈ e.curves → ∀ index entry, (index, entry) ∈ slot →
    ∃ c, a.source? path index = some c ∧ floats entry.data (Keyframes.encode c).numbers

end Manifest.ActionEntry

namespace Export

open Sections (Stored Grown floatBytes)

/-- Writing an action puts the streams of its curves into the float section and hands out their
ranges. -/
theorem encodeAction_holds (a : Action Float) (uuid : String) {s : Sections} (hwhole : s.Whole)
    (messages : Messages) :
    ∃ fs, Grown s (encodeAction a uuid s messages).2.1 fs [] ∧
      (encodeAction a uuid s messages).1.ranges.Subperm fs ∧
      (encodeAction a uuid s messages).1.Holds
        (Stored floatBytes (encodeAction a uuid s messages).2.1.float) a := by
  obtain ⟨fs, hgrown, hranges, hpaths⟩ :=
    encodePaths_stored (e := ⟨s, false⟩) (curvesByPath a) hwhole
  refine ⟨fs, hgrown, hranges, fun path slot hslot index entry hentry => ?_⟩
  obtain ⟨curves, hcurves, hstored⟩ := hpaths path slot hslot
  rw [mem_curvesByPath hcurves] at hstored
  obtain ⟨c, hc, hstored⟩ := hstored index entry hentry
  exact ⟨c, by rw [← hc, lastOf_components], hstored⟩

end Export

end SceneExport
