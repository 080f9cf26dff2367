import Mathlib
import SceneExport.Proofs.Entries
import SceneExport.Proofs.Sections.Curves
import SceneExport.Proofs.Text.Search

/-!
# Which channels are exported

What becomes of a channel is decided by its path, and the path of a channel of a bone holds the name
of the bone. A bone that is called after a property of a transform is taken for that property: its
channels may be left out as Euler angles, keep others from being exported as a quaternion would, or
be reduced to one component as scales are. An action is exported by the targets of its channels if
and only if no name does harm in one of these ways.
-/
namespace SceneExport

namespace Curve

variable {α : Type}

lemma toList_dataPath (g : Group α) (c : Curve α) :
    (c.dataPath g.bone).toList =
      if g.name = "" then c.target.property.toList
      else "pose.bones[".toList ++ '"' ::
        (g.name.toList ++ '"' :: ([']'] ++ '.' :: c.target.property.toList)) := by
  by_cases hname : g.name = ""
  · simp [Group.bone, hname, dataPath]
  · have hbone : g.bone = some g.name := by simp [Group.bone, hname]
    simp [hbone, hname, dataPath]

/-- A path has the property of a target in it if it is the path of that property, or the bone is
called after it. -/
lemma contains_dataPath (g : Group α) (c : Curve α) (t : Target) :
    Text.contains (c.dataPath g.bone) t.property = true ↔
      Text.contains g.name t.property = true ∨ c.target = t := by
  have hproperty : t.property.toList <:+: c.target.property.toList ↔ c.target = t := by
    cases t <;> cases c.target <;> decide +kernel
  have hquote : '"' ∉ t.property.toList := by cases t <;> decide +kernel
  have hdot : '.' ∉ t.property.toList := by cases t <;> decide +kernel
  have hfront : ¬ t.property.toList <:+: "pose.bones[".toList := by cases t <;> decide +kernel
  have hback : ¬ t.property.toList <:+: [']'] := by cases t <;> decide +kernel
  rw [Text.contains_iff, Text.contains_iff, toList_dataPath]
  split
  · next hname =>
    have hempty : ¬ t.property.toList <:+: g.name.toList := by
      rw [hname]
      cases t <;> decide +kernel
    rw [hproperty, or_iff_right hempty]
  · rw [infix_append_cons_iff hquote, infix_append_cons_iff hquote,
      infix_append_cons_iff hdot, or_iff_right hfront, or_iff_right hback, hproperty]

/-- The last letters of a property tell which one it is. -/
lemma target_eq_of_append {xs ys : List Char} {t u : Target}
    (h : xs ++ t.property.toList = ys ++ u.property.toList) : t = u := by
  have hlast := congrArg (fun cs => (List.reverse cs).take 4) h
  cases t <;> cases u <;> simp [Target.property] at hlast ⊢

lemma dataPath_inj {g g' : Group α} {c c' : Curve α} (h : c.dataPath g.bone = c'.dataPath g'.bone) :
    g.name = g'.name ∧ c.target = c'.target := by
  have hchars := congrArg String.toList h
  rw [toList_dataPath, toList_dataPath] at hchars
  have hhead : ∀ t : Target, t.property.toList.head? ≠ some 'p' := by
    intro t
    cases t <;> decide +kernel
  split at hchars <;> split at hchars
  · next hname hname' =>
    have happend : [] ++ c.target.property.toList = [] ++ c'.target.property.toList := hchars
    exact ⟨hname.trans hname'.symm, target_eq_of_append happend⟩
  · exact absurd (congrArg List.head? hchars) (hhead _)
  · exact absurd (congrArg List.head? hchars).symm (hhead _)
  · have hrest : g.name.toList ++ ['"', ']', '.'] ++ c.target.property.toList =
        g'.name.toList ++ ['"', ']', '.'] ++ c'.target.property.toList := by
      simpa using hchars
    have htarget := target_eq_of_append hrest
    rw [htarget, List.append_left_inj, List.append_left_inj, String.toList_inj] at hrest
    exact ⟨hrest, htarget⟩

end Curve

/-- A channel of an action, with the group it belongs to. -/
abbrev Channel := Group Float × Curve Float

namespace Channel

def path (x : Channel) : String :=
  x.2.dataPath x.1.bone

/-- The path of the channel has the property of a target in it: the channel animates that property,
or its bone is called after it. -/
def Mentions (x : Channel) (t : Target) : Prop :=
  Text.contains x.1.name t.property = true ∨ x.2.target = t

lemma contains_path (x : Channel) (t : Target) :
    Text.contains x.path t.property = true ↔ x.Mentions t :=
  Curve.contains_dataPath x.1 x.2 t

lemma mentions_congr {x y : Channel} (h : x.path = y.path) (t : Target) :
    x.Mentions t ↔ y.Mentions t := by
  rw [← contains_path, ← contains_path, h]

end Channel

namespace Action

/-- The channel is left out: its path has Euler angles in it, and that of some channel a
quaternion. -/
def LeavesOut (a : Action Float) (x : Channel) : Prop :=
  (∃ y ∈ a.curves, Channel.Mentions y .quaternion) ∧ x.Mentions .euler

lemma mem_curvesOf {a : Action Float} {path : String} {c : Curve Float} :
    c ∈ a.curvesOf path ↔ ∃ g, (g, c) ∈ a.curves ∧ Channel.path (g, c) = path := by
  simp [curvesOf, Channel.path]

end Action

namespace Export

open Manifest (CurveEntry ActionEntry)
open Sections (Stored Grown floatBytes)

lemma mem_keys_gather {β : Type} (pairs : List (String × β)) (key : String) :
    key ∈ (gather pairs).map Prod.fst ↔ key ∈ pairs.map Prod.fst := by
  induction pairs using List.reverseRecOn with
  | nil => simp [gather]
  | append_singleton pairs x ih =>
    have hstep : gather (pairs ++ [x]) = gatherOne x.1 x.2 (gather pairs) := by
      simp [gather, List.foldl_append]
    rw [hstep, keys_gatherOne, List.map_append, List.mem_append]
    split
    · next hold =>
      rw [← ih]
      refine ⟨.inl, fun h => h.elim id fun hnew => ?_⟩
      rwa [List.mem_singleton.mp hnew]
    · rw [List.mem_append, ih]
      rfl

/-- All curves of an action by their paths, before any are left out. -/
def allByPath (a : Action Float) : List (String × List (Curve Float)) :=
  gather (a.curves.map fun x => (Channel.path x, x.2))

lemma mem_keys_allByPath {a : Action Float} {path : String} :
    path ∈ (allByPath a).map Prod.fst ↔ ∃ x ∈ a.curves, Channel.path x = path := by
  rw [allByPath, mem_keys_gather]
  simp

lemma curvesByPath_eq (a : Action Float) : curvesByPath a =
    if (allByPath a).any fun slot => Text.contains slot.1 Target.quaternion.property then
      (allByPath a).filter fun slot => !Text.contains slot.1 Target.euler.property
    else allByPath a :=
  rfl

lemma any_allByPath (a : Action Float) (t : Target) :
    ((allByPath a).any fun slot => Text.contains slot.1 t.property) = true ↔
      ∃ y ∈ a.curves, Channel.Mentions y t := by
  rw [List.any_eq_true]
  constructor
  · rintro ⟨slot, hslot, hcontains⟩
    obtain ⟨y, hy, hpath⟩ := mem_keys_allByPath.mp (List.mem_map_of_mem hslot)
    rw [← hpath] at hcontains
    exact ⟨y, hy, (Channel.contains_path y t).mp hcontains⟩
  · rintro ⟨y, hy, hmentions⟩
    obtain ⟨slot, hslot, hpath⟩ := List.mem_map.mp (mem_keys_allByPath.mpr ⟨y, hy, rfl⟩)
    refine ⟨slot, hslot, ?_⟩
    rw [hpath]
    exact (Channel.contains_path y t).mpr hmentions

/-- The paths that are exported are those of the channels that are not left out. -/
lemma mem_keys_curvesByPath {a : Action Float} {path : String} :
    path ∈ (curvesByPath a).map Prod.fst ↔ ∃ x ∈ a.curves,
    Channel.path x = path ∧ ¬ a.LeavesOut x := by
  have hany := any_allByPath a .quaternion
  rw [curvesByPath_eq]
  split
  · next hquaternion =>
    have hleft : ∀ x : Channel, a.LeavesOut x ↔
        Text.contains x.path Target.euler.property = true := by
      intro x
      rw [Channel.contains_path]
      exact and_iff_right (hany.mp hquaternion)
    constructor
    · intro h
      obtain ⟨slot, hslot, rfl⟩ := List.mem_map.mp h
      obtain ⟨hin, hkept⟩ := List.mem_filter.mp hslot
      obtain ⟨x, hx, hpath⟩ := mem_keys_allByPath.mp (List.mem_map_of_mem hin)
      refine ⟨x, hx, hpath, fun hout => ?_⟩
      rw [hleft, hpath] at hout
      simp [hout] at hkept
    · rintro ⟨x, hx, rfl, hkept⟩
      obtain ⟨slot, hslot, hpath⟩ := List.mem_map.mp (mem_keys_allByPath.mpr ⟨x, hx, rfl⟩)
      rw [hleft, ← hpath] at hkept
      rw [← hpath]
      exact List.mem_map_of_mem (List.mem_filter.mpr ⟨hslot, by simpa using hkept⟩)
  · next hquaternion =>
    have hnone : ∀ x : Channel, ¬ a.LeavesOut x := fun x hx => hquaternion (hany.mpr hx.1)
    simp only [mem_keys_allByPath, hnone, not_false_eq_true, and_true]

lemma nodup_keys_curvesByPath (a : Action Float) : ((curvesByPath a).map Prod.fst).Nodup := by
  have hall : ((allByPath a).map Prod.fst).Nodup := (mem_gather _).1
  rw [curvesByPath_eq]
  split
  · exact hall.sublist (List.filter_sublist.map _)
  · exact hall

section Components

variable {e : Encoding} {done : List (Nat × CurveEntry)}

lemma nodup_encodeComponents (curves : List (Nat × Curve Float))
    (hdone : (done.map Prod.fst).Nodup) :
    ((encodeComponents e done curves).1.map Prod.fst).Nodup := by
  induction curves generalizing e done with
  | nil => exact hdone
  | cons x rest ih => exact ih (Entries.nodup_put _ _ hdone)

/-- The components that have an entry are those that have a curve. -/
lemma mem_keys_encodeComponents (curves : List (Nat × Curve Float)) (i : Nat) :
    i ∈ (encodeComponents e done curves).1.map Prod.fst ↔
      i ∈ done.map Prod.fst ∨ i ∈ curves.map Prod.fst := by
  induction curves generalizing e done with
  | nil => simp [encodeComponents]
  | cons x rest ih =>
    obtain ⟨index, c⟩ := x
    rw [encodeComponents, ih, Entries.map_fst_put]
    split <;> simp <;> grind

lemma isSome_lastOf (curves : List (Nat × Curve Float)) (i : Nat) :
    (lastOf curves i).isSome = true ↔ i ∈ curves.map Prod.fst := by
  simp [lastOf, List.find?_isSome]

lemma keys_encodePaths (paths : List (String × List (Curve Float))) :
    (encodePaths e paths).1.map Prod.fst = paths.map Prod.fst := by
  induction paths generalizing e with
  | nil => rfl
  | cons x rest ih => simp [encodePaths, ih]

/-- Each path has a table of its components. -/
lemma components_encodePaths (paths : List (String × List (Curve Float))) :
    ∀ path slot, (path, slot) ∈ (encodePaths e paths).1 → ∃ curves, (path, curves) ∈ paths ∧
      (slot.map Prod.fst).Nodup ∧
      ∀ i, i ∈ slot.map Prod.fst ↔ (lastOf (components path curves) i).isSome = true := by
  induction paths generalizing e with
  | nil => simp [encodePaths]
  | cons x rest ih =>
    obtain ⟨path, curves⟩ := x
    intro path' slot hmem
    rcases List.mem_cons.mp hmem with heq | hmem
    · obtain ⟨rfl, rfl⟩ := Prod.mk.inj heq
      refine ⟨curves, List.mem_cons_self, nodup_encodeComponents _ List.nodup_nil, fun i => ?_⟩
      rw [mem_keys_encodeComponents, isSome_lastOf]
      simp
    · obtain ⟨curves', hin, hkeys⟩ := ih path' slot hmem
      exact ⟨curves', List.mem_cons_of_mem _ hin, hkeys⟩

end Components

end Export

namespace Manifest.ActionEntry

/-- The entry of a component of a path. -/
def curve? (e : ActionEntry) (path : String) (index : Nat) : Option CurveEntry :=
  (e.curves.lookup path).bind fun slot => slot.lookup index

end Manifest.ActionEntry

namespace Export

open Sections (Stored floatBytes)

variable {a : Action Float} {x : Channel} {uuid : String} {s : Sections} {messages : Messages}

lemma keys_encodeAction : (encodeAction a uuid s messages).1.curves.map Prod.fst =
    (curvesByPath a).map Prod.fst :=
  keys_encodePaths (curvesByPath a)

lemma leavesOut_congr {y : Channel} (h : x.path = y.path) : a.LeavesOut x ↔ a.LeavesOut y :=
  and_congr_right fun _ => Channel.mentions_congr h .euler

/-- A channel that is left out has no table. -/
lemma curve?_of_leavesOut (hout : a.LeavesOut x) (i : Nat) :
    (encodeAction a uuid s messages).1.curve? x.path i = none := by
  have hkey : x.path ∉ (encodeAction a uuid s messages).1.curves.map Prod.fst := by
    rw [keys_encodeAction, mem_keys_curvesByPath]
    rintro ⟨y, -, hpath, hkept⟩
    exact hkept ((leavesOut_congr hpath).mpr hout)
  rw [Manifest.ActionEntry.curve?, Entries.lookup_of_notMem hkey, Option.bind_none]

/-- Under the path of a channel that is not left out, a component has an entry if it has a curve,
and the entry is that of its curve. -/
lemma curve?_of_kept (uuid : String) (messages : Messages) (hwhole : s.Whole) (hx : x ∈ a.curves)
    (hkept : ¬ a.LeavesOut x) (i : Nat) :
    ((encodeAction a uuid s messages).1.curve? x.path i).isSome = (a.source? x.path i).isSome ∧
      ∀ e c, (encodeAction a uuid s messages).1.curve? x.path i = some e →
      a.source? x.path i = some c →
        Stored floatBytes (encodeAction a uuid s messages).2.1.float e.data
          (Keyframes.encode c).numbers := by
  have hkey : x.path ∈ (encodeAction a uuid s messages).1.curves.map Prod.fst := by
    rw [keys_encodeAction, mem_keys_curvesByPath]
    exact ⟨x, hx, rfl, hkept⟩
  obtain ⟨⟨path, slot⟩, hslot, hpath⟩ := List.mem_map.mp hkey
  obtain rfl : path = x.path := hpath
  have hnodup : ((encodeAction a uuid s messages).1.curves.map Prod.fst).Nodup := by
    rw [keys_encodeAction]
    exact nodup_keys_curvesByPath a
  have htable : ∀ j, (encodeAction a uuid s messages).1.curve? x.path j = slot.lookup j := by
    intro j
    rw [Manifest.ActionEntry.curve?, Entries.lookup_of_mem hnodup hslot, Option.bind_some]
  obtain ⟨curves, hcurves, hslotNodup, hkeys⟩ :=
    components_encodePaths (curvesByPath a) x.path slot hslot
  rw [mem_curvesByPath hcurves] at hkeys
  simp only [lastOf_components] at hkeys
  obtain ⟨-, -, -, hholds⟩ := encodeAction_holds a uuid hwhole messages
  rw [htable]
  constructor
  · rw [Bool.eq_iff_iff, ← hkeys, List.lookup_isSome_iff]
    simp
  · intro e c he hc
    obtain ⟨front, back, rfl, -⟩ := List.lookup_eq_some_iff.mp he
    obtain ⟨c', hc', hstored⟩ := hholds x.path _ hslot i e (by simp)
    rw [hc] at hc'
    rwa [Option.some.inj hc']

end Export

namespace Action

/-- No component of a property is animated twice in groups of one name. -/
def Distinct (a : Action Float) : Prop :=
  (a.curves.map fun x => (x.1.name, x.2.target, x.2.index)).Nodup

/-- The channel is to be exported: Euler angles are only where no channel animates a quaternion. -/
def Wants (a : Action Float) (x : Channel) : Prop :=
  x.2.target = .euler → ∀ y ∈ a.curves, y.2.target ≠ .quaternion

/-- No bone is called so that a channel is taken for what it is not: none that is to be exported is
left out, and none but a scale is reduced to the first component. -/
structure Harmless (a : Action Float) : Prop where
  kept : ∀ x ∈ a.curves, a.Wants x → ¬ a.LeavesOut x
  component : ∀ x ∈ a.curves, a.Wants x → x.2.target ≠ .scale →
    Text.contains x.1.name Target.scale.property = true → x.2.index = 0

/-- An action is exported by the targets of its channels. Every channel that is to be exported has
its stream under its own path and component, but of the scales under one path the first stands for
all, as component 0. -/
structure ByTarget (a : Action Float) (floats : Bytes) (e : Manifest.ActionEntry) : Prop where
  own : ∀ x ∈ a.curves, x.2.target ≠ .scale → a.Wants x →
    ∃ entry, e.curve? (Channel.path x) x.2.index = some entry ∧
      Sections.Stored Sections.floatBytes floats entry.data (Keyframes.encode x.2).numbers
  scale : ∀ x ∈ a.curves, x.2.target = .scale →
    ∃ first entry, (a.curvesOf (Channel.path x)).head? = some first ∧
      e.curve? (Channel.path x) 0 = some entry ∧
      Sections.Stored Sections.floatBytes floats entry.data (Keyframes.encode first).numbers ∧
      ∀ i, i ≠ 0 → e.curve? (Channel.path x) i = none

variable {a : Action Float} {x y : Channel}

lemma Distinct.eq (h : a.Distinct) (hx : x ∈ a.curves) (hy : y ∈ a.curves) (hpath : x.path = y.path)
    (hindex : x.2.index = y.2.index) : x = y := by
  obtain ⟨hname, htarget⟩ := Curve.dataPath_inj hpath
  exact List.inj_on_of_nodup_map h hx hy (by rw [hname, htarget, hindex])

lemma source?_of_mentions_scale (h : x.Mentions .scale) (i : Nat) :
    a.source? x.path i = if i = 0 then (a.curvesOf x.path).head? else none :=
  if_pos ((Channel.contains_path x .scale).mpr h)

/-- Where names do no harm, the curve that is exported for a component is the one that is there. -/
lemma Harmless.source? (h : a.Harmless) (hdistinct : a.Distinct) (hx : x ∈ a.curves)
    (htarget : x.2.target ≠ .scale) (hwants : a.Wants x) :
    a.source? x.path x.2.index = some x.2 := by
  have hown : x.2 ∈ a.curvesOf x.path := mem_curvesOf.mpr ⟨x.1, hx, rfl⟩
  by_cases hscale : x.Mentions .scale
  · -- all channels of the path are component 0, so there is only this one
    have hzero : ∀ y ∈ a.curves, Channel.path y = x.path → y.2.index = 0 := by
      intro y hy hpath
      obtain ⟨hname, hsame⟩ := Curve.dataPath_inj hpath
      have hwants' : a.Wants y := fun heuler => hwants (hsame ▸ heuler)
      refine h.component y hy hwants' (hsame ▸ htarget) ?_
      rw [hname]
      exact hscale.resolve_right htarget
    rw [source?_of_mentions_scale hscale, if_pos (hzero x hx rfl)]
    cases hcurves : a.curvesOf x.path with
    | nil => simp [hcurves] at hown
    | cons c rest =>
      have hc : c ∈ a.curvesOf x.path := by simp [hcurves]
      obtain ⟨g, hg, hpath⟩ := mem_curvesOf.mp hc
      have heq : (g, c) = x :=
        hdistinct.eq hg hx hpath ((hzero _ hg hpath).trans (hzero x hx rfl).symm)
      rw [← heq]
      rfl
  · have hnot : ¬ Text.contains x.path "scale" = true := fun hcontains =>
      hscale ((Channel.contains_path x .scale).mp hcontains)
    rw [Action.source?, if_neg hnot]
    cases hfind : (a.curvesOf x.path).reverse.find? fun c => c.index = x.2.index with
    | none =>
      rw [List.find?_eq_none] at hfind
      exact absurd (decide_eq_true rfl) (hfind x.2 (List.mem_reverse.mpr hown))
    | some c =>
      have hindex : c.index = x.2.index := by simpa using List.find?_some hfind
      obtain ⟨g, hg, hpath⟩ :=
        mem_curvesOf.mp (List.mem_reverse.mp (List.mem_of_find?_eq_some hfind))
      have heq : (g, c) = x := hdistinct.eq hg hx hpath hindex
      rw [← heq]

end Action

namespace Export

open Sections (Stored floatBytes)

variable {a : Action Float} {x : Channel} {uuid : String} {s : Sections} {messages : Messages}

/-- A curve that is exported for a component of a channel that is not left out has its entry. -/
lemma exists_curve? (hwhole : s.Whole) (hx : x ∈ a.curves) (hkept : ¬ a.LeavesOut x) {i : Nat}
    {c : Curve Float} (hc : a.source? x.path i = some c) :
    ∃ entry, (encodeAction a uuid s messages).1.curve? x.path i = some entry ∧
      Stored floatBytes (encodeAction a uuid s messages).2.1.float entry.data
        (Keyframes.encode c).numbers := by
  obtain ⟨hsome, hstored⟩ := curve?_of_kept uuid messages hwhole hx hkept i
  rw [hc, Option.isSome_some] at hsome
  obtain ⟨entry, hentry⟩ := Option.isSome_iff_exists.mp hsome
  exact ⟨entry, hentry, hstored entry c hentry hc⟩

/-- Only component 0 of a channel that is taken for a scale has an entry. -/
lemma curve?_of_mentions_scale (hwhole : s.Whole) (hx : x ∈ a.curves) (hkept : ¬ a.LeavesOut x)
    (hscale : x.Mentions .scale) {i : Nat} (hi : i ≠ 0) :
    (encodeAction a uuid s messages).1.curve? x.path i = none := by
  have hsome := (curve?_of_kept uuid messages hwhole hx hkept i).1
  rw [Action.source?_of_mentions_scale hscale, if_neg hi] at hsome
  exact Option.not_isSome_iff_eq_none.mp (by simp [hsome])

/-- An action is exported by the targets of its channels if and only if the names of its bones do no
harm. -/
theorem encodeAction_byTarget_iff (hdistinct : a.Distinct) (hwhole : s.Whole) :
    a.ByTarget (encodeAction a uuid s messages).2.1.float (encodeAction a uuid s messages).1 ↔
      a.Harmless := by
  constructor
  · intro h
    have hkept : ∀ x ∈ a.curves, a.Wants x → ¬ a.LeavesOut x := by
      intro x hx hwants hout
      by_cases hscale : x.2.target = .scale
      · obtain ⟨first, entry, -, hentry, -⟩ := h.scale x hx hscale
        rw [curve?_of_leavesOut hout] at hentry
        cases hentry
      · obtain ⟨entry, hentry, -⟩ := h.own x hx hscale hwants
        rw [curve?_of_leavesOut hout] at hentry
        cases hentry
    refine ⟨hkept, fun x hx hwants hscale hname => ?_⟩
    by_contra hindex
    obtain ⟨entry, hentry, -⟩ := h.own x hx hscale hwants
    rw [curve?_of_mentions_scale hwhole hx (hkept x hx hwants) (.inl hname) hindex] at hentry
    cases hentry
  · intro h
    refine ⟨fun x hx hscale hwants => ?_, fun x hx hscale => ?_⟩
    · exact exists_curve? hwhole hx (h.kept x hx hwants) (h.source? hdistinct hx hscale hwants)
    · have hkept : ¬ a.LeavesOut x := by
        refine h.kept x hx fun heuler => ?_
        rw [hscale] at heuler
        cases heuler
      have hmentions : Channel.Mentions x .scale := .inr hscale
      have hown : x.2 ∈ a.curvesOf (Channel.path x) := Action.mem_curvesOf.mpr ⟨x.1, hx, rfl⟩
      cases hfirst : (a.curvesOf (Channel.path x)).head? with
      | none => simp [List.head?_eq_none_iff.mp hfirst] at hown
      | some first =>
        have hsource : a.source? (Channel.path x) 0 = some first := by
          rw [Action.source?_of_mentions_scale hmentions, if_pos rfl, hfirst]
        obtain ⟨entry, hentry, hstored⟩ := exists_curve? hwhole hx hkept hsource
        exact ⟨first, entry, rfl, hentry, hstored, fun i hi =>
          curve?_of_mentions_scale hwhole hx hkept hmentions hi⟩

/-- One key of one component of a location. -/
def placement (index : Nat) (value : Float) : Curve Float :=
  ⟨.location, index, [⟨1, value, ⟨1, value⟩, ⟨1, value⟩, .linear⟩]⟩

/-- A bone whose name has the word scale in it. -/
def control : Group Float :=
  ⟨"scale_ctl", [placement 0 1, placement 1 2]⟩

def controls : Action Float :=
  ⟨"A", .object, (1, 2), [control]⟩

/-- The second component of the location is lost. -/
theorem controls_not_byTarget :
    controls.Distinct ∧ Sections.empty.Whole ∧
      ¬ controls.ByTarget (encodeAction controls "u" .empty .empty).2.1.float
        (encodeAction controls "u" .empty .empty).1 := by
  have hdistinct : controls.Distinct := by
    unfold Action.Distinct
    decide +kernel
  have hwhole : Sections.empty.Whole := ⟨by decide, by decide⟩
  refine ⟨hdistinct, hwhole, fun h => ?_⟩
  have hharmless := (encodeAction_byTarget_iff hdistinct hwhole).mp h
  have hchannel : (control, placement 1 2) ∈ controls.curves := by
    simp [controls, Action.curves, control]
  have hindex : (placement 1 2).index = 0 := by
    refine hharmless.component _ hchannel (fun heuler => ?_) (by decide) (by decide +kernel)
    cases heuler
  cases hindex

end Export

end SceneExport
