import Mathlib
import SceneExport.Proofs.Walk.Closure
import SceneExport.Proofs.Walk.Ledger

/-!
# Which actions an export plays

The entry of an object refers to the action that the object plays, and an action has an entry if and
only if it has no baked form or an exported object plays it.

A tour tells where its entries come from. The datablock of an entry is visited either because the
tour starts there, or because a datablock that gets an entry itself refers to it. Nothing is missing
among the references of an entry unless a sound is left out, and objects do not refer to sounds.
-/
namespace SceneExport

open Manifest (ActionEntry AnimationEntry Entry ObjectEntry)

namespace Project

variable {p : Project}

lemma kind_of_shown? {o : Object} {b : Block} (h : p.shown? o = some b) :
    b.kind = .mesh ∨ b.kind = .armature ∨ b.kind = .speaker := by
  rcases shown?_eq_some h with ⟨_, _, -, -, rfl⟩ | ⟨_, _, -, -, rfl⟩ | ⟨_, _, -, -, rfl⟩ <;>
    simp [Block.kind]

lemma object?_of_mem_references {b : Block} {o : Object} (h : Block.object o ∈ p.references b) :
    p.object? o.name = some o := by
  cases b with
  | scene b =>
    simp only [references, List.mem_map, List.mem_append, List.mem_filterMap, Option.mem_toList,
      Option.bind_eq_some_iff, Block.object.injEq, exists_eq_right] at h
    rcases h with ⟨_, -, hfound⟩ | ⟨_, -, hfound⟩
    · exact named?_name (Option.filter_eq_some_iff.mp hfound).1
    · exact named?_name (Option.filter_eq_some_iff.mp hfound).1
  | object b =>
    simp only [references, List.mem_append, Option.mem_toList, Option.map_eq_some_iff,
      Option.bind_eq_some_iff, Block.object.injEq, exists_eq_right, reduceCtorEq, and_false,
      exists_false, or_false] at h
    rcases h with ⟨_, -, hfound⟩ | hshown
    · exact named?_name hfound
    · have hkind := kind_of_shown? hshown
      simp [Block.kind] at hkind
  | mesh b | material b | texture b | speaker b | image b | sound b | armature b | action b =>
    simp [references, -Option.map_bind] at h

lemma played?_of_mem_references {b : Block} {a : Action Float}
    (h : Block.action a ∈ p.references b) : ∃ o, b = .object o ∧ p.played? o = some a := by
  cases b with
  | object b =>
    simp only [references, List.mem_append, Option.mem_toList, Option.map_eq_some_iff,
      Block.action.injEq, exists_eq_right, reduceCtorEq, and_false, exists_false, false_or] at h
    rcases h with hshown | hplayed
    · have hkind := kind_of_shown? hshown
      simp [Block.kind] at hkind
    · exact ⟨b, rfl, hplayed⟩
  | scene b | mesh b | material b | texture b | speaker b | image b | sound b | armature b
  | action b =>
    simp [references, -Option.map_bind] at h

/-- Actions of one identifier have one name, since the text that identifies an action ends in the
path of the project. -/
lemma name_eq_of_uuid_eq (hdigest : p.DigestsApart) {a b : Action Float}
    (ha : Block.action a ∈ p.datablocks) (hb : Block.action b ∈ p.datablocks)
    (h : p.uuid a = p.uuid b) : a.name = b.name := by
  have hidentifier : p.identifier (.action a) = p.identifier (.action b) := h
  rw [identifier_eq_digest, identifier_eq_digest] at hidentifier
  have htext := congrArg String.toList (hdigest _ ha _ hb hidentifier)
  simp only [identityText, Block.kind, Block.name, Block.library, Option.getD_none,
    String.toList_append, List.append_assoc] at htext
  exact String.toList_inj.mp (List.append_cancel_right (List.append_cancel_left htext))

end Project

namespace Export

open Project (Block Object)

section Tours

variable {p : Project} {s t : Record} {bs ls : List Block}

/-- A tour that leaves nothing out leaves a link to everything it visits. -/
lemma Tour.links_eq (h : Tour p s bs ls t) (hheard : ∀ b ∈ bs, p.isUnheard s.path b = false) :
    ls = bs := by
  induction h with
  | done => rfl
  | known _ _ ih => rw [ih fun c hc => hheard c (List.mem_cons_of_mem _ hc)]
  | @unheard _ _ b _ _ _ hun _ _ =>
    rw [hheard b List.mem_cons_self] at hun
    cases hun
  | fresh _ _ hin _ _ _ ih =>
    rw [ih fun c hc => ?_]
    rw [Record.add_path, hin.path_eq]
    exact hheard c (List.mem_cons_of_mem _ hc)

/-- The entry was written on a visit of the datablock. It has all references unless one is left out,
and the visit was due to one of the `roots` or to a datablock with an entry that refers to this
one. -/
structure Sourced (p : Project) (s : Record) (roots : List Block) (b : Block) (targets : List Block)
    (e : Entry) : Prop where
  describes : p.Describes b targets e
  complete : (∀ c ∈ p.references b, p.isUnheard s.path c = false) → targets = p.references b
  source : b ∈ roots ∨ ∃ e' ∈ s.manifest.contents, ∃ c siblings, p.Describes c siblings e' ∧
    siblings.Sublist (p.references c) ∧ b ∈ siblings

lemma Sourced.mono {b : Block} {targets roots roots' : List Block} {e : Entry}
    (h : Sourced p s roots b targets e) (hpath : t.path = s.path)
    (hcontents : s.manifest.contents ⊆ t.manifest.contents)
    (hroots : b ∈ roots → b ∈ roots' ∨ ∃ e' ∈ t.manifest.contents, ∃ c siblings,
      p.Describes c siblings e' ∧ siblings.Sublist (p.references c) ∧ b ∈ siblings) :
    Sourced p t roots' b targets e := by
  refine ⟨h.describes, hpath ▸ h.complete, ?_⟩
  rcases h.source with hroot | ⟨e', he', hsource⟩
  · exact hroots hroot
  · exact .inr ⟨e', hcontents he', hsource⟩

theorem Tour.sourced (h : Tour p s bs ls t) {e : Entry} (he : e ∈ t.manifest.contents) :
    e ∈ s.manifest.contents ∨ ∃ b targets, Sourced p t ls b targets e := by
  induction h with
  | done => exact .inl he
  | known _ _ ih =>
    refine (ih he).imp_right ?_
    rintro ⟨c, cs, hc⟩
    exact ⟨c, cs, hc.mono rfl (List.Subset.refl _) fun hroot => .inl (List.mem_cons_of_mem _ hroot)⟩
  | unheard _ _ _ ih => exact ih he
  | @fresh _ r _ b _ _ targets e' _ _ hin hd htail ihin ih =>
    have hsub : (r.add e').manifest.contents ⊆ _ := htail.contents_subset
    rcases ih he with he | ⟨c, cs, hc⟩
    · rcases Manifest.mem_contents_add.mp he with rfl | he
      · refine .inr ⟨b, targets, hd, fun hheard => hin.links_eq ?_, .inl List.mem_cons_self⟩
        rw [htail.path_eq, Record.add_path, hin.path_eq] at hheard
        exact hheard
      · refine (ihin he).imp_right ?_
        rintro ⟨c, cs, hc⟩
        refine ⟨c, cs, hc.mono htail.path_eq (fun x hx => hsub (by simp [hx])) fun hroot => .inr ?_⟩
        exact ⟨e', hsub (by simp), b, targets, hd, hin.links_sublist, hroot⟩
    · exact .inr ⟨c, cs, hc.mono rfl (List.Subset.refl _) fun hroot =>
        .inl (List.mem_cons_of_mem _ hroot)⟩

end Tours

lemma dataKind_ne_action (label : String) : Manifest.dataKind? label ≠ some .action := by
  unfold Manifest.dataKind?
  split_ifs <;> simp

/-- The action of an object, among the links of its entry. -/
lemma action_link_iff {e : ObjectEntry} {uuid : String} :
    ⟨some .action, uuid⟩ ∈ (Entry.object e).links ↔
      e.animation.bind AnimationEntry.action = some ⟨uuid⟩ := by
  simp only [Entry.links, List.mem_append, List.mem_map, Option.mem_toList, Manifest.Link.mk.injEq,
    Option.some.injEq, reduceCtorEq, false_and, and_false, exists_false,
    dataKind_ne_action, false_or, true_and]
  constructor
  · rintro ⟨r, hr, rfl⟩
    exact hr
  · exact fun hr => ⟨_, hr, rfl⟩

lemma action_link_references_iff {p : Project} {o : Object} {uuid : String} :
    ⟨some .action, uuid⟩ ∈ (p.references (.object o)).map p.link ↔
      ∃ a, p.played? o = some a ∧ p.uuid a = uuid := by
  constructor
  · intro h
    obtain ⟨b, hb, hlink⟩ := List.mem_map.mp h
    obtain ⟨hkind, rfl⟩ := Manifest.Link.mk.inj hlink
    cases b with
    | action a =>
      obtain ⟨o', ho, ha⟩ := Project.played?_of_mem_references hb
      cases ho
      exact ⟨a, ha, rfl⟩
    | _ => cases hkind
  · rintro ⟨a, ha, rfl⟩
    exact List.mem_map.mpr ⟨.action a, by simp [Project.references, ha], rfl⟩

lemma mem_contents_object {m : Manifest} {e : ObjectEntry} :
    Entry.object e ∈ m.contents ↔ e ∈ m.objects := by
  simp [Manifest.contents]

lemma mem_contents_action {m : Manifest} {a : ActionEntry} :
    Entry.action a ∈ m.contents ↔ a ∈ m.actions := by
  simp [Manifest.contents]

section Exports

variable {p : Project} {path : String} {html : Bool} {c c' : Context} {out : Output}

lemma exists_sourced (h : Runs (exportScene p path html) c out c') {e : Entry}
    (he : e ∈ out.manifest.contents) :
    ∃ t b targets, t.manifest.contents = out.manifest.contents ∧
    Sourced p t (origins p) b targets e := by
  obtain ⟨version, source, t, htour, hout⟩ := tour_exportScene h
  have hcontents := contents_eq hout
  rw [hcontents] at he
  rcases htour.sourced he with hempty | ⟨b, targets, hsourced⟩
  · simp [Manifest.contents, Manifest.empty] at hempty
  · exact ⟨t, b, targets, hcontents.symm, hsourced⟩

/-- The entry of an object is that of the first object of its name, and refers to all that this one
does. -/
theorem exists_links_of_mem (h : Runs (exportScene p path html) c out c') {e : ObjectEntry}
    (he : e ∈ out.manifest.objects) :
    ∃ o, p.object? e.name = some o ∧
    (Entry.object e).links = (p.references (.object o)).map p.link := by
  obtain ⟨t, b, targets, -, hsourced⟩ := exists_sourced h (mem_contents_object.mpr he)
  have hd := hsourced.describes
  cases b with
  | object o =>
    have hfound : p.object? o.name = some o := by
      rcases hsourced.source with horigin | ⟨_, _, _, _, _, hsub, ho⟩
      · simp [origins, Walk.roots] at horigin
      · exact Project.object?_of_mem_references (hsub.subset ho)
    have hname : e.name = o.name := hd.name
    refine ⟨o, by rw [hname, hfound], ?_⟩
    have hheard : ∀ b ∈ p.references (.object o), p.isUnheard t.path b = false := by
      intro b hb
      have hlead := leading_of_mem_references (by simp [Block.kind]) hb
      cases b with
      | sound => exact hlead.elim
      | _ => rfl
    rw [hd.links, hsourced.complete hheard]
  | _ => cases hd.kind

/-- It plays the action that the object plays. -/
theorem exists_object_of_mem (h : Runs (exportScene p path html) c out c') {e : ObjectEntry}
    (he : e ∈ out.manifest.objects) :
    ∃ o, p.object? e.name = some o ∧
      e.animation.bind AnimationEntry.action = (p.played? o).map fun a => ⟨p.uuid a⟩ := by
  obtain ⟨o, ho, hlinks⟩ := exists_links_of_mem h he
  refine ⟨o, ho, Option.ext fun r => ?_⟩
  rw [← action_link_iff, hlinks, action_link_references_iff, Option.map_eq_some_iff]
  exact exists_congr fun a => and_congr_right fun _ =>
    ⟨fun hu => by rw [hu], fun hr => by rw [← hr]⟩

/-- The entry of an action is that of an action without a baked form, or an exported object refers
to it. -/
theorem exists_action_of_mem (h : Runs (exportScene p path html) c out c') {a : ActionEntry}
    (ha : a ∈ out.manifest.actions) :
    ∃ x ∈ p.actions.actions, a.name = x.name ∧ a.uuid = p.uuid x ∧
      (p.actions.hasBaked x = false ∨ ∃ e ∈ out.manifest.objects,
        e.animation.bind AnimationEntry.action = some ⟨p.uuid x⟩) := by
  obtain ⟨t, b, targets, hcontents, hsourced⟩ := exists_sourced h (mem_contents_action.mpr ha)
  have hd := hsourced.describes
  cases b with
  | action x =>
    rcases hsourced.source with horigin | ⟨e', he', b', siblings, hd', hsub, hx⟩
    · simp only [origins, Walk.roots, List.mem_append, List.mem_map, List.mem_filter, reduceCtorEq,
        and_false, exists_false, false_or, Block.action.injEq, exists_eq_right] at horigin
      exact ⟨x, horigin.1, hd.name, hd.uuid, .inl (by simpa using horigin.2)⟩
    · obtain ⟨o, rfl, hplayed⟩ := Project.played?_of_mem_references (hsub.subset hx)
      obtain ⟨_, -, hplayable⟩ := Option.bind_eq_some_iff.mp hplayed
      refine ⟨x, Project.mem_of_playable? hplayable, hd.name, hd.uuid, .inr ?_⟩
      cases e' with
      | object e =>
        rw [hcontents] at he'
        refine ⟨e, mem_contents_object.mp he', action_link_iff.mp ?_⟩
        rw [hd'.links]
        exact List.mem_map.mpr ⟨.action x, hx, rfl⟩
      | _ => cases hd'.kind
  | _ => cases hd.kind

lemma mem_datablocks_of_mem_actions {x : Action Float} (hx : x ∈ p.actions.actions) :
    Block.action x ∈ p.datablocks := by
  simp [Project.datablocks, hx]

lemma mem_datablocks_of_played? {o : Object} {x : Action Float} (h : p.played? o = some x) :
    Block.action x ∈ p.datablocks := by
  obtain ⟨_, -, hx⟩ := Option.bind_eq_some_iff.mp h
  exact mem_datablocks_of_mem_actions (Project.mem_of_playable? hx)

/-- An entry under the identifier of an action has its name. -/
lemma name_of_actionEntry (hdigest : p.DigestsApart) (h : Runs (exportScene p path html) c out c')
    {a : ActionEntry} (ha : a ∈ out.manifest.actions) {x : Action Float}
    (hx : Block.action x ∈ p.datablocks) (huuid : a.uuid = p.uuid x) : a.name = x.name := by
  obtain ⟨y, hy, hname, huuid', -⟩ := exists_action_of_mem h ha
  rw [hname]
  exact Project.name_eq_of_uuid_eq hdigest (mem_datablocks_of_mem_actions hy) hx
    (huuid'.symm.trans huuid)

/-- Where an action is marked, there is an entry of its name. -/
lemma exists_actionEntry_of_marked {s t : Record} (hdigest : p.DigestsApart)
    (htour : Tour p s (origins p) (origins p) t) (hmarks : s.marks = [])
    {x : Action Float} (hx : Block.action x ∈ p.datablocks) (hmark : p.uuid x ∈ t.marks) :
    ∃ a ∈ t.manifest.actions, a.name = x.name := by
  have hclosed : ∀ b ∈ p.datablocks, ∀ c ∈ p.references b, c ∈ p.datablocks :=
    fun _ _ _ hc => Project.mem_datablocks_of_mem_references hc
  rcases htour.settled hclosed (fun _ => mem_datablocks_of_mem_origins) hmark
    with hm | ⟨b, hb, heq, hset⟩
  · simp [hmarks] at hm
  have hkind : b.kind = .action := Project.kind_eq_of_identifier_eq hdigest hb hx heq
  cases b with
  | action y =>
    obtain ⟨e, he, _, hd⟩ := hset.entry rfl
    cases e with
    | action a =>
      have hname : y.name = x.name := Project.name_eq_of_uuid_eq hdigest hb hx heq
      exact ⟨a, mem_contents_action.mp he, hd.name.trans hname⟩
    | _ => cases hd.kind
  | _ => cases hkind

/-- An exported object refers to the entry of the action that it plays. -/
theorem exists_played_entry (hdigest : p.DigestsApart) (h : Runs (exportScene p path html) c out c')
    {e : ObjectEntry} (he : e ∈ out.manifest.objects) {o : Object} (ho : p.object? e.name = some o)
    {x : Action Float} (hx : p.played? o = some x) :
    ∃ a ∈ out.manifest.actions, a.name = x.name ∧
      e.animation.bind AnimationEntry.action = some ⟨a.uuid⟩ := by
  obtain ⟨o', ho', href⟩ := exists_object_of_mem h he
  obtain rfl : o = o' := Option.some.inj (ho.symm.trans ho')
  rw [hx, Option.map_some] at href
  obtain ⟨version, source, t, htour, hout⟩ := tour_exportScene h
  have hmem : Entry.object e ∈ t.manifest.contents := by
    rw [← contents_eq hout]
    exact mem_contents_object.mpr he
  obtain ⟨a, ha, hkind, huuid⟩ :=
    linked_of_ne_sound hdigest htour rfl rfl hmem (action_link_iff.mpr href) (by simp)
  cases a with
  | action a =>
    have huuid : a.uuid = p.uuid x := huuid
    have ha : a ∈ out.manifest.actions := by
      rw [← mem_contents_action, contents_eq hout]
      exact ha
    refine ⟨a, ha, name_of_actionEntry hdigest h ha (mem_datablocks_of_played? hx) huuid, ?_⟩
    rw [href, huuid]
  | _ => cases hkind

/-- An action has an entry if and only if it has no baked form or an exported object plays it. -/
theorem exists_actionEntry_iff (hdigest : p.DigestsApart)
    (h : Runs (exportScene p path html) c out c') {name : String} :
    (∃ a ∈ out.manifest.actions, a.name = name) ↔
      (∃ x ∈ p.actions.actions, p.actions.hasBaked x = false ∧ x.name = name) ∨
      ∃ e ∈ out.manifest.objects, ∃ o x, p.object? e.name = some o ∧ p.played? o = some x ∧
        x.name = name := by
  constructor
  · rintro ⟨a, ha, rfl⟩
    obtain ⟨x, hx, hname, -, hbaked | ⟨e, he, hlink⟩⟩ := exists_action_of_mem h ha
    · exact .inl ⟨x, hx, hbaked, hname.symm⟩
    · obtain ⟨o, ho, href⟩ := exists_object_of_mem h he
      rw [hlink] at href
      obtain ⟨y, hy, huuid⟩ := Option.map_eq_some_iff.mp href.symm
      refine .inr ⟨e, he, o, y, ho, hy, Eq.trans ?_ hname.symm⟩
      exact Project.name_eq_of_uuid_eq hdigest (mem_datablocks_of_played? hy)
        (mem_datablocks_of_mem_actions hx) (congrArg Manifest.Ref.uuid huuid)
  · rintro (⟨x, hx, hbaked, rfl⟩ | ⟨e, he, o, x, ho, hx, rfl⟩)
    · obtain ⟨version, source, t, htour, hout⟩ := tour_exportScene h
      have horigin : Block.action x ∈ origins p := by simp [origins, Walk.roots, hx, hbaked]
      obtain ⟨a, ha, hname⟩ := exists_actionEntry_of_marked hdigest htour rfl
        (mem_datablocks_of_mem_origins horigin) (htour.mem_marks horigin)
      refine ⟨a, ?_, hname⟩
      rw [hout]
      exact ha
    · obtain ⟨a, ha, hname, -⟩ := exists_played_entry hdigest h he ho hx
      exact ⟨a, ha, hname⟩

end Exports

end Export

end SceneExport
