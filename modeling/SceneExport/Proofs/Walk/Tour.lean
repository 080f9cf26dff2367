import Mathlib
import SceneExport.Proofs.Walk.Blocks

/-!
# Tours

A tour visits datablocks one after the other. One that is marked is passed over. Any other is
marked, then what it refers to is visited in turn, and at last its entry is added. Marks are set on
the way in and entries are added on the way out, so cycles of references end at a mark whose entry
is still to come. A sound that is left out stays marked, and nothing links to it on this visit.

What a tour adds is told against a property that references pass on: every new mark and every new
entry belongs to a datablock with that property.
-/
namespace SceneExport

open Manifest (Entry Link)

namespace Project

/-- The reference to a datablock that entries hold. -/
def link (p : Project) (b : Block) : Link :=
  ⟨some b.kind, p.identifier b⟩

/-- The entry is that of the datablock, with links to the targets. -/
structure Describes (p : Project) (b : Block) (targets : List Block) (e : Entry) : Prop where
  kind : e.kind = b.kind
  name : e.name = b.name
  uuid : e.uuid = p.identifier b
  links : e.links = targets.map p.link

end Project

namespace Export

open Project (Block)

/-- The marks and the manifest of a walk, and the path that is exported to. -/
structure Record where
  marks : List String
  manifest : Manifest
  path : String

namespace Record

def mark (s : Record) (uuid : String) : Record :=
  { s with marks := uuid :: s.marks }

def add (s : Record) (e : Entry) : Record :=
  { s with manifest := s.manifest.add e }

@[simp] theorem mark_marks (s : Record) (uuid : String) : (s.mark uuid).marks = uuid :: s.marks :=
  rfl

@[simp] theorem mark_manifest (s : Record) (uuid : String) : (s.mark uuid).manifest = s.manifest :=
  rfl

@[simp] theorem mark_path (s : Record) (uuid : String) : (s.mark uuid).path = s.path := rfl

@[simp] theorem add_marks (s : Record) (e : Entry) : (s.add e).marks = s.marks := rfl

@[simp] theorem add_manifest (s : Record) (e : Entry) : (s.add e).manifest = s.manifest.add e := rfl

@[simp] theorem add_path (s : Record) (e : Entry) : (s.add e).path = s.path := rfl

end Record

/-- `Tour p s bs ls t`: visiting the datablocks `bs` leads from `s` to `t`, and of these `ls` can be
referred to afterwards. -/
inductive Tour (p : Project) : Record → List Block → List Block → Record → Prop
  | done (s : Record) : Tour p s [] [] s
  | known {s t : Record} {b : Block} {bs ls : List Block} :
    p.identifier b ∈ s.marks → Tour p s bs ls t → Tour p s (b :: bs) (b :: ls) t
  | unheard {s t : Record} {b : Block} {bs ls : List Block} :
    p.identifier b ∉ s.marks → p.isUnheard s.path b = true →
    Tour p (s.mark (p.identifier b)) bs ls t → Tour p s (b :: bs) ls t
  | fresh {s r t : Record} {b : Block} {bs ls targets : List Block} {e : Entry} :
    p.identifier b ∉ s.marks → p.isUnheard s.path b = false →
    Tour p (s.mark (p.identifier b)) (p.references b) targets r →
    p.Describes b targets e → Tour p (r.add e) bs ls t → Tour p s (b :: bs) (b :: ls) t

namespace Tour

variable {p : Project} {s r t : Record} {bs ls : List Block}

theorem append {cs ms : List Block} (h : Tour p s bs ls r) (h' : Tour p r cs ms t) :
    Tour p s (bs ++ cs) (ls ++ ms) t := by
  induction h with
  | done => exact h'
  | known hm _ ih => exact .known hm (ih h')
  | unheard hm hu _ ih => exact .unheard hm hu (ih h')
  | fresh hm hu hin hd _ _ ih => exact .fresh hm hu hin hd (ih h')

theorem path_eq (h : Tour p s bs ls t) : t.path = s.path := by
  induction h with
  | done => rfl
  | known _ _ ih => exact ih
  | unheard _ _ _ ih => exact ih
  | fresh _ _ _ _ _ ihin ih => exact ih.trans ihin

theorem marks_subset (h : Tour p s bs ls t) : s.marks ⊆ t.marks := by
  induction h with
  | done => exact List.Subset.refl _
  | known _ _ ih => exact ih
  | unheard _ _ _ ih => exact fun u hu => ih (List.mem_cons_of_mem _ hu)
  | fresh _ _ _ _ _ ihin ih => exact fun u hu => ih (ihin (List.mem_cons_of_mem _ hu))

theorem contents_subset (h : Tour p s bs ls t) : s.manifest.contents ⊆ t.manifest.contents := by
  induction h with
  | done => exact List.Subset.refl _
  | known _ _ ih => exact ih
  | unheard _ _ _ ih => exact ih
  | fresh _ _ _ _ _ ihin ih => exact fun e he => ih (by simp [ihin he])

/-- Whatever is visited is marked. -/
theorem mem_marks (h : Tour p s bs ls t) {b : Block} (hb : b ∈ bs) : p.identifier b ∈ t.marks := by
  induction h with
  | done => simp at hb
  | known hm htail ih =>
    rcases List.mem_cons.mp hb with rfl | hb
    · exact htail.marks_subset hm
    · exact ih hb
  | unheard _ _ htail ih =>
    rcases List.mem_cons.mp hb with rfl | hb
    · exact htail.marks_subset List.mem_cons_self
    · exact ih hb
  | fresh _ _ hin _ htail _ ih =>
    rcases List.mem_cons.mp hb with rfl | hb
    · exact htail.marks_subset (hin.marks_subset List.mem_cons_self)
    · exact ih hb

theorem links_sublist (h : Tour p s bs ls t) : ls.Sublist bs := by
  induction h with
  | done => exact List.Sublist.refl _
  | known _ _ ih => exact ih.cons_cons _
  | unheard _ _ _ ih => exact ih.cons _
  | fresh _ _ _ _ _ _ ih => exact ih.cons_cons _

/-- Entries are added under identifiers that were not marked before. -/
theorem uuid_not_mem_marks (h : Tour p s bs ls t) {e : Entry} (he : e ∈ t.manifest.contents) :
    e ∈ s.manifest.contents ∨ e.uuid ∉ s.marks := by
  induction h with
  | done => exact .inl he
  | known _ _ ih => exact ih he
  | unheard _ _ _ ih =>
    refine (ih he).imp_right fun hn hm => ?_
    exact hn (List.mem_cons_of_mem _ hm)
  | fresh hm _ hin hd _ ihin ih =>
    rcases ih he with hr | hn
    · rcases Manifest.mem_contents_add.mp hr with rfl | hr
      · exact .inr (hd.uuid ▸ hm)
      · refine (ihin hr).imp_right fun hn hm => ?_
        exact hn (List.mem_cons_of_mem _ hm)
    · exact .inr fun hm => hn (hin.marks_subset (List.mem_cons_of_mem _ hm))

end Tour

/-- No two entries have the same identifier, and all identifiers of entries are marked. -/
structure Record.Unique (s : Record) : Prop where
  marked : ∀ e ∈ s.manifest.contents, e.uuid ∈ s.marks
  nodup : (s.manifest.contents.map Entry.uuid).Nodup

namespace Tour

variable {p : Project} {s r t : Record} {bs ls : List Block}

lemma unique_mark (h : s.Unique) (uuid : String) : (s.mark uuid).Unique :=
  ⟨fun e he => List.mem_cons_of_mem _ (h.marked e he), h.nodup⟩

lemma unique_add (h : s.Unique) {e : Entry} (hm : e.uuid ∈ s.marks)
    (hn : ∀ t ∈ s.manifest.contents, t.uuid ≠ e.uuid) : (s.add e).Unique := by
  constructor
  · intro t ht
    rcases Manifest.mem_contents_add.mp ht with rfl | ht
    · exact hm
    · exact h.marked t ht
  · have hperm := (Manifest.contents_add s.manifest e).map Entry.uuid
    simp only [Record.add_manifest, hperm.nodup_iff, List.map_cons, List.nodup_cons, List.mem_map,
      not_exists, not_and]
    exact ⟨hn, h.nodup⟩

/-- Identifiers of entries stay unique. The entry of a datablock is new because its identifier was
not marked when the visit began, and what was added meanwhile lies under identifiers that were not
marked even then. -/
theorem unique (h : Tour p s bs ls t) (hs : s.Unique) : t.Unique := by
  induction h with
  | done => exact hs
  | known _ _ ih => exact ih hs
  | unheard _ _ _ ih => exact ih (unique_mark hs _)
  | fresh hm _ hin hd _ ihin ih =>
    have hr := ihin (unique_mark hs _)
    refine ih (unique_add hr ?_ ?_)
    · rw [hd.uuid]
      exact hin.marks_subset List.mem_cons_self
    · intro t ht heq
      rw [hd.uuid] at heq
      rcases hin.uuid_not_mem_marks ht with ht | hn
      · exact hm (heq ▸ hs.marked t ht)
      · exact hn (heq ▸ List.mem_cons_self)

end Tour

/-- The datablock was visited to the end: what it refers to is marked, and it has its entry unless
it is left out. -/
structure Settled (p : Project) (s : Record) (b : Block) : Prop where
  references : ∀ c ∈ p.references b, p.identifier c ∈ s.marks
  entry :
    p.isUnheard s.path b = false → ∃ e ∈ s.manifest.contents, ∃ targets, p.Describes b targets e

/-- The entry is that of a datablock that is not left out, and its links lead to marked datablocks
that this one refers to. -/
structure Founded (p : Project) (s : Record) (b : Block) (targets : List Block)
    (e : Entry) : Prop where
  describes : p.Describes b targets e
  heard : p.isUnheard s.path b = false
  sublist : targets.Sublist (p.references b)
  marked : ∀ c ∈ targets, p.identifier c ∈ s.marks

namespace Tour

variable {p : Project} {s r t : Record} {bs ls : List Block} {P : Block → Prop}

lemma settled_mono (h : Tour p s bs ls t) {b : Block} (hb : Settled p s b) : Settled p t b := by
  refine ⟨fun c hc => h.marks_subset (hb.references c hc), fun hu => ?_⟩
  obtain ⟨e, he, targets, hd⟩ := hb.entry (h.path_eq ▸ hu)
  exact ⟨e, h.contents_subset he, targets, hd⟩

lemma founded_mono (h : Tour p s bs ls t) {b : Block} {targets : List Block} {e : Entry}
    (hb : Founded p s b targets e) : Founded p t b targets e :=
  ⟨hb.describes, h.path_eq.symm ▸ hb.heard, hb.sublist, fun c hc => h.marks_subset (hb.marked c hc)⟩

lemma references_of_unheard {path : String} {b : Block} (h : p.isUnheard path b = true) :
    p.references b = [] := by
  cases b <;> simp_all [Project.isUnheard, Project.references]

/-- Every new mark is that of a datablock that is visited to the end. -/
theorem settled (hP : ∀ b, P b → ∀ c ∈ p.references b, P c) (h : Tour p s bs ls t)
    (hbs : ∀ b ∈ bs, P b) {u : String} (hu : u ∈ t.marks) :
    u ∈ s.marks ∨ ∃ b, P b ∧ p.identifier b = u ∧ Settled p t b := by
  induction h with
  | done => exact .inl hu
  | known _ _ ih => exact ih (fun c hc => hbs c (List.mem_cons_of_mem _ hc)) hu
  | @unheard _ _ b _ _ _ hun htail ih =>
    rcases ih (fun c hc => hbs c (List.mem_cons_of_mem _ hc)) hu with hm | hb
    · rcases List.mem_cons.mp hm with rfl | hm
      · refine .inr ⟨b, hbs b List.mem_cons_self, rfl, ?_, fun hh => ?_⟩
        · simp [references_of_unheard hun]
        · rw [htail.path_eq, Record.mark_path, hun] at hh
          cases hh
      · exact .inl hm
    · exact .inr hb
  | @fresh _ _ _ b _ _ targets e _ _ hin hd htail ihin ih =>
    have hb : P b := hbs b List.mem_cons_self
    rcases ih (fun c hc => hbs c (List.mem_cons_of_mem _ hc)) hu with hm | hb
    · rcases ihin (hP b hb) hm with hm | ⟨c, hc, heq, hset⟩
      · rcases List.mem_cons.mp hm with rfl | hm
        · -- the datablock itself: its references were visited in between
          refine .inr ⟨b, hb, rfl, fun c hc => ?_, fun _ => ⟨e, ?_, targets, hd⟩⟩
          · exact htail.marks_subset (hin.mem_marks hc)
          · exact htail.contents_subset (by simp)
        · exact .inl hm
      · refine .inr ⟨c, hc, heq, htail.settled_mono ⟨hset.references, fun hh => ?_⟩⟩
        obtain ⟨e', he', rest⟩ := hset.entry hh
        exact ⟨e', by simp [he'], rest⟩
    · exact .inr hb

/-- Every new entry is that of a visited datablock. -/
theorem founded (hP : ∀ b, P b → ∀ c ∈ p.references b, P c) (h : Tour p s bs ls t)
    (hbs : ∀ b ∈ bs, P b) {e : Entry} (he : e ∈ t.manifest.contents) :
    e ∈ s.manifest.contents ∨ ∃ b targets, P b ∧ Founded p t b targets e := by
  induction h with
  | done => exact .inl he
  | known _ _ ih => exact ih (fun c hc => hbs c (List.mem_cons_of_mem _ hc)) he
  | unheard _ _ _ ih => exact ih (fun c hc => hbs c (List.mem_cons_of_mem _ hc)) he
  | @fresh _ r _ b _ _ targets e' _ hun hin hd htail ihin ih =>
    have hb : P b := hbs b List.mem_cons_self
    rcases ih (fun c hc => hbs c (List.mem_cons_of_mem _ hc)) he with he | he
    · rcases Manifest.mem_contents_add.mp he with rfl | he
      · refine .inr ⟨b, targets, hb, htail.founded_mono ⟨hd, ?_, hin.links_sublist, fun c hc => ?_⟩⟩
        · rw [Record.add_path, hin.path_eq]
          exact hun
        · exact hin.mem_marks (hin.links_sublist.subset hc)
      · refine (ihin (hP b hb) he).imp_right ?_
        rintro ⟨c, cs, hc, hf⟩
        exact ⟨c, cs, hc, htail.founded_mono ⟨hf.describes, hf.heard, hf.sublist, hf.marked⟩⟩
    · exact .inr he

end Tour

end Export

end SceneExport
