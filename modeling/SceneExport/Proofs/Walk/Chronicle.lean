import Mathlib
import SceneExport.Proofs.Walk.Reach

/-!
# What walks note

A walk notes problems that do not stop it, and each belongs to one datablock: a material hides an
alpha channel, an action has no curves or has frames that are not whole, an object plays an action
that does not exist, a vertex animation does not fit the mesh of its object, the file of a sound
cannot be named for its speaker. The last two are noted for the object or the speaker that leads to
the mesh or the sound first, and for no other.

A chronicle tells what is noted, in order, from the project alone. The datablocks are visited as in
a tour, and what belongs to a datablock is noted when all that it refers to has been visited. So
every datablock is told of once, and there is one chronicle at most. A walk that ends well has
gathered the messages of the chronicle of its project.
-/
namespace SceneExport

/-- A message, and the list that it belongs to. -/
inductive Note where
  | warning (text : String)
  | error (text : String)
  deriving DecidableEq, Repr

namespace Note

def warning? : Note → Option Message
  | .warning text => some ⟨text, .all⟩
  | .error _ => none

def error? : Note → Option Message
  | .warning _ => none
  | .error text => some ⟨text, .all⟩

end Note

namespace Messages

/-- The messages of notes, each list in their order. -/
def ofNotes (notes : List Note) : Messages :=
  ⟨notes.filterMap Note.warning?, notes.filterMap Note.error?⟩

/-- The messages with those of notes behind them. -/
def noted (m : Messages) (notes : List Note) : Messages :=
  ⟨m.warnings ++ (ofNotes notes).warnings, m.errors ++ (ofNotes notes).errors⟩

variable (m : Messages)

@[simp] theorem noted_nil : m.noted [] = m := by
  simp [noted, ofNotes]

@[simp] theorem noted_noted (notes notes' : List Note) :
    (m.noted notes).noted notes' = m.noted (notes ++ notes') := by
  simp [noted, ofNotes]

@[simp] theorem empty_noted (notes : List Note) : empty.noted notes = ofNotes notes := rfl

lemma ofNotes_append (notes notes' : List Note) :
    ofNotes (notes ++ notes') = (ofNotes notes).noted notes' := by
  rw [← empty_noted, ← empty_noted, noted_noted]

lemma warn_eq (text : String) : m.warn text = m.noted [.warning text] := by
  simp [warn, noted, ofNotes, Note.warning?, Note.error?]

lemma err_eq (text : String) : m.err text = m.noted [.error text] := by
  simp [err, noted, ofNotes, Note.warning?, Note.error?]

lemma ofNotes_eq_empty {notes : List Note} : ofNotes notes = empty ↔ notes = [] := by
  constructor
  · intro h
    rw [ofNotes, empty, Messages.mk.injEq, List.filterMap_eq_nil_iff,
      List.filterMap_eq_nil_iff] at h
    rw [List.eq_nil_iff_forall_not_mem]
    intro note hnote
    cases note with
    | warning text => exact absurd (h.1 _ hnote) (by simp [Note.warning?])
    | error text => exact absurd (h.2 _ hnote) (by simp [Note.error?])
  · rintro rfl
    rfl

end Messages

namespace Project

/-- Why a media file cannot be named in an export to `path`. -/
def refusal? (p : Project) (path filepath : String) (packed : Option Bytes) : Option Path.Error :=
  if packed.isSome then none
  else if p.filepath.isEmpty && filepath.startsWith "//" then some (.neverSaved filepath)
  else
    match Path.resourceFromExport filepath p.filepath path with
    | .ok _ => none
    | .error e => some e

/-- What is noted about a vertex animation of an object whose mesh is written. -/
def animationNotes (o : Object) (mesh : Mesh) (a : Bake.VertexAnimation) : List Note :=
  if !a.isBaked then
    [.warning
      ("Vertex animation \"" ++ a.name ++ "\" of object \"" ++ o.name ++ "\" is not baked.")]
  else if a.vertexCount? ≠ some mesh.positions.length then
    [.error ("Wrong vertex animation vertices count for mesh \"" ++ mesh.name ++
      "\". It doesn't match with the mesh vertices count for \"" ++ a.name ++ "\"")]
  else []

/-- The curves of an action that are exported. -/
def exportedCurves (a : Action Float) : List (Curve Float) :=
  (Export.curvesByPath a).flatMap fun (path, curves) => (Export.components path curves).map Prod.snd

/-- What is noted about an action. -/
def curveNotes (a : Action Float) : List Note :=
  (if a.curveCount = 0 then [.warning ("The action \"" ++ a.name ++ "\" has no fcurves.")]
    else []) ++
  if (exportedCurves a).any fun c => (Keyframes.encode c).fractional then
    [.error ("The \"" ++ a.name ++ "\" action has decimal frames. Converted to integer.")]
  else []

/-- What is noted when a datablock is written. The owner is the datablock that led to it. -/
def notes (p : Project) (path : String) (owner : Option Block) : Block → List Note
  | .object o =>
    match o.animation.bind AnimationData.action with
    | none => []
    | some name =>
      if (p.actions.playable? name).isSome then []
      else
        [.warning ("Object \"" ++ o.name ++ "\" references a missing action \"" ++ name ++ "\".")]
  | .material m =>
    if m.textures.any (Export.Walk.hasAlpha p) && !m.transparent then
      [.warning
        ("Material \"" ++ m.name ++
          "\" has a texture with alpha channel but transparency is disabled.")]
    else []
  | .action a => curveNotes a
  | .mesh m =>
    match owner with
    | some (.object o) =>
      if o.exportVertexAnimations then o.vertexAnimations.flatMap (animationNotes o m) else []
    | _ => []
  | .sound s =>
    match owner with
    | some (.speaker speaker) =>
      (p.refusal? path s.filepath s.packed).toList.map fun e =>
        .error ("Speaker \"" ++ speaker.name ++ "\": " ++ e.message)
    | _ => []
  | .scene _ | .texture _ | .image _ | .speaker _ | .armature _ => []

end Project

namespace Export

open Project (Block)

/-- `Chronicle p path owner v bs notes w`: visiting the datablocks `bs` for their owner leads from
the marks `v` to the marks `w`, and these are the notes. -/
inductive Chronicle (p : Project) (path : String) :
    Option Block → List String → List Block → List Note → List String → Prop
  | done (owner : Option Block) (v : List String) : Chronicle p path owner v [] [] v
  | known {owner : Option Block} {v w : List String} {b : Block} {bs : List Block}
      {notes : List Note} :
    p.identifier b ∈ v → Chronicle p path owner v bs notes w →
    Chronicle p path owner v (b :: bs) notes w
  | entered {owner : Option Block} {v u w : List String} {b : Block} {bs : List Block}
      {inner rest : List Note} :
    p.identifier b ∉ v → Chronicle p path (some b) (p.identifier b :: v) (p.references b) inner u →
    Chronicle p path owner u bs rest w →
    Chronicle p path owner v (b :: bs) (inner ++ p.notes path owner b ++ rest) w

namespace Chronicle

variable {p : Project} {path : String} {owner : Option Block} {v w u : List String}
    {bs bs' : List Block}
  {notes notes' : List Note}

lemma append (h : Chronicle p path owner v bs notes u)
    (h' : Chronicle p path owner u bs' notes' w) :
    Chronicle p path owner v (bs ++ bs') (notes ++ notes') w := by
  induction h with
  | done => exact h'
  | known hm _ ih => exact .known hm (ih h')
  | entered hm hin _ _ ih =>
    rw [List.append_assoc _ _ notes']
    exact .entered hm hin (ih h')

/-- What is noted, and the marks at the end, are fixed by the marks at the start. -/
lemma unique (h : Chronicle p path owner v bs notes w) (h' : Chronicle p path owner v bs notes' u) :
    notes' = notes ∧ u = w := by
  induction h generalizing notes' u with
  | done =>
    cases h'
    exact ⟨rfl, rfl⟩
  | known hm _ ih =>
    cases h' with
    | known _ htail => exact ih htail
    | entered hnew _ _ => exact absurd hm hnew
  | entered hm _ _ ihin ih =>
    cases h' with
    | known hknown _ => exact absurd hknown hm
    | entered _ hin htail =>
      obtain ⟨rfl, rfl⟩ := ihin hin
      obtain ⟨rfl, rfl⟩ := ih htail
      exact ⟨rfl, rfl⟩

/-- Nothing is noted about textures and images. -/
lemma silent (h : Chronicle p path owner v bs notes w)
    (hbs : ∀ b ∈ bs, b.kind = .texture ∨ b.kind = .image) : notes = [] := by
  induction h with
  | done => rfl
  | known _ _ ih => exact ih fun c hc => hbs c (List.mem_cons_of_mem _ hc)
  | @entered owner _ _ _ b _ _ _ _ _ _ ihin ih =>
    rw [List.forall_mem_cons] at hbs
    obtain ⟨hb, hbs⟩ := hbs
    have hinside : ∀ c ∈ p.references b, c.kind = .texture ∨ c.kind = .image := by
      cases b with
      | texture t =>
        intro c hc
        obtain ⟨image, -, rfl⟩ := Option.map_eq_some_iff.mp (Option.mem_toList.mp hc)
        exact .inr rfl
      | image _ => simp [Project.references]
      | _ => simp [Block.kind] at hb
    have hown : p.notes path owner b = [] := by
      cases b with
      | texture _ | image _ => rfl
      | _ => simp [Block.kind] at hb
    rw [ihin hinside, hown, ih hbs]
    rfl

end Chronicle

/-- The chronicle of an export of the project to the path has these notes and no other. -/
def Raises (p : Project) (path : String) (notes : List Note) : Prop :=
  ∀ other, (∃ marks, Chronicle p path none [] (origins p) other marks) ↔ other = notes

lemma Chronicle.raises {p : Project} {path : String} {notes : List Note} {marks : List String}
    (h : Chronicle p path none [] (origins p) notes marks) : Raises p path notes := by
  refine fun other => ⟨fun ⟨_, hother⟩ => (h.unique hother).1, ?_⟩
  rintro rfl
  exact ⟨marks, h⟩

namespace Walk

open Project (Mesh Material Texture Image Sound Speaker Armature Object Scene)
open Manifest (Ref)

/-- Between the states the datablocks were visited for their owner. What was noted is what the
chronicle tells and then some more. -/
def Told (p : Project) (path : String) (owner : Option Block) (bs : List Block) (more : List Note)
    (w w' : Walk) : Prop :=
  w'.context.path = path ∧ ∃ notes,
    Chronicle p path owner w.context.exported bs notes w'.context.exported ∧
    w'.context.messages = w.context.messages.noted (notes ++ more)

/-- The step visits the datablocks for their owner, and notes what the chronicle tells and then some
more. -/
def Tells {β : Type} (p : Project) (path : String) (owner : Option Block) (bs : List Block)
    (more : List Note) (m : WalkM β) : Prop :=
  ∀ ⦃w b w'⦄, Runs m w b w' → w.context.path = path → Told p path owner bs more w w'

variable {p : Project} {path : String} {owner : Option Block} {bs bs' : List Block}
    {more more' : List Note}
  {w w' v : Walk} {β γ : Type}

/-- Nothing was visited, and messages were changed by notes only. -/
lemma told_noted {notes : List Note} (hpath : w.context.path = path)
    (hpath' : w'.context.path = w.context.path) (hmarks : w'.context.exported = w.context.exported)
    (hmessages : w'.context.messages = w.context.messages.noted notes) :
    Told p path owner [] notes w w' := by
  refine ⟨hpath'.trans hpath, [], ?_, hmessages⟩
  rw [hmarks]
  exact .done _ _

lemma told_of_eq (hpath : w.context.path = path) (hpath' : w'.context.path = w.context.path)
    (hmarks : w'.context.exported = w.context.exported)
    (hmessages : w'.context.messages = w.context.messages) :
    Told p path owner [] [] w w' :=
  told_noted hpath hpath' hmarks (by rw [hmessages, Messages.noted_nil])

lemma Told.append (h : Told p path owner bs [] w v) (h' : Told p path owner bs' more v w') :
    Told p path owner (bs ++ bs') more w w' := by
  obtain ⟨-, notes, hchronicle, hmessages⟩ := h
  obtain ⟨hpath, notes', hchronicle', hmessages'⟩ := h'
  refine ⟨hpath, notes ++ notes', hchronicle.append hchronicle', ?_⟩
  rw [hmessages', hmessages, List.append_nil, Messages.noted_noted, List.append_assoc]

/-- More that is noted comes behind what was noted before. -/
lemma Told.note (h : Told p path owner bs more w v) (h' : Told p path owner [] more' v w') :
    Told p path owner bs (more ++ more') w w' := by
  obtain ⟨-, notes, hchronicle, hmessages⟩ := h
  obtain ⟨hpath, _, hdone, hmessages'⟩ := h'
  generalize hmarks : w'.context.exported = marks at hdone
  cases hdone
  refine ⟨hpath, notes, ?_, ?_⟩
  · rw [hmarks]
    exact hchronicle
  · rw [hmessages', hmessages, Messages.noted_noted, List.append_assoc, List.nil_append]

lemma tells_pure (b : β) : Tells p path owner [] [] (pure b) := by
  intro w _ w' h hpath
  obtain ⟨-, rfl⟩ := runs_pure.mp h
  exact told_of_eq hpath rfl rfl rfl

lemma tells_throw (e : Error) : Tells p path owner bs more (throw e : WalkM β) := by
  intro w _ w' h
  simp at h

lemma Tells.bind {m : WalkM β} {f : β → WalkM γ} (hm : Tells p path owner bs [] m)
    (hf : ∀ b, Tells p path owner bs' more (f b)) :
    Tells p path owner (bs ++ bs') more (m >>= f) := by
  intro w c w' h hpath
  obtain ⟨b, v, hv, h⟩ := runs_bind.mp h
  have htold := hm hv hpath
  exact htold.append (hf b h htold.1)

lemma Tells.note {m : WalkM β} {f : β → WalkM γ} (hm : Tells p path owner bs more m)
    (hf : ∀ b, Tells p path owner [] more' (f b)) :
    Tells p path owner bs (more ++ more') (m >>= f) := by
  intro w c w' h hpath
  obtain ⟨b, v, hv, h⟩ := runs_bind.mp h
  have htold := hm hv hpath
  exact htold.note (hf b h htold.1)

lemma Tells.quietly {m : WalkM β} {f : β → WalkM γ} (hm : Tells p path owner bs more m)
    (hf : ∀ b, Tells p path owner [] [] (f b)) : Tells p path owner bs more (m >>= f) := by
  rw [← List.append_nil more]
  exact hm.note hf

lemma Tells.map {m : WalkM β} (hm : Tells p path owner bs more m) (f : β → γ) :
    Tells p path owner bs more (f <$> m) := by
  intro w c w' h hpath
  obtain ⟨b, hb, -⟩ := runs_map.mp h
  exact hm hb hpath

lemma tells_need {kind name owner' : String} {found : Option β} {f : β → WalkM γ}
    (hf : ∀ b, found = some b → Tells p path owner bs more (f b)) :
    Tells p path owner bs more (need kind owner' name found >>= f) := by
  intro w c w' h hpath
  obtain ⟨b, v, hv, hrun⟩ := runs_bind.mp h
  obtain ⟨hfound, rfl⟩ := runs_need.mp hv
  exact hf b hfound hrun hpath

lemma tells_changeManifest (f : Manifest → Manifest) :
    Tells p path owner [] [] (changeManifest f) := by
  intro w _ w' h hpath
  rw [runs_changeManifest] at h
  rw [h]
  exact told_of_eq hpath rfl rfl rfl

/-- At last an entry is added. -/
lemma Tells.add {m : WalkM β} (hm : Tells p path owner bs more m) (f : β → Manifest → Manifest) :
    Tells p path owner bs more (m >>= fun b => changeManifest (f b)) :=
  hm.quietly fun b => tells_changeManifest (f b)

lemma tells_push (f : Sections → β × Sections) : Tells p path owner [] [] (push f) := by
  intro w _ w' h hpath
  rw [(runs_push.mp h).2]
  exact told_of_eq hpath rfl rfl rfl

lemma tells_warn (text : String) : Tells p path owner [] [.warning text] (warn text) := by
  intro w _ w' h hpath
  simp only [warn, runs_changeContext] at h
  rw [h]
  exact told_noted hpath rfl rfl (Messages.warn_eq _ text)

lemma tells_err (text : String) : Tells p path owner [] [.error text] (err text) := by
  intro w _ w' h hpath
  simp only [err, runs_changeContext] at h
  rw [h]
  exact told_noted hpath rfl rfl (Messages.err_eq _ text)

/-- Visits to the datablocks that names stand for, one name after the other. -/
lemma tells_mapM {find : String → Option Block} {f : String → WalkM β}
    (hf : ∀ x, Tells p path owner (find x).toList [] (f x)) (xs : List String) :
    Tells p path owner (xs.filterMap find) [] (xs.mapM f) := by
  induction xs with
  | nil => exact tells_pure []
  | cons x xs ih =>
    have hsplit : (x :: xs).filterMap find = (find x).toList ++ (xs.filterMap find ++ []) := by
      cases hx : find x <;> simp [hx]
    rw [hsplit, List.mapM_cons]
    exact (hf x).bind fun _ => ih.bind fun _ => tells_pure _

lemma tells_mapM_notes {f : β → WalkM γ} {notes : β → List Note}
    (hf : ∀ x, Tells p path owner [] (notes x) (f x)) (xs : List β) :
    Tells p path owner [] (xs.flatMap notes) (xs.mapM f) := by
  induction xs with
  | nil => exact tells_pure []
  | cons x xs ih =>
    rw [List.flatMap_cons, ← List.append_nil (xs.flatMap notes), List.mapM_cons]
    exact (hf x).note fun _ => ih.note fun _ => tells_pure _

lemma tells_forM {f : β → WalkM PUnit} {visited : β → List Block}
    (hf : ∀ x, Tells p path owner (visited x) [] (f x)) (xs : List β) :
    Tells p path owner (xs.flatMap visited) [] (xs.forM f) := by
  induction xs with
  | nil => exact tells_pure _
  | cons x xs ih =>
    rw [List.flatMap_cons]
    exact (hf x).bind fun _ => ih

/-- A datablock that is entered, written and left. -/
lemma told_entered {b : Block} (hfresh : p.identifier b ∉ w.context.exported)
    (h : Told p path (some b) (p.references b) (p.notes path owner b)
      (w.marked (p.identifier b)) w') :
    Told p path owner [b] [] w w' := by
  obtain ⟨hpath, notes, hchronicle, hmessages⟩ := h
  refine ⟨hpath, notes ++ p.notes path owner b ++ [], .entered hfresh hchronicle (.done _ _), ?_⟩
  rw [hmessages, List.append_nil, List.append_nil]
  rfl

lemma told_known {b : Block} (hpath : w.context.path = path)
    (hknown : p.identifier b ∈ w.context.exported) : Told p path owner [b] [] w w :=
  ⟨hpath, [], .known hknown (.done _ _), (Messages.noted_nil _).symm⟩

/-- Writing a datablock tells of what it refers to and notes what belongs to it. -/
lemma tells_once {b : Block} {write : WalkM Unit}
    (h : Tells p path (some b) (p.references b) (p.notes path owner b) write) :
    Tells p path owner [b] [] (once (p.identifier b) write) := by
  intro w r w' hrun hpath
  obtain ⟨-, ⟨hknown, rfl⟩ | ⟨hfresh, hwrite⟩⟩ := runs_once.mp hrun
  · exact told_known hpath hknown
  · exact told_entered hfresh (h hwrite hpath)

lemma refusal?_none (path filepath : String) : p.refusal? path filepath none =
    match resource p path filepath with
    | .ok _ => none
    | .error reason => some reason := by
  unfold Project.refusal? resource
  split <;> split <;> simp_all

/-- A file whose path is found was not refused, and only the media have changed. -/
lemma told_mediaPath {filepath usual : String} {packed : Option Bytes} {r : String}
    (h : Runs (mediaPath p filepath packed usual) w r w') (hpath : w.context.path = path) :
    Told p path owner [] [] w w' ∧ p.refusal? path filepath packed = none := by
  cases naming_of_runs h with
  | packed content extension => exact ⟨told_of_eq hpath rfl rfl rfl, rfl⟩
  | found hfound =>
    refine ⟨told_of_eq hpath rfl rfl rfl, ?_⟩
    rw [refusal?_none, ← hpath, hfound]

/-- A file whose path is refused changes nothing. -/
lemma refusal_of_fails {filepath usual : String} {packed : Option Bytes} {e : Error}
    (h : Fails (mediaPath p filepath packed usual) w e w') :
    w' = w ∧ ∃ reason, e = .path reason ∧
    p.refusal? w.context.path filepath packed = some reason := by
  cases naming_of_fails h with
  | refused hrefused =>
    refine ⟨rfl, _, rfl, ?_⟩
    rw [refusal?_none, hrefused]

lemma tells_writeImage (image : Image) :
    Tells p path owner [.image image] [] (writeImage p image) := by
  refine tells_once (b := .image image) ?_
  dsimp only
  split
  · exact (tells_pure _).add _
  · refine Tells.add (fun w r w' h hpath => ?_) _
    simp only [runs_tryCatch, not_runs_throw, and_false, exists_false, or_false] at h
    exact (told_mediaPath h hpath).1

lemma tells_writeTexture (texture : Texture) :
    Tells p path owner [.texture texture] [] (writeTexture p texture) := by
  refine tells_once (b := .texture texture) ?_
  cases himage : texture.image with
  | none =>
    have hrefs : p.references (.texture texture) = [] := by simp [Project.references, himage]
    rw [hrefs]
    exact (tells_pure none).add _
  | some name =>
    refine tells_need fun image hfound => ?_
    have hrefs : p.references (.texture texture) = [.image image] := by
      simp [Project.references, himage, hfound]
    rw [hrefs]
    exact ((tells_writeImage image).map some).add _

/-- Visits to datablocks that are looked up first. -/
lemma tells_mapM_needed {kind owner' : String} {find : String → Option β} {mk : β → Block}
    {visit : β → WalkM Ref} (hvisit : ∀ b, Tells p path owner [mk b] [] (visit b))
    (xs : List String) :
    Tells p path owner ((xs.filterMap find).map mk) []
      (xs.mapM fun name => do visit (← need kind owner' name (find name))) := by
  rw [List.map_filterMap]
  refine tells_mapM (fun name => tells_need fun b hfound => ?_) xs
  rw [hfound]
  exact hvisit b

/-- What is noted before visits that note nothing is noted behind them as well. -/
lemma Tells.note_first {m : WalkM β} {f : β → WalkM γ} (hm : Tells p path owner [] more m)
    (hf : ∀ b, Tells p path owner bs [] (f b))
    (hbs : ∀ b ∈ bs, b.kind = .texture ∨ b.kind = .image) :
    Tells p path owner bs more (m >>= f) := by
  intro w c w' h hpath
  obtain ⟨b, v, hv, h⟩ := runs_bind.mp h
  obtain ⟨hpath', _, hdone, hmessages⟩ := hm hv hpath
  obtain ⟨hend, notes, hchronicle, hmessages'⟩ := hf b h hpath'
  obtain rfl := hchronicle.silent hbs
  generalize hmarks : v.context.exported = marks at hdone hchronicle
  cases hdone
  refine ⟨hend, [], hchronicle, ?_⟩
  rw [hmessages', hmessages, Messages.noted_noted, List.append_nil, List.append_nil]

lemma tells_writeMaterial (material : Material) :
    Tells p path owner [.material material] [] (writeMaterial p material) := by
  refine tells_once (b := .material material) ?_
  have htextures (g : List Ref → Manifest → Manifest) : Tells p path (some (.material material))
      (p.references (.material material)) [] (material.textures.mapM (fun name => do
        writeTexture p (← need "Texture" material.name name (p.texture? name))) >>= fun textures =>
          changeManifest (g textures)) :=
    (tells_mapM_needed tells_writeTexture material.textures).add g
  have hkinds : ∀ b ∈ p.references (.material material), b.kind = .texture ∨ b.kind = .image := by
    intro b hb
    obtain ⟨texture, -, rfl⟩ := List.mem_map.mp hb
    exact .inl rfl
  rw [Project.notes]
  dsimp only
  by_cases halpha : (material.textures.any (hasAlpha p) && !material.transparent) = true
  · rw [if_pos halpha, if_pos halpha]
    exact (tells_warn _).note_first (fun _ => htextures _) hkinds
  · rw [if_neg halpha, if_neg halpha]
    exact htextures _

lemma tells_writeVertexAnimation (mesh : Mesh) (o : Object) (a : Bake.VertexAnimation) :
    Tells p path owner [] (Project.animationNotes o mesh a) (writeVertexAnimation mesh o a) := by
  unfold writeVertexAnimation Project.animationNotes
  by_cases hbaked : (!a.isBaked) = true
  · rw [if_pos hbaked, if_pos hbaked]
    exact (tells_warn _).note fun _ => tells_pure _
  rw [if_neg hbaked, if_neg hbaked]
  by_cases hcount : a.vertexCount? ≠ some mesh.positions.length
  · rw [if_pos hcount, if_pos hcount]
    exact (tells_err _).note fun _ => tells_pure _
  · rw [if_neg hcount, if_neg hcount]
    exact (tells_push _).note fun _ => tells_pure _

lemma tells_writeMesh (mesh : Mesh) (o : Object) :
    Tells p path (some (.object o)) [.mesh mesh] [] (writeMesh p mesh o) := by
  refine tells_once (b := .mesh mesh) ?_
  cases meshFlaw? mesh with
  | some reason => exact tells_throw _
  | none =>
    rw [Project.notes]
    have hrefs : p.references (.mesh mesh) =
        (mesh.materials.filterMap p.material?).map .material ++ [] :=
      (List.append_nil _).symm
    rw [hrefs]
    refine (tells_mapM_needed tells_writeMaterial mesh.materials).bind fun materials => ?_
    refine Tells.bind (tells_push _) fun position => (tells_push _).bind fun normal => ?_
    refine Tells.bind (tells_push _) fun indices => ?_
    dsimp only
    by_cases hexport : o.exportVertexAnimations = true
    · rw [if_pos hexport, if_pos hexport]
      exact (tells_mapM_notes (tells_writeVertexAnimation mesh o) _).add _
    · rw [if_neg hexport, if_neg hexport]
      exact (tells_pure _).add _

/-- A sound is told of for its speaker. One that cannot be named stays marked, and the reason is
noted. -/
lemma tells_writeSound (speaker : Speaker) (sound : Sound) :
    Tells p path (some (.speaker speaker)) [.sound sound] [] (writeSound p sound) := by
  refine tells_once (b := .sound sound) fun w _ w' h hpath => ?_
  obtain ⟨filepath, v, hv, h⟩ := runs_bind.mp h
  obtain ⟨htold, hnamed⟩ : Told p path (some (.sound sound)) [] [] w v ∧ _ :=
    told_mediaPath hv hpath
  have hnotes : p.notes path (some (.speaker speaker)) (.sound sound) = [] := by
    simp [Project.notes, hnamed]
  rw [hnotes]
  exact htold.note (tells_changeManifest _ h htold.1)

lemma told_refused {speaker : Speaker} {sound : Sound} {e : Error}
    (h : Fails (writeSound p sound) w e v) (hpath : w.context.path = path) :
    ∃ reason, e = .path reason ∧ ∀ {u : Unit} {w' : Walk},
      Runs (err ("Speaker \"" ++ speaker.name ++ "\": " ++ reason.message)) v u w' →
        Told p path (some (.speaker speaker)) [.sound sound] [] w w' := by
  obtain ⟨hfresh, h⟩ := fails_once.mp h
  simp only [fails_bind, not_fails_changeManifest, and_false, exists_false, or_false] at h
  obtain ⟨rfl, reason, rfl, hreason⟩ := refusal_of_fails h
  have hrefused : p.refusal? path sound.filepath sound.packed = some reason := hpath ▸ hreason
  refine ⟨reason, rfl, fun herr => told_entered (b := .sound sound) hfresh ?_⟩
  have hnotes : p.notes path (some (.speaker speaker)) (.sound sound) =
      [.error ("Speaker \"" ++ speaker.name ++ "\": " ++ reason.message)] := by
    simp [Project.notes, hrefused]
  rw [hnotes]
  exact tells_err _ herr hpath

lemma tells_writeSpeaker (speaker : Speaker) :
    Tells p path owner [.speaker speaker] [] (writeSpeaker p speaker) := by
  refine tells_once (b := .speaker speaker) ?_
  cases hsound : speaker.sound with
  | none =>
    have hrefs : p.references (.speaker speaker) = [] := by simp [Project.references, hsound]
    rw [hrefs]
    exact (tells_pure none).add _
  | some name =>
    refine tells_need fun sound hfound => ?_
    have hrefs : p.references (.speaker speaker) = [.sound sound] := by
      simp [Project.references, hsound, hfound]
    rw [hrefs]
    refine Tells.add (fun w r w' h hpath => ?_) _
    rcases runs_tryCatch.mp h with h | ⟨e, v, hfail, h⟩
    · exact (tells_writeSound speaker sound).map some h hpath
    · obtain ⟨reason, rfl, htold⟩ := told_refused (fails_map.mp hfail) hpath
      obtain ⟨_, u, herr, h⟩ := runs_bind.mp h
      obtain ⟨-, rfl⟩ := runs_pure.mp h
      exact htold herr

lemma tells_writeArmature (armature : Armature) :
    Tells p path owner [.armature armature] [] (writeArmature p armature) :=
  tells_once (b := .armature armature) (tells_changeManifest _)

lemma fractional_encodeComponents (e : Encoding) (done : List (Nat × Manifest.CurveEntry))
    (cs : List (Nat × Curve Float)) : (encodeComponents e done cs).2.fractional =
      (e.fractional || (cs.map Prod.snd).any fun c => (Keyframes.encode c).fractional) := by
  induction cs generalizing e done with
  | nil => simp [encodeComponents]
  | cons c cs ih =>
    rw [encodeComponents, ih]
    simp [encodeCurve, Bool.or_assoc]

lemma fractional_encodePaths (e : Encoding) (paths : List (String × List (Curve Float))) :
    (encodePaths e paths).2.fractional = (e.fractional ||
      (paths.flatMap fun (path, curves) => (components path curves).map Prod.snd).any
        fun c => (Keyframes.encode c).fractional) := by
  induction paths generalizing e with
  | nil => simp [encodePaths]
  | cons slot paths ih =>
    rw [encodePaths]
    simp [ih, fractional_encodeComponents, Bool.or_assoc]

lemma encodeAction_messages (a : Action Float) (uuid : String) (sections : Sections)
    (messages : Messages) :
    (encodeAction a uuid sections messages).2.2 = messages.noted (Project.curveNotes a) := by
  have hfractional : (encodePaths ⟨sections, false⟩ (curvesByPath a)).2.fractional =
      (Project.exportedCurves a).any fun c => (Keyframes.encode c).fractional := by
    rw [fractional_encodePaths, Bool.false_or]
    rfl
  unfold encodeAction Project.curveNotes
  dsimp only
  rw [hfractional]
  split_ifs <;> simp [Messages.warn_eq, Messages.err_eq]

lemma tells_writeAction (action : Action Float) :
    Tells p path owner [.action action] [] (writeAction p action) := by
  refine tells_once (b := .action action) fun w _ w' h hpath => ?_
  simp only [runs_bind, runs_get, runs_changeContext, runs_changeManifest] at h
  obtain ⟨_, v, ⟨rfl, rfl⟩, _, u, rfl, rfl⟩ := h
  exact told_noted hpath rfl rfl (encodeAction_messages action (p.uuid action) _ _)

lemma tells_writeData (o : Object) :
    Tells p path (some (.object o)) (p.shown? o).toList [] (writeData p o) := by
  unfold writeData Project.shown?
  cases hdata : o.data with
  | none => cases o.kind <;> exact tells_pure none
  | some name =>
    cases o.kind with
    | mesh =>
      refine tells_need fun mesh hfound => ?_
      simpa [hfound] using (tells_writeMesh mesh o).map some
    | armature =>
      refine tells_need fun armature hfound => ?_
      simpa [hfound] using (tells_writeArmature armature).map some
    | speaker =>
      refine tells_need fun speaker hfound => ?_
      simpa [hfound] using (tells_writeSpeaker speaker).map some
    | empty | camera | lamp => exact tells_pure none

lemma tells_writePlayed (o : Object) (name : String) :
    Tells p path owner ((p.actions.playable? name).map Block.action).toList
      (if (p.actions.playable? name).isSome then []
      else
        [.warning ("Object \"" ++ o.name ++ "\" references a missing action \"" ++ name ++ "\".")])
      (writePlayed p o name) := by
  unfold writePlayed
  cases p.actions.playable? name with
  | none => exact (tells_warn _).quietly fun _ => tells_pure none
  | some action => exact (tells_writeAction action).map some

/-- What an object carries is told of, then a missing action is noted. -/
lemma tells_writeObjectBody (o : Object) :
    Tells p path (some (.object o)) (carried p o) (p.notes path owner (.object o))
      (writeObjectBody p o) := by
  refine (tells_writeData o).bind fun data => ?_
  rw [Project.notes, Project.played?]
  cases o.animation with
  | none => exact (tells_pure _).add _
  | some animation =>
    dsimp only [Option.bind_some]
    cases animation.action with
    | none => exact (tells_pure _).quietly fun _ => (tells_pure _).add _
    | some name => exact (tells_writePlayed o name).quietly fun _ => (tells_pure _).add _

/-- A climb from the object of a name that finds every parent. The objects that it marked are
written from the top down, as a chronicle leaves them: each is entered before its parent and left
after it. -/
lemma told_climb (marks : List String) (chain : List Object) (name : String)
    (hmissing : (climb p marks chain name).missing = none) :
    ∃ o above, p.object? name = some o ∧ (climb p marks chain name).chain = above ++ chain ∧
      ∀ owner w v w', w.context.path = path → w.context.exported = marks →
        v = { w with context := { w.context with exported := (climb p marks chain name).marks } } →
        Runs (above.forM (writeObjectBody p)) v () w' → Told p path owner [.object o] [] w w' := by
  fun_induction climb p marks chain name with
  | case1 => simp at hmissing
  | case2 marks chain name o hfound hmarked =>
    refine ⟨o, [], hfound, rfl, fun owner w v w' hpath hw hv h => ?_⟩
    rw [runs_forM_nil] at h
    rw [h, hv, ← hw]
    exact told_known hpath (hw ▸ hmarked)
  | case3 marks chain name o hfound hmarked hparent =>
    refine ⟨o, [o], hfound, rfl, fun owner w v w' hpath hw hv h => ?_⟩
    simp only [runs_forM_cons, runs_forM_nil] at h
    obtain ⟨_, h, rfl⟩ := h
    have hrefs : p.references (.object o) = carried p o := by
      simp [Project.references, hparent, carried]
    have hstart : v = w.marked (p.uuid o) := by
      rw [hv, ← hw]
      rfl
    refine told_entered (hw ▸ hmarked) ?_
    rw [hrefs]
    exact tells_writeObjectBody o (hstart ▸ h) hpath
  | case4 marks chain name o hfound hmarked parent hparent ih =>
    obtain ⟨q, above, hq, habove, hrun⟩ := ih hmissing
    refine ⟨o, above ++ [o], hfound, by simp [habove], fun owner w v w' hpath hw hv h => ?_⟩
    simp only [runs_forM_append, runs_forM_cons, runs_forM_nil] at h
    obtain ⟨u, hu, _, h, rfl⟩ := h
    have hrefs : p.references (.object o) = [.object q] ++ carried p o := by
      simp [Project.references, hparent, hq, carried]
    have hparents : Told p path (some (.object o)) [.object q] [] (w.marked (p.uuid o)) u := by
      refine hrun _ _ v u hpath ?_ hv hu
      rw [← hw]
      rfl
    refine told_entered (hw ▸ hmarked) ?_
    rw [hrefs]
    exact hparents.append (tells_writeObjectBody o h hparents.1)

lemma tells_writeObject {o : Object} (hfound : p.object? o.name = some o) :
    Tells p path owner [.object o] [] (writeObject p o) := by
  intro w r w' h hpath
  obtain ⟨-, hmissing, hrun⟩ := runs_writeObject hfound h
  obtain ⟨q, above, hq, habove, htold⟩ := told_climb (p := p) _ _ _ hmissing
  obtain rfl : o = q := by simpa [hfound] using hq
  rw [habove, List.append_nil] at hrun
  exact htold owner w _ _ hpath rfl rfl hrun

lemma tells_writeSceneObject (kind : String) (scene : Scene) (name : String) :
    Tells p path owner ((p.exportedObject? name).map Block.object).toList []
      (writeSceneObject p kind scene name) := by
  refine tells_need fun o hfound => ?_
  cases hskip : o.doNotExport with
  | true => simpa [Project.exportedObject?, hfound, hskip, Option.filter] using tells_pure none
  | false =>
    have hwrite : Tells p path owner [.object o] [] (some <$> writeObject p o) :=
      (tells_writeObject (Project.named?_name hfound)).map some
    simpa [Project.exportedObject?, hfound, hskip, Option.filter] using hwrite

lemma tells_writeScene (scene : Scene) :
    Tells p path owner [.scene scene] [] (writeScene p scene) := by
  refine tells_once (b := .scene scene) ?_
  rw [references_scene]
  refine (tells_mapM (tells_writeSceneObject _ scene) _).bind fun objects => ?_
  cases scene.camera with
  | none => exact (tells_pure _).add _
  | some name =>
    have hone : staged p (some name).toList =
        ((p.exportedObject? name).map Block.object).toList := by
      cases hfound : p.exportedObject? name <;> simp [staged, hfound]
    rw [hone]
    exact (tells_writeSceneObject _ scene name).add _

theorem tells_run (scenes : List Scene) : Tells p path none (roots p scenes) [] (run p scenes) := by
  rw [roots_eq_flatMap]
  refine (tells_forM (fun scene => ?_) scenes).bind fun _ =>
    tells_forM (fun action => ?_) p.actions.actions
  · exact (tells_writeScene scene).quietly fun _ => tells_pure _
  · cases p.actions.hasBaked action with
    | true => exact tells_pure _
    | false => exact (tells_writeAction action).quietly fun _ => tells_pure _

end Walk

/-- The walk of an export that comes to its end has gathered the messages of the chronicle. -/
theorem raises_run {p : Project} {path : String} {html : Bool} {c c' : Context} {m m' : Manifest}
    (h : Runs (Walk.run p (p.scenes.filter fun s => !s.doNotExport)) ⟨c.begin path html, m⟩
      () ⟨c', m'⟩) :
    ∃ notes, Raises p path notes ∧ c'.messages = .ofNotes notes := by
  obtain ⟨-, notes, hchronicle, hmessages⟩ := Walk.tells_run _ h rfl
  refine ⟨notes, hchronicle.raises, ?_⟩
  rw [List.append_nil] at hmessages
  exact hmessages

end Export

end SceneExport
