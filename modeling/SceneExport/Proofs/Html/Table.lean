import Mathlib
import SceneExport.Html.Bundle
import SceneExport.Proofs.Bytes.Base64
import SceneExport.Proofs.Entries
import SceneExport.Proofs.Files.Rollback
import SceneExport.Proofs.Json.Spelling
import SceneExport.Proofs.Walk.Elsewhere
import SceneExport.Proofs.Walk.Reach

/-!
# What the table of a bundle holds

All files of a bundle stand in one table, and a file that is put under a key takes the place of one
that is there. The keys come from the names of media, of the binary file, of the manifest and of the
files of the player, and nothing keeps them apart. Media and their converted forms never spoil each
other, since what is put under a path is what the path leads to. The manifest comes last and is
never lost. So a resource is lost if and only if it has the key of the manifest, or the key of a
file of the player with another content, or, for the binary file, that of media with another
content.
-/
namespace SceneExport.Export

section Steps

variable {σ β γ : Type} {c c' : Context} {s s' : σ}

/-- From a context and files the step ends well, with a result, a context and files. -/
def RunsOn (m : ExportM (StateM σ) β) (c : Context) (s : σ) (b : β) (c' : Context)
    (s' : σ) : Prop :=
  onFiles m c s = ((.ok b, c'), s')

lemma exists_runsOn {m : ExportM (StateM σ) β} (h : (onFiles m c s).1.1.toOption.isSome) :
    ∃ b c' s', RunsOn m c s b c' s' := by
  unfold RunsOn
  rcases hrun : onFiles m c s with ⟨⟨_ | b, c'⟩, s'⟩
  · simp [hrun, Except.toOption] at h
  · exact ⟨b, c', s', rfl⟩

@[simp] theorem runsOn_bind {m : ExportM (StateM σ) β} {f : β → ExportM (StateM σ) γ} {r : γ} :
    RunsOn (m >>= f) c s r c' s' ↔ ∃ b c₁ s₁,
    RunsOn m c s b c₁ s₁ ∧ RunsOn (f b) c₁ s₁ r c' s' := by
  unfold RunsOn
  rw [onFiles_bind]
  rcases onFiles m c s with ⟨⟨_ | b, c₁⟩, s₁⟩ <;> simp

@[simp] theorem runsOn_pure {b r : β} :
    RunsOn (pure b : ExportM (StateM σ) β) c s r c' s' ↔ b = r ∧ c = c' ∧ s = s' := by
  change (((.ok b, c), s) : (Except Error β × Context) × σ) = ((.ok r, c'), s') ↔ _
  simp [and_assoc]

@[simp] theorem not_runsOn_throw {e : Error} {r : β} :
    ¬ RunsOn (throw e : ExportM (StateM σ) β) c s r c' s' := by
  change ¬ (((.error e, c), s) : (Except Error β × Context) × σ) = ((.ok r, c'), s')
  simp

@[simp] theorem runsOn_get {r : Context} :
    RunsOn (get : ExportM (StateM σ) Context) c s r c' s' ↔ c = r ∧ c = c' ∧ s = s' := by
  change (((.ok c, c), s) : (Except Error Context × Context) × σ) = ((.ok r, c'), s') ↔ _
  simp [and_assoc]

@[simp] theorem runsOn_modify {f : Context → Context} {u : PUnit} :
    RunsOn (modify f : ExportM (StateM σ) PUnit) c s u c' s' ↔ f c = c' ∧ s = s' := by
  change (((.ok ⟨⟩, f c), s) : (Except Error PUnit × Context) × σ) = ((.ok u, c'), s') ↔ _
  simp

@[simp] theorem runsOn_liftM {m : StateM σ β} {r : β} :
    RunsOn (liftM m) c s r c' s' ↔ m.run s = (r, s') ∧ c = c' := by
  unfold RunsOn
  rw [onFiles_liftM]
  constructor
  · intro h
    cases h
    exact ⟨rfl, rfl⟩
  · rintro ⟨h, rfl⟩
    rw [h]

@[simp] theorem runsOn_liftExcept {result : Except Error β} {r : β} :
    RunsOn (liftExcept result : ExportM (StateM σ) β) c s r c' s' ↔
      result = .ok r ∧ c = c' ∧ s = s' := by
  cases result with
  | error e => simp [liftExcept]
  | ok b => simp [liftExcept]

@[simp] theorem runsOn_liftContext {step : ContextM β} {r : β} :
    RunsOn (liftContext step : ExportM (StateM σ) β) c s r c' s' ↔ Runs step c r c' ∧ s = s' := by
  unfold RunsOn Runs
  rw [onFiles_liftContext]
  simp

end Steps

/-- Looking at files changes nothing. -/
class LooksOnly (σ : Type) [Files (StateM σ)] : Prop where
  isFile (path : String) (s : σ) : ((Files.isFile path : StateM σ Bool).run s).2 = s
  read (path : String) (s : σ) : ((Files.read path : StateM σ (Except String Bytes)).run s).2 = s

instance : LooksOnly Disk := ⟨fun _ _ => rfl, fun _ _ => rfl⟩

instance : LooksOnly Unreliable := ⟨fun _ _ => rfl, fun _ _ => rfl⟩

section Resources

variable {σ : Type} [Files (StateM σ)] [LooksOnly σ]

/-- What a resource is resolved to. -/
def Media.resource (media : Media) (path directory : String) (s : σ) :
    Except Error (Option Bytes) :=
  ((media.resolve path directory : StateM σ (Except Error (Option Bytes) × Media)).run s).1.1

omit [LooksOnly σ] in
lemma Media.run_resolve_file {media : Media} {path : String} (h : media.packed.lookup path = none)
    (directory : String) (s : σ) :
    (media.resolve path directory : StateM σ (Except Error (Option Bytes) × Media)).run s =
      match (Files.isFile (diskPath path directory) : StateM σ Bool).run s with
      | (false, s₁) => ((.ok none, { media with stats.misses := media.stats.misses + 1 }), s₁)
      | (true, s₁) =>
        match (Files.read (diskPath path directory) : StateM σ (Except String Bytes)).run s₁ with
        | (.ok content, s₂) =>
          ((.ok (some content), { media with stats.disk := media.stats.disk + 1 }), s₂)
        | (.error reason, s₂) =>
          ((.error (.file (diskPath path directory) reason), media), s₂) := by
  unfold resolve
  rw [h]
  dsimp only
  rw [StateT.run_bind]
  rcases (Files.isFile (diskPath path directory) : StateM σ Bool).run s with ⟨_ | _, s₁⟩
  · rfl
  · change (StateT.run (_ >>= _) s₁) = _
    rw [StateT.run_bind]
    dsimp only
    rcases (Files.read (diskPath path directory) : StateM σ (Except String Bytes)).run s₁
      with ⟨_ | _, s₂⟩
    · rfl
    · rfl

/-- Looking for a resource changes neither the files nor the packed media. A resource that is not
packed is the same for all media. -/
lemma Media.run_resolve (media : Media) (path directory : String) (s : σ) :
    ∃ media',
    (media.resolve path directory : StateM σ (Except Error (Option Bytes) × Media)).run s =
      ((media.resource path directory s, media'), s) ∧ media'.packed = media.packed ∧
      media.resource path directory s = (media.packed.lookup path).elim
        (Media.empty.resource path directory s) fun content => .ok (some content) := by
  unfold resource
  cases hlookup : media.packed.lookup path with
  | some content =>
    unfold resolve
    rw [hlookup]
    exact ⟨_, rfl, rfl, rfl⟩
  | none =>
    have hempty : Media.empty.packed.lookup path = none := rfl
    have hisFile := LooksOnly.isFile (diskPath path directory) s
    have hread := LooksOnly.read (diskPath path directory) s
    rw [run_resolve_file hlookup, run_resolve_file hempty]
    rcases hrun : (Files.isFile (diskPath path directory) : StateM σ Bool).run s with ⟨_ | _, s₁⟩
    · rw [hrun] at hisFile
      obtain rfl : s₁ = s := hisFile
      exact ⟨_, rfl, rfl, rfl⟩
    · rw [hrun] at hisFile
      obtain rfl : s₁ = s := hisFile
      dsimp only
      rcases hrun' :
        (Files.read (diskPath path directory) : StateM σ (Except String Bytes)).run s₁ with
        ⟨_ | content, s₂⟩
      · rw [hrun'] at hread
        obtain rfl : s₂ = s₁ := hread
        exact ⟨_, rfl, rfl, rfl⟩
      · rw [hrun'] at hread
        obtain rfl : s₂ = s₁ := hread
        exact ⟨_, rfl, rfl, rfl⟩

lemma Media.resource_congr {media media' : Media} (h : media'.packed = media.packed)
    (path directory : String) (s : σ) :
    media'.resource path directory s = media.resource path directory s := by
  obtain ⟨_, -, -, heq⟩ := media.run_resolve path directory s
  obtain ⟨_, -, -, heq'⟩ := media'.run_resolve path directory s
  rw [heq, heq', h]

end Resources

end SceneExport.Export

namespace SceneExport.Html

open Export (Context Error ExportM LooksOnly Media Output RunsOn)
open Manifest (ImageEntry SoundEntry)

/-- The table with a value under each of the keys. -/
def fill (value : String → Json) (keys : List String) (table : Table) : Table :=
  keys.foldl (fun table key => Entries.put key (value key) table) table

lemma fill_append (value : String → Json) (keys keys' : List String) (table : Table) :
    fill value (keys ++ keys') table = fill value keys' (fill value keys table) :=
  List.foldl_append

lemma lookup_fill (value : String → Json) (keys : List String) (table : Table) (key : String) :
    (fill value keys table).lookup key = if key ∈ keys then some (value key)
    else table.lookup key := by
  induction keys generalizing table with
  | nil => simp [fill]
  | cons k keys ih =>
    have hstep : fill value (k :: keys) table = fill value keys (Entries.put k (value k) table) :=
      rfl
    rw [hstep, ih, Entries.lookup_put]
    by_cases hkey : key ∈ keys
    · simp [hkey]
    · by_cases hk : k = key
      · simp [hk]
      · simp [hkey, hk, Ne.symm hk]

/-- The value that a file has in a table. -/
def tableValue : Except Error (Option Bytes) → Json
  | .ok (some content) => .text (Base64.encode content)
  | _ => .null

lemma tableValue_eq_text_iff {r : Except Error (Option Bytes)} {content : Bytes} :
    tableValue r = .text (Base64.encode content) ↔ r = .ok (some content) := by
  rcases r with _ | _ | content'
  · simp [tableValue]
  · simp [tableValue]
  · simp [tableValue, Base64.encode_injective.eq_iff]

lemma exists_of_tableValue_ne_null {r : Except Error (Option Bytes)} (h : tableValue r ≠ .null) :
    ∃ content, r = .ok (some content) := by
  rcases r with _ | _ | content
  · exact absurd rfl h
  · exact absurd rfl h
  · exact ⟨content, rfl⟩

/-- The contexts have the same packed media and options. -/
structure Alike (c c' : Context) : Prop where
  packed : c'.media.packed = c.media.packed
  config : c'.config = c.config

section Steps

variable {σ : Type} [Files (StateM σ)] [LooksOnly σ] {c₀ c c' : Context} {s s' : σ}
    {path directory : String}

lemma Alike.isPacked (h : Alike c₀ c) : c.media.isPacked path = c₀.media.isPacked path := by
  rw [Media.isPacked, Media.isPacked, h.packed]

lemma runsOn_encoded? {r : Option String} (hc : Alike c₀ c)
    (h : RunsOn (encoded? path directory) c s r c' s') :
    s' = s ∧ Alike c₀ c' ∧
      ∃ content, c₀.media.resource path directory s = .ok content ∧
      r = content.map Base64.encode := by
  unfold encoded? at h
  simp only [Export.runsOn_bind, Export.runsOn_get, Export.runsOn_liftM, Export.runsOn_modify,
    Export.runsOn_liftExcept, Export.runsOn_pure] at h
  obtain ⟨_, c, s, ⟨rfl, rfl, rfl⟩, ⟨result, media⟩, c₁, s₁, ⟨hrun, rfl⟩, _, c₂, s₂, ⟨rfl, rfl⟩,
      content, c₃, s₃,
    ⟨hresult, rfl, rfl⟩, rfl, rfl, rfl⟩ := h
  obtain ⟨media', hresolve, hpacked, -⟩ := c.media.run_resolve path directory s
  rw [hresolve] at hrun
  cases hrun
  refine ⟨rfl, ⟨hpacked.trans hc.packed, hc.config⟩, content, ?_, rfl⟩
  rw [← hresult, Media.resource_congr hc.packed]

lemma runsOn_required {value : Json} (hc : Alike c₀ c)
    (h : RunsOn (required path directory) c s value c' s') :
    s' = s ∧ Alike c₀ c' ∧ value = tableValue (c₀.media.resource path directory s) ∧
      tableValue (c₀.media.resource path directory s) ≠ .null := by
  unfold required at h
  obtain ⟨text, c₁, s₁, hencoded, h⟩ := Export.runsOn_bind.mp h
  obtain ⟨rfl, hc₁, content, hresource, rfl⟩ := runsOn_encoded? hc hencoded
  cases content with
  | none => exact absurd h Export.not_runsOn_throw
  | some content =>
    obtain ⟨rfl, rfl, rfl⟩ := Export.runsOn_pure.mp h
    rw [hresource]
    exact ⟨rfl, hc₁, rfl, by simp [tableValue]⟩

/-- The step leaves the files alone and puts a value under each of the keys; those that it must find
it finds. -/
def Fills (c₀ : Context) (s : σ) (value : String → Json) (keys found : List String)
    (m : Table → ExportM (StateM σ) Table) : Prop :=
  ∀ ⦃c table table' c' s'⦄, Alike c₀ c → RunsOn (m table) c s table' c' s' →
    s' = s ∧ Alike c₀ c' ∧ table' = fill value keys table ∧ ∀ key ∈ found, value key ≠ .null

variable {value : String → Json} {keys keys' found found' : List String}

omit [Files (StateM σ)] [LooksOnly σ] in
lemma fills_pure : Fills c₀ s value [] [] fun table => pure table := by
  intro c table table' c' s' hc h
  obtain ⟨rfl, rfl, rfl⟩ := Export.runsOn_pure.mp h
  exact ⟨rfl, hc, rfl, by simp⟩

omit [Files (StateM σ)] [LooksOnly σ] in
lemma Fills.bind {m m' : Table → ExportM (StateM σ) Table} (hm : Fills c₀ s value keys found m)
    (hm' : Fills c₀ s value keys' found' m') :
    Fills c₀ s value (keys ++ keys') (found ++ found') fun table => m table >>= m' := by
  intro c table table' c' s' hc h
  obtain ⟨table₁, c₁, s₁, h₁, h⟩ := Export.runsOn_bind.mp h
  obtain ⟨rfl, hc₁, rfl, hfound⟩ := hm hc h₁
  obtain ⟨rfl, hc', rfl, hfound'⟩ := hm' hc₁ h
  exact ⟨rfl, hc', (fill_append ..).symm, List.forall_mem_append.mpr ⟨hfound, hfound'⟩⟩

omit [Files (StateM σ)] [LooksOnly σ] in
lemma fills_foldlM {β : Type} {f : Table → β → ExportM (StateM σ) Table}
    {keysOf foundOf : β → List String}
    (hf : ∀ x, Fills c₀ s value (keysOf x) (foundOf x) fun table => f table x) (xs : List β) :
    Fills c₀ s value (xs.flatMap keysOf) (xs.flatMap foundOf) fun table => xs.foldlM f table := by
  induction xs with
  | nil => exact fills_pure
  | cons x xs ih =>
    simp only [List.flatMap_cons, List.foldlM_cons]
    exact (hf x).bind ih

/-- What is put under the path of an image or sound. -/
def mediaValue (c : Context) (directory : String) (s : σ) (path : String) : Json :=
  tableValue (c.media.resource path directory s)

/-- What is put under the name of a file of the player. -/
def assetValue (c : Context) (player : String) (s : σ) (name : String) : Json :=
  tableValue (c.media.resource (Path.join player name) "" s)

lemma fills_addConverted (source converted : String) :
    Fills c₀ s (mediaValue c₀ directory s) (if c₀.media.isPacked source then [] else [converted]) []
      (addConverted directory source converted) := by
  intro c table table' c' s' hc h
  unfold addConverted at h
  obtain ⟨_, _, _, ⟨rfl, rfl, rfl⟩, h⟩ := Export.runsOn_bind.mp h
  rw [hc.isPacked] at h
  split at h
  · next hpacked =>
    simp only [Export.runsOn_bind, Export.runsOn_modify, Export.runsOn_pure] at h
    obtain ⟨_, _, _, ⟨rfl, rfl⟩, rfl, rfl, rfl⟩ := h
    rw [if_pos hpacked]
    exact ⟨rfl, ⟨hc.packed, hc.config⟩, rfl, by simp⟩
  · next hpacked =>
    obtain ⟨text, c₁, s₁, hencoded, h⟩ := Export.runsOn_bind.mp h
    obtain ⟨rfl, hc₁, content, hresource, rfl⟩ := runsOn_encoded? hc hencoded
    have hvalue : mediaValue c₀ directory s₁ converted = tableValue (.ok content) :=
      congrArg tableValue hresource
    rw [if_neg hpacked]
    cases content with
    | none =>
      simp only [Option.map_none, Export.runsOn_bind, Export.runsOn_modify, Export.runsOn_pure] at h
      obtain ⟨_, _, _, ⟨rfl, rfl⟩, rfl, rfl, rfl⟩ := h
      refine ⟨rfl, ⟨hc₁.packed, hc₁.config⟩, ?_, by simp⟩
      rw [fill, List.foldl_cons, hvalue]
      rfl
    | some content =>
      obtain ⟨rfl, rfl, rfl⟩ := Export.runsOn_pure.mp h
      refine ⟨rfl, hc₁, ?_, by simp⟩
      rw [fill, List.foldl_cons, hvalue]
      rfl

/-- The keys of the converted forms of an image. -/
def imageVariants (c : Context) (e : ImageEntry) : List String :=
  if c.media.isPacked e.filepath || e.source ≠ "MOVIE" || !c.config.convertedMedia then []
  else (movieVariant? e.filepath).elim [] fun converted =>
      [converted, Path.stem e.filepath ++ ".altconv.seq"]

/-- The key of the converted form of a sound. -/
def soundVariants (c : Context) (e : SoundEntry) : List String :=
  if c.media.isPacked e.filepath || !c.config.convertedMedia then []
      else (soundVariant? e.filepath).toList

/-- The path of an image whose file is part of a bundle. -/
def imagePaths (e : ImageEntry) : List String :=
  if e.source ≠ "FILE" && e.source ≠ "MOVIE" then [] else [e.filepath]

lemma fills_addImage (e : ImageEntry) : Fills c₀ s (mediaValue c₀ directory s)
    (imagePaths e ++ imageVariants c₀ e) (imagePaths e) fun table =>
      addImage directory table e := by
  intro c table table' c' s' hc h
  unfold addImage at h
  unfold imagePaths
  split at h
  · next hsource =>
    have hnone : imageVariants c₀ e = [] := by simp_all [imageVariants]
    rw [if_pos hsource, hnone]
    exact fills_pure hc h
  · next hsource =>
    obtain ⟨_, c₁, s₁, hrequired, h⟩ := Export.runsOn_bind.mp h
    obtain ⟨rfl, hc₁, rfl, hvalue⟩ := runsOn_required hc hrequired
    obtain ⟨_, _, _, ⟨rfl, rfl, rfl⟩, h⟩ := Export.runsOn_bind.mp h
    rw [hc₁.config] at h
    have hrest : s' = s₁ ∧ Alike c₀ c' ∧
        table' = fill (mediaValue c₀ directory s₁) (imageVariants c₀ e)
        (Entries.put e.filepath (mediaValue c₀ directory s₁ e.filepath) table) := by
      unfold imageVariants
      split at h
      · next hplain =>
        obtain ⟨rfl, rfl, rfl⟩ := Export.runsOn_pure.mp h
        rw [Bool.or_assoc, hplain, Bool.or_true, if_pos rfl]
        exact ⟨rfl, hc₁, rfl⟩
      · next hplain =>
        rw [Bool.or_assoc, Bool.eq_false_iff.mpr hplain, Bool.or_false]
        split at h
        · next hnone =>
          obtain ⟨rfl, rfl, rfl⟩ := Export.runsOn_pure.mp h
          rw [hnone, Option.elim_none, ite_self]
          exact ⟨rfl, hc₁, rfl⟩
        · next converted hsome =>
          obtain ⟨hs, hc', htable, -⟩ := ((fills_addConverted e.filepath converted).bind
            (fills_addConverted e.filepath (Path.stem e.filepath ++ ".altconv.seq"))) hc₁ h
          refine ⟨hs, hc', htable.trans ?_⟩
          rw [hsome, Option.elim_some]
          split <;> rfl
    obtain ⟨hs, hc', rfl⟩ := hrest
    rw [if_neg hsource]
    exact ⟨hs, hc', rfl, List.forall_mem_singleton.mpr hvalue⟩

lemma fills_addSound (e : SoundEntry) : Fills c₀ s (mediaValue c₀ directory s)
    (e.filepath :: soundVariants c₀ e) [e.filepath] fun table => addSound directory table e := by
  intro c table table' c' s' hc h
  unfold addSound at h
  obtain ⟨_, c₁, s₁, hrequired, h⟩ := Export.runsOn_bind.mp h
  obtain ⟨rfl, hc₁, rfl, hvalue⟩ := runsOn_required hc hrequired
  obtain ⟨_, _, _, ⟨rfl, rfl, rfl⟩, h⟩ := Export.runsOn_bind.mp h
  rw [hc₁.config] at h
  have hrest : s' = s₁ ∧ Alike c₀ c' ∧
      table' = fill (mediaValue c₀ directory s₁) (soundVariants c₀ e)
      (Entries.put e.filepath (mediaValue c₀ directory s₁ e.filepath) table) := by
    unfold soundVariants
    split at h
    · next hplain =>
      obtain ⟨rfl, rfl, rfl⟩ := Export.runsOn_pure.mp h
      rw [hplain, Bool.or_true, if_pos rfl]
      exact ⟨rfl, hc₁, rfl⟩
    · next hplain =>
      rw [Bool.eq_false_iff.mpr hplain, Bool.or_false]
      split at h
      · next hnone =>
        obtain ⟨rfl, rfl, rfl⟩ := Export.runsOn_pure.mp h
        rw [hnone, Option.toList_none, ite_self]
        exact ⟨rfl, hc₁, rfl⟩
      · next converted hsome =>
        obtain ⟨hs, hc', htable, -⟩ := fills_addConverted e.filepath converted hc₁ h
        refine ⟨hs, hc', htable.trans ?_⟩
        rw [hsome, Option.toList_some]
        rfl
  obtain ⟨hs, hc', rfl⟩ := hrest
  exact ⟨hs, hc', rfl, List.forall_mem_singleton.mpr hvalue⟩

lemma fills_addAsset (player name : String) : Fills c₀ s (assetValue c₀ player s) [name] []
    fun table => addAsset player table name := by
  intro c table table' c' s' hc h
  unfold addAsset at h
  obtain ⟨text, c₁, s₁, hencoded, h⟩ := Export.runsOn_bind.mp h
  obtain ⟨rfl, hc₁, content, hresource, rfl⟩ := runsOn_encoded? hc hencoded
  have hvalue : assetValue c₀ player s₁ name = tableValue (.ok content) :=
    congrArg tableValue hresource
  cases content with
  | none =>
    simp only [Option.map_none, Export.runsOn_bind, Export.runsOn_modify, Export.runsOn_pure] at h
    obtain ⟨_, _, _, ⟨rfl, rfl⟩, rfl, rfl, rfl⟩ := h
    refine ⟨rfl, ⟨hc₁.packed, hc₁.config⟩, ?_, by simp⟩
    rw [fill, List.foldl_cons, hvalue]
    rfl
  | some content =>
    obtain ⟨rfl, rfl, rfl⟩ := Export.runsOn_pure.mp h
    refine ⟨rfl, hc₁, ?_, by simp⟩
    rw [fill, List.foldl_cons, hvalue]
    rfl

/-- The paths of the media that a bundle holds. -/
def mediaPaths (m : Manifest) : List String :=
  m.images.flatMap imagePaths ++ m.sounds.flatMap fun e => [e.filepath]

/-- The keys of these media and of their converted forms. -/
def mediaKeys (c : Context) (m : Manifest) : List String :=
  m.images.flatMap (fun e => imagePaths e ++ imageVariants c e) ++
    m.sounds.flatMap fun e => e.filepath :: soundVariants c e

omit [Files (StateM σ)] [LooksOnly σ] in
lemma mediaPaths_subset_mediaKeys (c : Context) (m : Manifest) : mediaPaths m ⊆ mediaKeys c m := by
  intro path hpath
  simp only [mediaPaths, mediaKeys, List.mem_append, List.mem_flatMap] at hpath ⊢
  rcases hpath with ⟨e, he, hpath⟩ | ⟨e, he, hpath⟩
  · exact .inl ⟨e, he, .inl hpath⟩
  · exact .inr ⟨e, he, List.mem_cons.mpr (.inl (List.mem_singleton.mp hpath))⟩

lemma forall_mem_mediaPaths {m : Manifest} {P : String → Prop} : (∀ path ∈ mediaPaths m, P path) ↔
    (∀ e ∈ m.images, e.source = "FILE" ∨ e.source = "MOVIE" → P e.filepath) ∧ ∀ e ∈ m.sounds,
    P e.filepath := by
  have himage : ∀ e, (∀ path ∈ imagePaths e, P path) ↔
      (e.source = "FILE" ∨ e.source = "MOVIE" → P e.filepath) := by
    intro e
    by_cases hfile : e.source = "FILE"
    · simp [imagePaths, hfile]
    · by_cases hmovie : e.source = "MOVIE" <;> simp [imagePaths, hfile, hmovie]
  simp only [mediaPaths, List.forall_mem_append, List.forall_mem_flatMap, himage,
    List.forall_mem_singleton]

/-- The manifest as it stands in a bundle: it has the messages that came up since the export. -/
def embedded (m : Manifest) (c c' : Context) : Manifest :=
  { m with
    warnings := m.warnings ++ c'.messages.warnings.drop c.messages.warnings.length
    errors := m.errors ++ c'.messages.errors.drop c.messages.errors.length }

/-- The table before media are put into it. -/
def startTable (mainFile : String) (out : Output) : Table :=
  match out.manifest.binaryFile?, out.binary with
  | some name, some content =>
    Entries.put name (.text (Base64.encode content))
      (Entries.put mainFile .null [("main_file", .text mainFile)])
  | _, _ => Entries.put mainFile .null [("main_file", .text mainFile)]

lemma runsOn_dataTable {out : Output} {player : String} {table : Table}
    (h : RunsOn (dataTable out player) c s table c' s') :
    s' = s ∧ (∀ key ∈ mediaPaths out.manifest, mediaValue c (Path.directory c.path) s key ≠ .null) ∧
      table = Entries.put c.config.mainFile (.text ((embedded out.manifest c c').toText .compact))
        (fill (assetValue c player s) c.config.runtimeAssets
          (fill (mediaValue c (Path.directory c.path) s) (mediaKeys c out.manifest)
            (startTable c.config.mainFile out))) := by
  unfold dataTable at h
  obtain ⟨_, _, _, ⟨rfl, rfl, rfl⟩, h⟩ := Export.runsOn_bind.mp h
  obtain ⟨table₁, c₁, s₁, himages, h⟩ := Export.runsOn_bind.mp h
  obtain ⟨table₂, c₂, s₂, hsounds, h⟩ := Export.runsOn_bind.mp h
  obtain ⟨table₃, c₃, s₃, hassets, h⟩ := Export.runsOn_bind.mp h
  simp only [Export.runsOn_bind, Export.runsOn_get, Export.runsOn_pure] at h
  obtain ⟨_, _, _, ⟨rfl, rfl, rfl⟩, rfl, rfl, rfl⟩ := h
  have hc : Alike c c := ⟨rfl, rfl⟩
  obtain ⟨rfl, hc₁, rfl, hfound⟩ := fills_foldlM fills_addImage _ hc himages
  obtain ⟨rfl, hc₂, rfl, hfound'⟩ := fills_foldlM fills_addSound _ hc₁ hsounds
  obtain ⟨rfl, -, rfl, -⟩ := fills_foldlM (fills_addAsset player) _ hc₂ hassets
  refine ⟨rfl, List.forall_mem_append.mpr ⟨hfound, hfound'⟩, ?_⟩
  rw [mediaKeys, fill_append, List.flatMap_singleton']
  rfl

/-- Where a key of the table has its value from. -/
lemma lookup_dataTable {out : Output} {player : String} {table : Table}
    (h : RunsOn (dataTable out player) c s table c' s') (key : String) :
    table.lookup key =
      if key = c.config.mainFile then some (.text ((embedded out.manifest c c').toText .compact))
      else if key ∈ c.config.runtimeAssets then some (assetValue c player s key)
      else if key ∈ mediaKeys c out.manifest then some (mediaValue c (Path.directory c.path) s key)
      else (startTable c.config.mainFile out).lookup key := by
  obtain ⟨-, -, rfl⟩ := runsOn_dataTable h
  rw [Entries.lookup_put, lookup_fill, lookup_fill]
  simp only [eq_comm]

/-- The text of a manifest is that of no file. -/
lemma toText_ne_encode (m : Manifest) (content : Bytes) :
    m.toText .compact ≠ Base64.encode content := by
  intro htext
  have hbrace : (Base64.encode content).toList.head? = some '{' := by
    rw [← htext]
    exact Json.head?_render_object _ _
  exact absurd (Base64.value?_of_head?_encode hbrace) (by decide)

/-- A key leads to a file if and only if the last to be put under it is this file. -/
lemma lookup_eq_file_iff {out : Output} {player : String} {table : Table}
    (h : RunsOn (dataTable out player) c s table c' s') (key : String) (content : Bytes) :
    table.lookup key = some (.text (Base64.encode content)) ↔ key ≠ c.config.mainFile ∧
      if key ∈ c.config.runtimeAssets then c.media.resource (Path.join player key) "" s =
        .ok (some content)
      else if key ∈ mediaKeys c out.manifest then
        c.media.resource key (Path.directory c.path) s = .ok (some content)
      else (startTable c.config.mainFile out).lookup key =
        some (.text (Base64.encode content)) := by
  rw [lookup_dataTable h]
  by_cases hmain : key = c.config.mainFile
  · simp [hmain, toText_ne_encode]
  rw [if_neg hmain]
  by_cases hasset : key ∈ c.config.runtimeAssets
  · simp [hmain, hasset, assetValue, tableValue_eq_text_iff]
  by_cases hmedia : key ∈ mediaKeys c out.manifest
  · simp [hmain, hasset, hmedia, mediaValue, tableValue_eq_text_iff]
  · simp [hmain, hasset, hmedia]

/-- The table holds the binary file, and under the path of every image and sound what it leads
to. -/
structure Carries (c : Context) (s : σ) (out : Output) (table : Table) : Prop where
  binary : ∀ name, out.manifest.binaryFile? = some name →
    ∃ content, out.binary = some content ∧ table.lookup name = some (.text (Base64.encode content))
  images : ∀ e ∈ out.manifest.images, e.source = "FILE" ∨ e.source = "MOVIE" →
    ∃ content, c.media.resource e.filepath (Path.directory c.path) s = .ok (some content) ∧
      table.lookup e.filepath = some (.text (Base64.encode content))
  sounds : ∀ e ∈ out.manifest.sounds,
    ∃ content, c.media.resource e.filepath (Path.directory c.path) s = .ok (some content) ∧
      table.lookup e.filepath = some (.text (Base64.encode content))

/-- No file has the key of the manifest, or that of a file which comes later and has another
content. -/
structure Undisturbed (c : Context) (s : σ) (out : Output) (player : String) : Prop where
  binary : ∀ name content, out.manifest.binaryFile? = some name → out.binary = some content →
    name ≠ c.config.mainFile ∧
      if name ∈ c.config.runtimeAssets then c.media.resource (Path.join player name) "" s =
        .ok (some content)
      else name ∈ mediaKeys c out.manifest →
      c.media.resource name (Path.directory c.path) s = .ok (some content)
  media : ∀ path ∈ mediaPaths out.manifest, path ≠ c.config.mainFile ∧
    (path ∈ c.config.runtimeAssets →
      c.media.resource (Path.join player path) "" s =
        c.media.resource path (Path.directory c.path) s)

lemma carries_binary_iff {out : Output} {player : String} {table : Table}
    (h : RunsOn (dataTable out player) c s table c' s') {name : String} {content : Bytes}
    (hname : out.manifest.binaryFile? = some name) (hcontent : out.binary = some content) :
    table.lookup name = some (.text (Base64.encode content)) ↔ name ≠ c.config.mainFile ∧
      if name ∈ c.config.runtimeAssets then c.media.resource (Path.join player name) "" s =
        .ok (some content)
      else name ∈ mediaKeys c out.manifest →
        c.media.resource name (Path.directory c.path) s = .ok (some content) := by
  rw [lookup_eq_file_iff h]
  have hstart : (startTable c.config.mainFile out).lookup name =
      some (.text (Base64.encode content)) := by
    rw [startTable, hname, hcontent, Entries.lookup_put, if_pos rfl]
  refine and_congr_right fun _ => ?_
  by_cases hasset : name ∈ c.config.runtimeAssets
  · simp [hasset]
  · by_cases hmedia : name ∈ mediaKeys c out.manifest <;> simp [hasset, hmedia, hstart]

lemma carries_media_iff {out : Output} {player : String} {table : Table}
    (h : RunsOn (dataTable out player) c s table c' s') {path : String}
    (hpath : path ∈ mediaPaths out.manifest) :
    (∃ content, c.media.resource path (Path.directory c.path) s = .ok (some content) ∧
      table.lookup path = some (.text (Base64.encode content))) ↔
    path ≠ c.config.mainFile ∧ (path ∈ c.config.runtimeAssets →
      c.media.resource (Path.join player path) "" s =
        c.media.resource path (Path.directory c.path) s) := by
  obtain ⟨-, hfound, -⟩ := runsOn_dataTable h
  obtain ⟨content, hcontent⟩ := exists_of_tableValue_ne_null (hfound path hpath)
  have hkey := mediaPaths_subset_mediaKeys c out.manifest hpath
  simp only [lookup_eq_file_iff h, hcontent, hkey, if_true, Except.ok.injEq, Option.some.injEq,
    exists_eq_left']
  refine and_congr_right fun _ => ?_
  by_cases hasset : path ∈ c.config.runtimeAssets <;> simp [hasset]

lemma carries_iff {out : Output} {player : String} {table : Table}
    (h : RunsOn (dataTable out player) c s table c' s')
    (hbinary : out.manifest.binaryFile?.isSome → out.binary.isSome) :
    Carries c s out table ↔ Undisturbed c s out player := by
  have hmedia : (∀ path ∈ mediaPaths out.manifest,
      ∃ content, c.media.resource path (Path.directory c.path) s = .ok (some content) ∧
        table.lookup path = some (.text (Base64.encode content))) ↔
      ∀ path ∈ mediaPaths out.manifest, path ≠ c.config.mainFile ∧ (path ∈ c.config.runtimeAssets →
        c.media.resource (Path.join player path) "" s =
          c.media.resource path (Path.directory c.path) s) :=
    forall₂_congr fun path hpath => carries_media_iff h hpath
  constructor
  · intro hcarries
    refine ⟨fun name content hname hcontent => ?_, ?_⟩
    · obtain ⟨content', hcontent', hlookup⟩ := hcarries.binary name hname
      obtain rfl : content' = content := Option.some.inj (hcontent'.symm.trans hcontent)
      exact (carries_binary_iff h hname hcontent).mp hlookup
    · exact hmedia.mp (forall_mem_mediaPaths.mpr ⟨hcarries.images, hcarries.sounds⟩)
  · intro hclear
    obtain ⟨himages, hsounds⟩ := forall_mem_mediaPaths.mp (hmedia.mpr hclear.media)
    refine ⟨fun name hname => ?_, himages, hsounds⟩
    obtain ⟨content, hcontent⟩ := Option.isSome_iff_exists.mp (hbinary (hname ▸ rfl))
    exact ⟨content, hcontent,
      (carries_binary_iff h hname hcontent).mpr (hclear.binary name content hname hcontent)⟩

variable {p : Project} {player : Player} {html : String}

omit [LooksOnly σ] in
lemma runsOn_exportHtml (h : RunsOn (exportHtml p path player) c s html c' s') :
    ∃ out c₁ table source,
    Export.Runs (Export.exportScene p (Path.join (Path.directory path) c.config.mainFile) true) c
      out c₁ ∧
    RunsOn (dataTable out player.directory) c₁ s table c' s' ∧
    bundle player.template player.script player.style (Json.object table).compact (metaTag source) =
      .ok html := by
  unfold exportHtml at h
  simp only [Export.runsOn_bind, Export.runsOn_get, Export.runsOn_liftContext,
    Export.runsOn_liftExcept] at h
  obtain ⟨_, _, _, ⟨rfl, rfl, rfl⟩, out, c₁, s₁, ⟨hexport, rfl⟩, table, c₂, s₂, hdata, _, _, _,
      ⟨rfl, rfl, rfl⟩,
    _, _, _, ⟨-, rfl, rfl⟩, source, _, _, ⟨-, rfl, rfl⟩, hbundle, rfl, rfl⟩ := h
  exact ⟨out, c₁, table, source, hexport, hdata, hbundle⟩

/-- A bundle is built from a table that holds the manifest. It also holds the binary file and all
media if and only if none of them has the key of the manifest, or that of a file which comes later
and has another content. -/
theorem exportHtml_carries_iff (h : RunsOn (exportHtml p path player) c s html c' s') :
    ∃ out c₁ table source,
    Export.Runs (Export.exportScene p (Path.join (Path.directory path) c.config.mainFile) true) c
      out c₁ ∧
    RunsOn (dataTable out player.directory) c₁ s table c' s' ∧
    bundle player.template player.script player.style (Json.object table).compact (metaTag source) =
      .ok html ∧
    table.lookup c.config.mainFile = some (.text ((embedded out.manifest c₁ c').toText .compact)) ∧
    (Carries c₁ s out table ↔ Undisturbed c₁ s out player.directory) := by
  obtain ⟨out, c₁, table, source, hexport, hdata, hbundle⟩ := runsOn_exportHtml h
  refine ⟨out, c₁, table, source, hexport, hdata, hbundle, ?_, ?_⟩
  · rw [lookup_dataTable hdata, (Export.exportScene_keeps hexport).1, if_pos rfl]
  · refine carries_iff hdata fun hname => ?_
    rwa [Export.binaryFile?_exportScene hexport, Option.isSome_map] at hname

end Steps

/-- A bell with a sound that stands beside the project. -/
def chime : Project where
  filepath := "/chime.blend"
  exportPathJson := none
  exportPathHtml := none
  scenes := [⟨"tower", none, ["bell"], 1, 2, 24, none, false⟩]
  objects :=
    [⟨"bell", none, .speaker, some "clapper", none, .replicate 16 0, none, [], false, [], false⟩]
  meshes := []
  materials := []
  textures := []
  images := []
  sounds := [⟨"stroke", none, "//stroke.ogg", none⟩]
  speakers := [⟨"clapper", none, some "stroke", 1, 1, false, 10, false⟩]
  armatures := []
  actions := ⟨[]⟩

/-- A player without any files. -/
def barePlayer : Player := ⟨"/player", "$b4w_meta", "", ""⟩

/-- A disk with the sound of the bell. -/
def chimeDisk : Disk := ⟨[(["stroke.ogg"], .file [79, 103, 103])], []⟩

/-- A context in which the player has a file that is named like the sound. -/
def crossed : Context := { Export.blank with config.runtimeAssets := ["stroke.ogg"] }

/-- The sound of the bell is in its bundle, unless a file of the player has its name: then it is
lost, even if there is no such file. -/
theorem chime_carries :
    (∃ html c' d',
      RunsOn (exportHtml chime "/chime.html" barePlayer) Export.blank chimeDisk html c' d' ∧
      ∃ out c₁ table, RunsOn (dataTable out "/player") c₁ chimeDisk table c' d' ∧
        Carries c₁ chimeDisk out table) ∧
    ∃ html c' d', RunsOn (exportHtml chime "/chime.html" barePlayer) crossed chimeDisk html c' d' ∧
      ∃ out c₁ table, RunsOn (dataTable out "/player") c₁ chimeDisk table c' d' ∧
        ¬ Carries c₁ chimeDisk out table := by
  constructor
  · obtain ⟨html, c', d', h⟩ :=
      Export.exists_runsOn (m := exportHtml chime "/chime.html" barePlayer)
      (c := Export.blank) (s := chimeDisk) (by decide +kernel)
    obtain ⟨out, c₁, table, _, hexport, hdata, -, -, hcarries⟩ := exportHtml_carries_iff h
    refine ⟨html, c', d', h, out, c₁, table, hdata, hcarries.mpr ?_⟩
    have hout :
        (Export.after (Export.exportScene chime "/main.json" true) Export.blank).1.toOption.map
        (fun out => (out.manifest.binaryFile?, mediaPaths out.manifest)) =
        some (none, ["stroke.ogg"]) := by
      decide +kernel
    have hafter : Export.after (Export.exportScene chime "/main.json" true) Export.blank =
        (.ok out, c₁) := hexport
    rw [hafter] at hout
    obtain ⟨hbinary, hpaths⟩ := Prod.ext_iff.mp (Option.some.inj hout)
    dsimp only at hbinary hpaths
    refine ⟨fun _ _ hname => ?_, ?_⟩
    · rw [hbinary] at hname
      cases hname
    · rw [hpaths, List.forall_mem_singleton, (Export.exportScene_keeps hexport).1]
      exact ⟨by decide, fun hasset => absurd hasset (by decide)⟩
  · obtain ⟨html, c', d', h⟩ :=
      Export.exists_runsOn (m := exportHtml chime "/chime.html" barePlayer)
      (c := crossed) (s := chimeDisk) (by decide +kernel)
    obtain ⟨out, c₁, table, _, hexport, hdata, -, -, hcarries⟩ := exportHtml_carries_iff h
    refine ⟨html, c', d', h, out, c₁, table, hdata, fun hall => ?_⟩
    have hout : ((Export.after (Export.exportScene chime "/main.json" true) crossed).1.toOption.map
        (fun out => mediaPaths out.manifest),
        (Export.after (Export.exportScene chime "/main.json" true) crossed).2.media.packed) =
          (some ["stroke.ogg"], []) := by
      decide +kernel
    have hafter : Export.after (Export.exportScene chime "/main.json" true) crossed =
        (.ok out, c₁) := hexport
    rw [hafter] at hout
    obtain ⟨hpaths, hpacked⟩ := Prod.ext_iff.mp hout
    have hmedia : mediaPaths out.manifest = ["stroke.ogg"] := Option.some.inj hpaths
    have hmem : "stroke.ogg" ∈ mediaPaths out.manifest := hmedia ▸ List.mem_singleton.mpr rfl
    obtain ⟨hconfig, -, hpath, -⟩ := Export.exportScene_keeps hexport
    have hsame := ((hcarries.mp hall).media _ hmem).2 (hconfig ▸ by decide)
    have hempty : c₁.media.packed = Media.empty.packed := hpacked
    rw [Media.resource_congr hempty, Media.resource_congr hempty, hpath] at hsame
    exact absurd (congrArg Except.toOption hsame) (by decide +kernel)

end SceneExport.Html
