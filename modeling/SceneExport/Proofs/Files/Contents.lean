import Mathlib
import SceneExport.Files.Disk
import SceneExport.Proofs.Basics
import SceneExport.Proofs.Entries

/-!
# What is in the files of a disk

Operations on files leave all directories as they are, so a path leads to the same place before and
after them. What they do is then told by the content that each place has: a write sets one place, a
move sets two, and a removal clears one. Making directories changes no file.

Writes and moves may fail for other reasons than the disk knows of, and a write that fails may leave
some content behind. `OnDisk` collects what is known of operations on files in any case.
-/
namespace SceneExport

/-- The content of the file at each place; none where there is no file. -/
abbrev Contents : Type := List String → Option Bytes

/-- The contents with one place changed, if there is a place to change. -/
def Contents.set (f : Contents) (spot : Option (List String)) (content : Option Bytes) : Contents :=
  fun place => if spot = some place then content else f place

namespace Disk

variable {d d' : Disk} {path : String} {place : List String}

def file? (d : Disk) : Contents := fun place =>
  match d.node? place with
  | some (.file content) => some content
  | _ => none

/-- The place of a path, if a file can be there. -/
def spot? (d : Disk) (path : String) : Option (List String) :=
  (d.locateFile path).toOption

/-- The same files, with the same contents. -/
def SameFiles (d d' : Disk) : Prop :=
  ∀ place, d'.file? place = d.file? place

/-- The same directories, and relative paths start in the same one. -/
structure SameDirectories (d d' : Disk) : Prop where
  working : d'.workingDirectory = d.workingDirectory
  directories : ∀ place, d'.isDirectoryAt place = d.isDirectoryAt place

namespace SameDirectories

lemma refl (d : Disk) : SameDirectories d d := ⟨rfl, fun _ => rfl⟩

lemma trans {d₁ d₂ d₃ : Disk} (h : SameDirectories d₁ d₂) (h' : SameDirectories d₂ d₃) :
    SameDirectories d₁ d₃ :=
  ⟨h'.working.trans h.working, fun place => (h'.directories place).trans (h.directories place)⟩

lemma toOption_step (h : SameDirectories d d') (place : List String) (name : String) :
    (d'.step place name).toOption = (d.step place name).toOption := by
  unfold step
  rw [h.directories]
  split
  · rfl
  · rfl

lemma toOption_foldlM (h : SameDirectories d d') (names : List String) (place : List String) :
    (names.foldlM d'.step place).toOption = (names.foldlM d.step place).toOption := by
  induction names generalizing place with
  | nil => rfl
  | cons name names ih =>
    rw [List.foldlM_cons, List.foldlM_cons, toOption_bind, toOption_bind, h.toOption_step]
    exact congrArg _ (funext ih)

/-- Every path leads to the same place. -/
theorem spot?_eq (h : SameDirectories d d') : d'.spot? = d.spot? := by
  funext path
  have hlocate : (d'.locate path).toOption = (d.locate path).toOption := by
    have hstart : d'.start path = d.start path := by rw [start, start, h.working]
    unfold locate
    dsimp only
    rw [hstart]
    split
    · rfl
    · rw [toOption_bind, toOption_bind]
      exact congrArg _ (funext (h.toOption_foldlM _))
  rw [spot?, spot?, locateFile, locateFile, toOption_bind, toOption_bind, hlocate]
  refine congrArg _ (funext fun place => ?_)
  rw [h.directories]

end SameDirectories

lemma spot?_eq_some_iff : d.spot? path = some place ↔ d.locateFile path = .ok place := by
  unfold spot?
  cases d.locateFile path <;> simp [Except.toOption]

/-- A place for files is no directory, and not the root. -/
lemma not_directory_of_spot? (h : d.spot? path = some place) :
    d.isDirectoryAt place = false ∧ place ≠ [] := by
  have hdirectory : d.isDirectoryAt place = false := by
    rw [spot?, locateFile, toOption_bind] at h
    obtain ⟨place', -, hplace⟩ := Option.bind_eq_some_iff.mp h
    split at hplace
    · cases hplace
    · rename_i hnot
      obtain rfl : place' = place := Option.some.inj hplace
      simpa using hnot
  refine ⟨hdirectory, ?_⟩
  rintro rfl
  simp [isDirectoryAt, node?] at hdirectory

lemma node?_put (hplace : place ≠ []) (node : Node) (other : List String) :
    (d.put place node).node? other = if place = other then some node else d.node? other := by
  unfold node? put
  by_cases hother : other = []
  · simp [hother, hplace]
  · simp [hother, Entries.lookup_put]

lemma node?_erase (hplace : place ≠ []) (other : List String) :
    (d.erase place).node? other = if place = other then none else d.node? other := by
  unfold node? erase
  by_cases hother : other = []
  · simp [hother, hplace]
  · simp only [List.isEmpty_iff, hother, if_false, Entries.lookup_filter_ne]

/-- Where no directory is, there is a file or nothing afterwards, and all else is as before. -/
lemma set_file {content : Option Bytes} (hdirectory : d.isDirectoryAt place = false)
    (hworking : d'.workingDirectory = d.workingDirectory)
    (hnodes : ∀ other, d'.node? other = if place = other then content.map .file
      else d.node? other) :
    SameDirectories d d' ∧ d'.file? = d.file?.set (some place) content := by
  refine ⟨⟨hworking, fun other => ?_⟩, funext fun other => ?_⟩
  · rw [isDirectoryAt, hnodes, isDirectoryAt]
    by_cases h : place = other
    · subst h
      cases content <;> simpa [isDirectoryAt] using hdirectory.symm
    · simp [h]
  · rw [file?, hnodes, Contents.set, file?]
    by_cases h : place = other
    · cases content <;> simp [h]
    · simp [h]

lemma put_file (hdirectory : d.isDirectoryAt place = false) (hplace : place ≠ [])
    (content : Bytes) :
    SameDirectories d (d.put place (.file content)) ∧
      (d.put place (.file content)).file? = d.file?.set (some place) (some content) :=
  set_file hdirectory rfl (node?_put hplace (.file content))

lemma erase_file (hdirectory : d.isDirectoryAt place = false) (hplace : place ≠ []) :
    SameDirectories d (d.erase place) ∧ (d.erase place).file? = d.file?.set (some place) none :=
  set_file hdirectory rfl (node?_erase hplace)

lemma write_eq_ok {content : Bytes} (h : d.write path content = .ok d') :
    SameDirectories d d' ∧ d'.file? = d.file?.set (d.spot? path) (some content) ∧
      (d.spot? path).isSome := by
  unfold write at h
  cases hplace : d.locateFile path with
  | error reason =>
    rw [hplace] at h
    cases h
  | ok place =>
    rw [hplace] at h
    cases h
    rw [← spot?_eq_some_iff] at hplace
    obtain ⟨hdirectory, hne⟩ := not_directory_of_spot? hplace
    obtain ⟨hsame, hfile⟩ := put_file hdirectory hne content
    rw [hplace]
    exact ⟨hsame, hfile, rfl⟩

lemma rename_eq_ok {source target : String} (h : d.rename source target = .ok d') :
    SameDirectories d d' ∧ (d.spot? target).isSome ∧ ∃ content,
      (d.spot? source).bind d.file? = some content ∧
      d'.file? = (d.file?.set (d.spot? source) none).set (d.spot? target) (some content) := by
  unfold rename at h
  cases horigin : d.locateFile source with
  | error reason =>
    rw [horigin] at h
    cases h
  | ok origin =>
    rw [horigin] at h
    rw [← spot?_eq_some_iff] at horigin
    obtain ⟨hdirectory, hne⟩ := not_directory_of_spot? horigin
    simp only [bind, Except.bind] at h
    cases hnode : d.node? origin with
    | none =>
      rw [hnode] at h
      cases h
    | some node =>
      rw [hnode] at h
      cases node with
      | directory => simp [isDirectoryAt, hnode] at hdirectory
      | file content =>
        cases htarget : d.locateFile target with
        | error reason =>
          rw [htarget] at h
          cases h
        | ok place =>
          rw [htarget] at h
          cases h
          rw [← spot?_eq_some_iff] at htarget
          obtain ⟨hdirectory', hne'⟩ := not_directory_of_spot? htarget
          obtain ⟨hsame, hfile⟩ := erase_file hdirectory hne
          obtain ⟨hsame', hfile'⟩ :=
            put_file ((hsame.directories place).trans hdirectory') hne' content
          refine ⟨hsame.trans hsame', by rw [htarget]; rfl, content, ?_, ?_⟩
          · simp [horigin, file?, hnode]
          · rw [hfile', hfile, horigin, htarget]

lemma attempt_ok {f : Disk → Except String Disk} (h : f d = .ok d') :
    (attempt f).run d = (.ok (), d') := by
  simp only [attempt, StateT.run, h]

lemma attempt_error {f : Disk → Except String Disk} {reason : String} (h : f d = .error reason) :
    (attempt f).run d = (.error reason, d) := by
  simp only [attempt, StateT.run, h]

/-- The disk after a file is removed, if it can be. -/
def without (d : Disk) (path : String) : Disk :=
  ((attempt fun d => d.remove path).run d).2

lemma without_spec (d : Disk) (path : String) :
    SameDirectories d (d.without path) ∧
    (d.without path).file? = d.file?.set (d.spot? path) none := by
  unfold without
  cases hplace : d.locateFile path with
  | error reason =>
    have hremove : d.remove path = .error reason := by
      rw [remove, hplace]
      rfl
    have hspot : d.spot? path = none := by simp [spot?, hplace, Except.toOption]
    rw [attempt_error hremove, hspot]
    exact ⟨.refl d, rfl⟩
  | ok place =>
    have hremove : d.remove path =
        if (d.node? place).isSome then .ok (d.erase place)
          else .error "No such file or directory" := by
      rw [remove, hplace]
      rfl
    have hspot := spot?_eq_some_iff.mpr hplace
    obtain ⟨hdirectory, hne⟩ := not_directory_of_spot? hspot
    rw [hspot]
    cases hnode : d.node? place with
    | none =>
      rw [hnode] at hremove
      rw [attempt_error hremove]
      refine ⟨.refl d, funext fun other => ?_⟩
      rw [Contents.set]
      split
      · rename_i heq
        rw [← Option.some.inj heq, file?, hnode]
      · rfl
    | some node =>
      rw [hnode] at hremove
      rw [attempt_ok hremove]
      exact erase_file hdirectory hne

/-- A directory is put where nothing is. -/
lemma sameFiles_put_directory (hnode : d.node? place = none) :
    SameFiles d (d.put place .directory) := by
  have hplace : place ≠ [] := by
    rintro rfl
    cases hnode
  intro other
  rw [file?, node?_put hplace, file?]
  by_cases h : place = other
  · subst h
    simp [hnode]
  · simp [h]

lemma sameFiles_makeFrom (d : Disk) (place : List String) (names : List String) :
    SameFiles d (d.makeFrom place names).2 := by
  fun_induction makeFrom d place names with
  | case1 => exact fun _ => rfl
  | case2 => exact fun _ => rfl
  | case3 d place name rest next hstep hnode ih =>
    exact fun other => (ih other).trans (sameFiles_put_directory hnode other)
  | case4 d place name rest next hstep hnode ih => exact ih
  | case5 => exact fun _ => rfl

lemma sameFiles_makeDirectories (d : Disk) (path : String) :
    SameFiles d (d.makeDirectories path).2 := by
  unfold makeDirectories
  split
  · exact fun _ => rfl
  · dsimp only
    split
    · exact sameFiles_makeFrom d _ _
    · exact sameFiles_makeFrom d _ _

/-- How a write can end: well, with nothing done, or with something else in the file. -/
inductive Writes (residue : Bytes → Prop) (d : Disk) (path : String) (content : Bytes) :
    Except String Unit → Disk → Prop
  | done {d' : Disk} : d.write path content = .ok d' → Writes residue d path content (.ok ()) d'
  | refused (reason : String) : Writes residue d path content (.error reason) d
  | broken {d' : Disk} {left : Bytes} (reason : String) :
      residue left → d.write path left = .ok d' →
    Writes residue d path content (.error reason) d'

/-- How a move can end. -/
inductive Moves (d : Disk) (source target : String) : Except String Unit → Disk → Prop
  | done {d' : Disk} : d.rename source target = .ok d' → Moves d source target (.ok ()) d'
  | refused (reason : String) : Moves d source target (.error reason) d

lemma writes_attempt (residue : Bytes → Prop) (d : Disk) (path : String) (content : Bytes) :
    Writes residue d path content ((attempt fun d => d.write path content).run d).1
      ((attempt fun d => d.write path content).run d).2 := by
  cases h : d.write path content with
  | error reason =>
    rw [attempt_error h]
    exact .refused reason
  | ok d' =>
    rw [attempt_ok h]
    exact .done h

lemma moves_attempt (d : Disk) (source target : String) :
    Moves d source target ((attempt fun d => d.rename source target).run d).1
      ((attempt fun d => d.rename source target).run d).2 := by
  cases h : d.rename source target with
  | error reason =>
    rw [attempt_error h]
    exact .refused reason
  | ok d' =>
    rw [attempt_ok h]
    exact .done h

end Disk

/-- Files that are on a disk. Writes and moves may fail although the disk would allow them, and then
a write may leave some content. -/
class OnDisk (σ : Type) [Files (StateM σ)] where
  disk : σ → Disk
  /-- What may be found in a file after a write that failed. -/
  residue : Bytes → Prop
  isDirectory (path : String) (s : σ) :
    disk ((Files.isDirectory path : StateM σ Bool).run s).2 = disk s
  makeDirectories (path : String) (s : σ) :
    (disk s).SameFiles (disk ((Files.makeDirectories path : StateM σ (Except String Unit)).run s).2)
  write (path : String) (content : Bytes) (s : σ) : Disk.Writes residue (disk s) path content
    ((Files.write path content : StateM σ (Except String Unit)).run s).1
    (disk ((Files.write path content : StateM σ (Except String Unit)).run s).2)
  rename (source target : String) (s : σ) : Disk.Moves (disk s) source target
    ((Files.rename source target : StateM σ (Except String Unit)).run s).1
    (disk ((Files.rename source target : StateM σ (Except String Unit)).run s).2)
  remove (path : String) (s : σ) :
    disk ((Files.remove path : StateM σ (Except String Unit)).run s).2 = (disk s).without path

/-- A disk fails for its own reasons only, and leaves nothing. -/
instance : OnDisk Disk where
  disk := id
  residue := fun _ => False
  isDirectory _ _ := rfl
  makeDirectories path d := d.sameFiles_makeDirectories path
  write path content d := d.writes_attempt _ path content
  rename source target d := d.moves_attempt source target
  remove _ _ := rfl

/-- Why an operation fails, and what a write leaves in the file then, if it gets that far. -/
structure Mishap where
  reason : String
  left : Option Bytes

/-- A disk, and which of the writes and moves to come will fail on it. -/
structure Unreliable where
  disk : Disk
  mishaps : List (Option Mishap)

namespace Unreliable

variable {β : Type}

def onDisk (m : StateM Disk β) : StateM Unreliable β := fun u =>
  ((m.run u.disk).1, { u with disk := (m.run u.disk).2 })

/-- What is in store for the next write or move. -/
def mishap? : StateM Unreliable (Option Mishap) := fun u =>
  (u.mishaps.head?.join, { u with mishaps := u.mishaps.tail })

instance : Files (StateM Unreliable) where
  isFile path := onDisk (Files.isFile path)
  isDirectory path := onDisk (Files.isDirectory path)
  read path := onDisk (Files.read path)
  write path content := do
    match ← mishap? with
    | none => onDisk (Files.write path content)
    | some ⟨reason, none⟩ => return .error reason
    | some ⟨reason, some left⟩ =>
      let _ ← onDisk (Files.write path left)
      return .error reason
  rename source target := do
    match ← mishap? with
    | none => onDisk (Files.rename source target)
    | some mishap => return .error mishap.reason
  remove path := onDisk (Files.remove path)
  makeDirectories path := onDisk (Files.makeDirectories path)
  filesBelow path := onDisk (Files.filesBelow path)
  workingDirectory := onDisk Files.workingDirectory

instance : OnDisk Unreliable where
  disk := Unreliable.disk
  residue := fun _ => True
  isDirectory _ _ := rfl
  makeDirectories path u := u.disk.sameFiles_makeDirectories path
  write path content u := by
    obtain ⟨d, mishaps⟩ := u
    rcases mishaps with _ | ⟨_ | ⟨reason, _ | left⟩, mishaps⟩
    · exact d.writes_attempt _ path content
    · exact d.writes_attempt _ path content
    · exact .refused reason
    · change Disk.Writes _ d path content (.error reason)
        ((Disk.attempt fun d => d.write path left).run d).2
      cases h : d.write path left with
      | error _ =>
        rw [Disk.attempt_error h]
        exact .refused reason
      | ok d' =>
        rw [Disk.attempt_ok h]
        exact .broken reason trivial h
  rename source target u := by
    obtain ⟨d, mishaps⟩ := u
    rcases mishaps with _ | ⟨_ | mishap, mishaps⟩
    · exact d.moves_attempt source target
    · exact d.moves_attempt source target
    · exact .refused mishap.reason
  remove _ _ := rfl

end Unreliable

end SceneExport
