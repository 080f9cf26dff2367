import Mathlib
import SceneExport.Proofs.Path.Lookup
import SceneExport.Proofs.Text.Search

/-!
# Paths on one drive

An absolute path on a drive starts with the letter, a colon and a separator. Its directory is cut
off as a text. Below the root of the drive the directory is absolute on the same drive, but the
directory of a file in the root has lost its separator and is read as a relative path. So paths of
one drive are related to an export exactly when it lies below the root. A resource named from the
source file is on the drive of the source file unless an absolute path stands behind its mark, which
is then taken as it is.
-/
namespace SceneExport.Path

variable {path base : String} {drive : Char} {below : List Char}

/-- The path is absolute on a drive, and this stands behind the separator of its root. The letter
may be small or a capital, and the separator a slash or a backslash. -/
inductive OnDrive (drive : Char) (below : List Char) (path : String) : Prop
  | intro (letter slash : Char) : path.toList = letter :: ':' :: slash :: below →
    Text.isAsciiLetter letter = true → letter.toUpper = drive → isSlash slash = true →
    OnDrive drive below path

/-- What stands behind the root leads through a directory at least. -/
def BelowRoot (below : List Char) : Prop :=
  ∃ c ∈ below, isSlash c = true

lemma isSlash_letter {letter : Char} (h : Text.isAsciiLetter letter = true) :
    isSlash letter = false := by
  rw [isSlash, Bool.or_eq_false_iff, decide_eq_false_iff_not, decide_eq_false_iff_not]
  constructor <;> rintro rfl <;> exact absurd h (by decide)

namespace Place

/-- What a text that starts with a letter and a colon is read as. -/
lemma ofText_lettered {letter : Char} {rest : List Char} (h : path.toList = letter :: ':' :: rest)
    (hletter : Text.isAsciiLetter letter = true) : (ofText path).drive = some letter.toUpper ∧
      (isAbsolute path = true ↔ (slashed rest).head? = some '/') := by
  have hback : letter ≠ '\\' := by
    rintro rfl
    exact absurd hletter (by decide)
  have hslashed : slashed path.toList = letter :: ':' :: slashed rest := by
    simp [h, slashed, hback]
  have hread := ofText_eq_of_split (hslashed ▸ splitDrive_letter hletter (slashed rest))
  rw [isAbsolute, hread]
  exact ⟨rfl, decide_eq_true_iff⟩

end Place

open Place

namespace OnDrive

lemma read (h : OnDrive drive below path) :
    (ofText path).drive = some drive ∧ isAbsolute path = true := by
  obtain ⟨letter, slash, hpath, hletter, rfl, hslash⟩ := h
  obtain ⟨hdrive, habs⟩ := ofText_lettered hpath hletter
  exact ⟨hdrive, habs.mpr ((head?_slashed_cons below).mpr hslash)⟩

lemma ne_empty (h : OnDrive drive below path) : path ≠ "" := by
  obtain ⟨letter, slash, hpath, -⟩ := h
  rintro rfl
  cases hpath

/-- The directory of a path below the root of its drive is on the drive too; that of a path in the
root is the letter and the colon. -/
lemma toList_directory (h : OnDrive drive below path) :
    (BelowRoot below ∧ ∃ below', OnDrive drive below' (directory path)) ∨
      ¬ BelowRoot below ∧ ∃ letter, (directory path).toList = [letter, ':'] ∧
        Text.isAsciiLetter letter = true ∧ letter.toUpper = drive := by
  obtain ⟨letter, slash, hpath, hletter, hdrive, hslash⟩ := h
  by_cases hbelow : BelowRoot below
  · obtain ⟨xs, c, ys, rfl, hc, hys⟩ := exists_last hbelow
    refine .inl ⟨hbelow, xs, letter, slash, ?_, hletter, hdrive, hslash⟩
    simp [directory, hpath, Text.lastIndex?, Text.lastIndex?_append_cons xs hc hys]
  · have hnone : ∀ c ∈ below, isSlash c = false := by simpa [BelowRoot] using hbelow
    refine .inr ⟨hbelow, letter, ?_, hletter, hdrive⟩
    simp [directory, hpath, Text.lastIndex?, Text.lastIndex?_eq_none hnone, hslash]

/-- The directory of a path on a drive starts like the drive, and only a separator can follow. -/
lemma exists_directory (h : OnDrive drive below path) :
    ∃ letter rest, (directory path).toList = letter :: ':' :: rest ∧
    Text.isAsciiLetter letter = true ∧
      letter.toUpper = drive ∧ ∀ c ∈ rest.head?, isSlash c = true := by
  rcases h.toList_directory with ⟨-, below', letter, slash, hdir, hletter, hdrive, hslash⟩ |
    ⟨-, letter, hdir, hletter, hdrive⟩
  · exact ⟨letter, slash :: below', hdir, hletter, hdrive, by simpa using hslash⟩
  · exact ⟨letter, [], hdir, hletter, hdrive, by simp⟩

/-- A relative path behind the directory of a path on a drive is absolute on that drive, also in its
root. -/
lemma join_directory (h : OnDrive drive below path) {resource : String}
    (hrel : isAbsolute resource = false) :
    ∃ below', OnDrive drive below' (join (directory path) resource) := by
  obtain ⟨letter, rest, hdir, hletter, hdrive, hhead⟩ := h.exists_directory
  have hne : directory path ≠ "" := by
    intro hempty
    simp [hempty] at hdir
  obtain ⟨slashes, hsplit, hslashes⟩ := exists_trimSlashes (directory path)
  have hjoin := toList_join hne hrel
  rw [hdir] at hsplit
  -- neither the letter nor the colon is taken away with the separators at the end
  rcases htrim : (trimSlashes (directory path)).toList with _ | ⟨c, _ | ⟨d, kept⟩⟩
  · rw [htrim, List.nil_append] at hsplit
    have hslash := hslashes letter (hsplit ▸ List.mem_cons_self)
    rw [isSlash_letter hletter] at hslash
    cases hslash
  · rw [htrim, List.singleton_append] at hsplit
    have hslash := hslashes ':' ((List.cons.inj hsplit).2 ▸ List.mem_cons_self)
    cases hslash
  · rw [htrim, List.cons_append, List.cons_append] at hsplit
    obtain ⟨rfl, htail⟩ := List.cons.inj hsplit
    obtain ⟨rfl, rfl⟩ := List.cons.inj htail
    rw [htrim] at hjoin
    cases kept with
    | nil => exact ⟨resource.toList, letter, '/', hjoin, hletter, hdrive, rfl⟩
    | cons slash kept =>
      exact ⟨kept ++ '/' :: resource.toList, letter, slash, hjoin, hletter, hdrive, hhead slash rfl⟩

end OnDrive

/-- Places of one drive are related if both are absolute or both are relative. -/
lemma exists_relativeTo_iff : (∃ written, relativeTo path base = .ok written) ↔
    (ofText path).drive = (ofText base).drive ∧ isAbsolute path = isAbsolute base := by
  by_cases hdrive : (ofText path).drive = (ofText base).drive
  · by_cases habs : isAbsolute path = isAbsolute base
    · refine iff_of_true ?_ ⟨hdrive, habs⟩
      rw [relativeTo, from_eq hdrive habs]
      exact ⟨_, rfl⟩
    · rw [isAbsolute, isAbsolute] at habs
      have hfrom : (ofText path).from (ofText base) = .error _ :=
        (if_neg (not_not.mpr hdrive)).trans (if_pos habs)
      rw [relativeTo, hfrom]
      refine iff_of_false ?_ fun h => habs h.2
      rintro ⟨written, hok⟩
      cases hok
  · have hfrom : (ofText path).from (ofText base) = .error _ := if_pos hdrive
    rw [relativeTo, hfrom]
    refine iff_of_false ?_ fun h => hdrive h.1
    rintro ⟨written, hok⟩
    cases hok

/-- What is absolute is related to the directory of an export on a drive if it is on the same drive
and the export lies below the root. -/
lemma exists_relativeTo_directory_iff {exported : String} (hexported : OnDrive drive below exported)
    (habs : isAbsolute path = true) :
    (∃ written, relativeTo path (directory exported) = .ok written) ↔
      BelowRoot below ∧ (ofText path).drive = some drive := by
  rw [exists_relativeTo_iff, habs]
  rcases hexported.toList_directory
    with ⟨hbelow, below', hdir⟩ | ⟨hroot, letter, hdir, hletter, hdrive⟩
  · obtain ⟨hdrive, hdirAbs⟩ := hdir.read
    simp [hdrive, hdirAbs, hbelow]
  · have hdirRel : isAbsolute (directory exported) = false := by
      simpa [slashed] using (ofText_lettered hdir hletter).2
    simp [hdirRel, hroot]

/-- An absolute place is read back from its normal spelling. -/
lemma ofText_normalize_of_absolute (h : isAbsolute path = true) :
    ofText (normalize path) = ofText path := by
  refine (ofText_toText_iff (regular_ofText path)).mpr fun letter rest hspelled => ?_
  rw [isAbsolute, hspelled.absolute] at h
  cases h

lemma exists_resourceFromExport_iff {resource source exported : String} :
    (∃ written, resourceFromExport resource source exported = .ok written) ↔
      ∃ written, relativeTo (normalize (join (directory source) (withoutSourceMark resource)))
        (directory exported) = .ok written := by
  rw [resourceFromExport]
  cases relativeTo (normalize (join (directory source) (withoutSourceMark resource)))
    (directory exported) with
  | error e => exact iff_of_false (by rintro ⟨_, h⟩; cases h) (by rintro ⟨_, h⟩; cases h)
  | ok written => exact iff_of_true ⟨_, rfl⟩ ⟨_, rfl⟩

variable {source exported : String} {inSource inExport : List Char}

/-- A resource is written for an export on the drive of its source file if it is on this drive and
the export lies below the root. -/
lemma exists_resourceFromExport_of_onDrive {resource : String}
    (hsource : OnDrive drive inSource source) (hexported : OnDrive drive inExport exported) :
    (∃ written, resourceFromExport resource source exported = .ok written) ↔ BelowRoot inExport ∧
      (isAbsolute (withoutSourceMark resource) = true →
        (ofText (withoutSourceMark resource)).drive = some drive) := by
  rw [exists_resourceFromExport_iff]
  cases habs : isAbsolute (withoutSourceMark resource) with
  | true =>
    have hjoin : join (directory source) (withoutSourceMark resource) =
        withoutSourceMark resource := by
      simp [join, habs]
    have hplace := ofText_normalize_of_absolute habs
    rw [hjoin, exists_relativeTo_directory_iff hexported (by rw [isAbsolute, hplace]; exact habs),
      hplace]
    simp
  | false =>
    obtain ⟨below, hjoin⟩ := hsource.join_directory habs
    obtain ⟨hdrive, hjoinAbs⟩ := hjoin.read
    have hplace := ofText_normalize_of_absolute hjoinAbs
    rw [exists_relativeTo_directory_iff hexported (by rw [isAbsolute, hplace]; exact hjoinAbs),
      hplace, hdrive]
    simp

/-- A source file and an export on one drive are related if and only if the export does not lie in
the root of the drive. The same holds for resources on the drive, and for resources named from the
source file if no absolute path of another drive, or of none, stands behind the mark. -/
theorem onDrive_related_iff (hsource : OnDrive drive inSource source)
    (hexported : OnDrive drive inExport exported) :
    ((∃ written, sourceFromExport source exported = .ok written) ↔ BelowRoot inExport) ∧
      (∀ resource below, OnDrive drive below resource →
        ((∃ written, resourceFromExport resource source exported = .ok written) ↔
          BelowRoot inExport)) ∧
      ∀ resource named, resource.toList = '/' :: '/' :: named.toList →
        ((∃ written, resourceFromExport resource source exported = .ok written) ↔
          BelowRoot inExport ∧ (isAbsolute named = true → (ofText named).drive = some drive)) := by
  refine ⟨?_, fun resource below hresource => ?_, fun resource named hmark => ?_⟩
  · have hrelated := exists_relativeTo_directory_iff hexported hsource.read.2
    rw [hsource.read.1] at hrelated
    have hnonempty : source.isEmpty = false := by simpa using hsource.ne_empty
    rw [sourceFromExport, hnonempty, if_neg (by decide)]
    cases hrelative : relativeTo source (directory exported) <;> simp_all
  · obtain ⟨hdrive, -⟩ := hresource.read
    have hunmarked : withoutSourceMark resource = resource := by
      obtain ⟨letter, slash, hpath, -⟩ := hresource
      simp [withoutSourceMark, hpath]
    rw [exists_resourceFromExport_of_onDrive hsource hexported, hunmarked, hdrive]
    simp
  · have hunmarked : withoutSourceMark resource = named := by simp [withoutSourceMark, hmark]
    rw [exists_resourceFromExport_of_onDrive hsource hexported, hunmarked]

/-- An export to the root of the drive that holds the source file is refused, and so is every
resource there. One directory further down both are written, whatever the case of the letters. -/
theorem rootFile_refused :
    (sourceFromExport "C:/a.blend" "C:/a.json" = .error .exportToOtherDrive ∧
      ¬ ∃ written, resourceFromExport "//wood.png" "C:/a.blend" "C:/a.json" = .ok written) ∧
    (∃ written, sourceFromExport "C:/a.blend" "c:\\out/a.json" = .ok written) ∧
      ∃ written, resourceFromExport "//wood.png" "C:/a.blend" "c:\\out/a.json" = .ok written := by
  have hsource : OnDrive 'C' "a.blend".toList "C:/a.blend" := ⟨'C', '/', rfl, rfl, rfl, rfl⟩
  have hroot : OnDrive 'C' "a.json".toList "C:/a.json" := ⟨'C', '/', rfl, rfl, rfl, rfl⟩
  have hbelow : OnDrive 'C' "out/a.json".toList "c:\\out/a.json" := ⟨'c', '\\', rfl, rfl, rfl, rfl⟩
  have hrefused : ¬ BelowRoot "a.json".toList := by simp [BelowRoot, isSlash]
  have hwritten : BelowRoot "out/a.json".toList := ⟨'/', by decide, rfl⟩
  have hrelative : isAbsolute "wood.png" = false := by decide +kernel
  obtain ⟨hto, -, hnamed⟩ := onDrive_related_iff hsource hroot
  obtain ⟨hto', -, hnamed'⟩ := onDrive_related_iff hsource hbelow
  refine ⟨⟨by rfl, fun h => hrefused ((hnamed _ "wood.png" rfl).mp h).1⟩, hto'.mpr hwritten, ?_⟩
  exact (hnamed' _ "wood.png" rfl).mpr ⟨hwritten, by simp [hrelative]⟩

end SceneExport.Path
