import Mathlib.Data.List.Nodup
import Mathlib.Data.List.Perm.Subperm
import ScriptLint.Include.Resolver
import ScriptLint.Proofs.Lines

/-!
# Canonical paths

A search gives the canonical path of what it finds: the path that spells out its location. Such a path leads to that
location or nowhere, so it is its own canonical path, and there are no more readable ones than there are files.
-/

namespace ScriptLint

open List

theorem Path.not_mem_of_mem_pieces {path : Path} {piece : String} (found : piece ∈ path.pieces) :
    '/' ∉ piece.toList := by
  rw [Path.pieces, Text.splitAtChars_beq] at found
  obtain ⟨part, member, rfl⟩ := mem_map.mp found
  rw [String.toList_ofList]
  exact Text.not_mem_of_mem_splitOn member

theorem Path.pieces_slash (text : String) : (Path.mk ("/" ++ text)).pieces = "" :: (Path.mk text).pieces := by
  have front : ("/" ++ text).toList = '/' :: text.toList := String.toList_append
  rw [pieces, pieces, Text.splitAtChars_beq, Text.splitAtChars_beq, front, splitOn_cons_eq_if_modifyHead]
  simp

theorem Path.pieces_joined {texts : List String} (whole : ∀ text ∈ texts, '/' ∉ text.toList) (filled : texts ≠ []) :
    (Path.mk ("/".intercalate texts)).pieces = texts := by
  have parts : (['/'].intercalate (texts.map String.toList)).splitOn '/' = texts.map String.toList := by
    apply splitOn_intercalate
    · intro part member
      obtain ⟨text, found, rfl⟩ := mem_map.mp member
      exact whole text found
    · simpa using filled
  rw [pieces, Text.splitAtChars_beq, String.toList_intercalate]
  exact (congrArg (map String.ofList) parts).trans (by simp)

namespace FileSystem

/-- What a file or a directory can be called. -/
def IsName (name : String) : Prop := name ≠ "" ∧ name ≠ "." ∧ name ≠ ".." ∧ '/' ∉ name.toList

instance : DecidablePred IsName := fun name =>
  inferInstanceAs (Decidable (name ≠ "" ∧ name ≠ "." ∧ name ≠ ".." ∧ '/' ∉ name.toList))

/-- The working directory is a place that names lead to. -/
def Rooted (system : FileSystem) : Prop := ∀ name ∈ system.working, IsName name

instance (system : FileSystem) : Decidable system.Rooted := inferInstanceAs (Decidable (∀ name ∈ _, _))

theorem text_pathOf (location : Location) : (pathOf location).text = "/" ++ "/".intercalate location := by
  have texts : (location.map Component.name).map Component.text = location := by
    rw [map_map]
    exact map_id location
  simp only [pathOf, Path.ofComponents, Component.render, texts]

variable {location reached : Location} {path : Path}

/-- The path of a location has the names of the location for its pieces, behind the empty one before the slash. -/
theorem pieces_pathOf (names : ∀ name ∈ location, IsName name) (below : location ≠ []) :
    (pathOf location).pieces = "" :: location := by
  rw [show pathOf location = Path.mk _ from congrArg Path.mk (text_pathOf location), Path.pieces_slash,
    Path.pieces_joined (fun name found => (names name found).2.2.2) below]

variable {system : FileSystem}

/-- Following names goes down by these names. -/
theorem follow?_names {names : List String} (plain : ∀ name ∈ names, IsName name)
    (followed : system.follow? location names = some reached) : reached = location ++ names := by
  induction names generalizing location with
  | nil =>
    obtain rfl : location = reached := Option.some.inj followed
    exact (append_nil location).symm
  | cons name _ ih =>
    obtain ⟨filled, notHere, notUp, _⟩ := plain name mem_cons_self
    simp only [follow?, beq_iff_eq, filled, notHere, notUp, Bool.or_eq_true, or_self, ↓reduceIte] at followed
    split at followed
    · cases followed
    · split at followed
      · rw [ih (fun other found => plain other (mem_cons_of_mem name found)) followed,
          append_assoc, singleton_append]
      · cases followed

/-- A location that is reached from one given by names is given by names. -/
theorem isName_of_follow? {pieces : List String} (names : ∀ name ∈ location, IsName name)
    (whole : ∀ piece ∈ pieces, '/' ∉ piece.toList) (followed : system.follow? location pieces = some reached) :
    ∀ name ∈ reached, IsName name := by
  induction pieces generalizing location with
  | nil =>
    obtain rfl : location = reached := Option.some.inj followed
    exact names
  | cons piece _ ih =>
    have later := fun other found => whole other (mem_cons_of_mem piece found)
    rw [follow?] at followed
    split at followed
    · cases followed
    split at followed
    · exact ih names later followed
    split at followed
    · exact ih (fun name found => names name (dropLast_subset location found)) later followed
    split at followed
    · rename_i notIdle notUp _
      refine ih ?_ later followed
      intro name found
      rcases mem_append.mp found with above | last
      · exact names name above
      · obtain rfl : name = piece := mem_singleton.mp last
        simp only [Bool.or_eq_true, beq_iff_eq, not_or] at notIdle notUp
        exact ⟨notIdle.1, notIdle.2, notUp, whole name mem_cons_self⟩
    · cases followed

theorem isName_of_locate? (rooted : system.Rooted) (located : system.locate? path = some location) :
    ∀ name ∈ location, IsName name := by
  rw [locate?] at located
  split at located
  · cases located
  · refine isName_of_follow? ?_ (fun piece => Path.not_mem_of_mem_pieces) located
    split
    · exact fun name found => nomatch found
    · exact rooted

/-- The path of a location leads nowhere else. -/
theorem locate?_pathOf (names : ∀ name ∈ location, IsName name)
    (located : system.locate? (pathOf location) = some reached) : reached = location := by
  have absolute : (pathOf location).isAbsolute := by
    rw [Path.isAbsolute, text_pathOf, String.toList_append]
    rfl
  simp only [locate?, absolute, ↓reduceIte] at located
  split at located
  · cases located
  by_cases below : location = []
  · subst below
    exact (Option.some.inj located).symm
  · rw [pieces_pathOf names below] at located
    exact follow?_names names located

/-- A path that spells out the location to which it leads, if it leads to one. -/
def IsCanonical (system : FileSystem) (path : Path) : Prop :=
  ∀ location, system.locate? path = some location → pathOf location = path

theorem isCanonical_canonical (rooted : system.Rooted) (located : system.locate? path = some location) :
    system.IsCanonical (system.canonical path) := by
  rw [canonical, located]
  intro reached again
  rw [locate?_pathOf (isName_of_locate? rooted located) again]

theorem exists_of_isFile (isFile : system.isFile path) :
    ∃ location file, system.locate? path = some location ∧ system.file? location = some file := by
  obtain ⟨file, found⟩ := Option.isSome_iff_exists.mp isFile
  obtain ⟨location, located, held⟩ := Option.bind_eq_some_iff.mp found
  exact ⟨location, file, located, held⟩

/-- A search gives a canonical path. -/
theorem isCanonical_of_resolve? (rooted : system.Rooted) {resolver : Resolver} {target : String}
    {directory : Option Path} (resolved : resolver.resolve? system target directory = some path) :
    system.IsCanonical path := by
  obtain ⟨candidate, found, rfl⟩ := Option.map_eq_some_iff.mp resolved
  obtain ⟨location, _, located, _⟩ := exists_of_isFile (find?_some found)
  exact isCanonical_canonical rooted located

theorem exists_of_read {text : String} (read : system.read path = .ok text) :
    ∃ location file, system.locate? path = some location ∧ system.file? location = some file ∧
      file.content = some text := by
  rw [FileSystem.read] at read
  split at read
  · cases read
  · rename_i location located
    split at read
    · cases read
    · rename_i file held
      split at read
      · rename_i content filled
        obtain rfl : content = text := Except.ok.inj read
        exact ⟨location, file, located, held, filled⟩
      · cases read

theorem IsCanonical.canonical_eq (isCanonical : system.IsCanonical path) {text : String}
    (read : system.read path = .ok text) : system.canonical path = path := by
  obtain ⟨location, _, located, _⟩ := exists_of_read read
  rw [canonical, located]
  exact isCanonical location located

/-- There are no more paths of readable files than files. -/
theorem length_le_files {paths : List Path} (nodup : paths.Nodup)
    (readable : ∀ path ∈ paths, system.IsCanonical path ∧ ∃ text, system.read path = .ok text) :
    paths.length ≤ system.files.length := by
  let place (path : Path) : Location := (system.locate? path).getD []
  have places : ∀ path ∈ paths, pathOf (place path) = path ∧ place path ∈ system.files.map Prod.fst := by
    intro path found
    obtain ⟨isCanonical, text, read⟩ := readable path found
    obtain ⟨location, file, located, held, _⟩ := exists_of_read read
    have same : place path = location := by simp only [place, located, Option.getD_some]
    rw [same]
    refine ⟨isCanonical location located, ?_⟩
    obtain ⟨entry, member, _⟩ := Option.map_eq_some_iff.mp held
    have key : entry.1 = location := by simpa using find?_some member
    exact key ▸ mem_map_of_mem (mem_of_find?_eq_some member)
  have distinct : (paths.map place).Nodup := by
    refine List.Nodup.map_on ?_ nodup
    intro path found other found' same
    rw [← (places path found).1, same, (places other found').1]
  have within : paths.map place ⊆ system.files.map Prod.fst := by
    intro location found
    obtain ⟨path, member, rfl⟩ := mem_map.mp found
    exact (places path member).2
  simpa using (distinct.subperm within).length_le

end FileSystem

end ScriptLint
