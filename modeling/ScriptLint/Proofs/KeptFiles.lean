import ScriptLint.Proofs.IncludeGraph

/-!
# Kept files in another setting

An included file holds the times of all files that it was made from. As long as these times are what they were, it is
what loading it again gives, provided that its includes are still found where they were found. That proviso is needed:
a time is only kept for what was read, so nothing tells when an include that was missing can be found now, or when
another file comes before the one that was found.
-/

namespace ScriptLint

open List

namespace IncludedFile

/-- Note a file with its time unless its path is known. -/
def addSource (known : List (Path × Option Int)) (source : Path × Option Int) : List (Path × Option Int) :=
  if known.any fun other => other.1 == source.1 then known else known ++ [source]

theorem subset_foldl_addSource (known sources : List (Path × Option Int)) : known ⊆ sources.foldl addSource known := by
  induction sources generalizing known with
  | nil => exact List.Subset.refl known
  | cons source _ ih =>
    refine List.Subset.trans ?_ (ih (addSource known source))
    unfold addSource
    split
    · exact List.Subset.refl known
    · exact subset_append_left known [source]

theorem mem_of_mem_foldl_addSource {known sources : List (Path × Option Int)} {source : Path × Option Int}
    (member : source ∈ sources.foldl addSource known) : source ∈ known ∨ source ∈ sources := by
  induction sources generalizing known with
  | nil => exact .inl member
  | cons first _ ih =>
    rcases ih member with added | later
    · unfold addSource at added
      split at added
      · exact .inl added
      · rcases mem_append.mp added with before | last
        · exact .inl before
        · exact .inr (mem_singleton.mp last ▸ mem_cons_self)
    · exact .inr (mem_cons_of_mem first later)

theorem exists_mem_foldl_addSource {known sources : List (Path × Option Int)} {source : Path × Option Int}
    (member : source ∈ sources) : ∃ kept ∈ sources.foldl addSource known, kept.1 = source.1 := by
  induction sources generalizing known with
  | nil => cases member
  | cons _ sources ih =>
    rcases mem_cons.mp member with rfl | later
    · have noted : ∃ kept ∈ addSource known source, kept.1 = source.1 := by
        unfold addSource
        split
        · rename_i known'
          obtain ⟨kept, held, same⟩ := any_eq_true.mp known'
          exact ⟨kept, held, eq_of_beq same⟩
        · exact ⟨source, by simp, rfl⟩
      obtain ⟨kept, held, same⟩ := noted
      exact ⟨kept, subset_foldl_addSource _ sources held, same⟩
    · exact ih later

/-- The times that a file holds are those of a file system. -/
def Dated (file : IncludedFile) (system : FileSystem) : Prop :=
  ∀ source ∈ file.sources, source.2 = system.modified? source.1

theorem isStale_eq_false {file : IncludedFile} {system : FileSystem} :
    file.isStale system = false ↔ ∀ source ∈ file.sources, system.modified? source.1 = source.2 := by
  simp [isStale]

end IncludedFile

namespace Preprocess

open Relation

namespace Setting

variable {setting : Setting} {Within : Path → Prop}

/-- A file by itself may be kept: it can be trusted without regard to its times. -/
theorem trusts_alone (setting : Setting) (Within : Path → Prop) :
    setting.Trusts Within fun file => setting.alone file.path = .ok file :=
  ⟨fun kept _ _ _ => kept, fun _ loaded => loaded⟩

/-- The run over a file by itself is given what it includes by itself. -/
theorem Region.gives (region : setting.Region Within) {path : Path} (within : Within path) {text : String}
    (read : setting.system.read path = .ok text) {target : String}
    (sought : target ∈ (setting.runAlone path text).targets) :
    (setting.inside setting.system.files.length [] path).Gives
      (IncludeCache.Keeps fun file => setting.alone file.path = .ok file) setting.alone target := by
  intro other found
  have includes : setting.Includes path other := ⟨target, ⟨text, read, sought⟩, found⟩
  have free := region.free_cons within includes fun _ _ (held : _ ∈ []) => nomatch held
  exact ⟨free other .refl, fun cache keeps => loadWithin_eq region (setting.trusts_alone Within)
    (region.shallow_files within other includes) (region.closed within includes) (Nat.le_refl _) (Nat.le_succ _) free
    keeps⟩

/-- The files inside a file by itself are those that it includes, by themselves. -/
theorem Region.mem_nested (region : setting.Region Within) {path : Path} (within : Within path) {file : IncludedFile}
    (loaded : setting.alone path = .ok file) (other : IncludedFile) :
    other ∈ file.nested ↔ ∃ found, setting.Includes path found ∧ setting.alone found = .ok other := by
  obtain ⟨text, read, rfl⟩ := alone_eq_ok.mp loaded
  have exactly := Run.all_exact (IncludeCache.keeps_empty _) (fun _ sought => region.gives within read sought) other
  refine exactly.trans ⟨?_, ?_⟩
  · rintro ⟨target, sought, found, search, given⟩
    exact ⟨found, ⟨target, ⟨text, read, sought⟩, search⟩, given⟩
  · rintro ⟨found, ⟨target, ⟨text', read', sought⟩, search⟩, given⟩
    obtain rfl : text = text' := Except.ok.inj (read.symm.trans read')
    exact ⟨target, sought, found, search, given⟩

/-- A file by itself holds the times that the files have. -/
theorem Region.dated (region : setting.Region Within) {bound : Nat} {path : Path}
    (shallow : setting.Shallow bound path) (within : Within path) {file : IncludedFile}
    (loaded : setting.alone path = .ok file) : file.Dated setting.system := by
  induction bound generalizing path file with
  | zero => exact shallow.elim
  | succ _ ih =>
    have nested := region.mem_nested within loaded
    obtain ⟨text, _, rfl⟩ := alone_eq_ok.mp loaded
    intro source member
    rcases IncludedFile.mem_of_mem_foldl_addSource member with own | below
    · rw [mem_singleton.mp own]
    · obtain ⟨other, held, member⟩ := mem_flatMap.mp below
      obtain ⟨found, includes, given⟩ := (nested other).mp held
      exact ih (shallow found includes) (region.closed within includes) given source member

/-- A file by itself holds the time of its own text. -/
theorem modified_of_fresh {path : Path} {file : IncludedFile} (loaded : setting.alone path = .ok file)
    {system : FileSystem} (fresh : file.isStale system = false) :
    system.modified? path = setting.system.modified? path := by
  obtain ⟨text, _, rfl⟩ := alone_eq_ok.mp loaded
  refine IncludedFile.isStale_eq_false.mp fresh (path, setting.system.modified? path) ?_
  exact IncludedFile.subset_foldl_addSource _ _ (mem_singleton.mpr rfl)

/-- The files inside a file that is up to date are up to date. -/
theorem Region.fresh_nested (region : setting.Region Within) {path : Path} (within : Within path) {file : IncludedFile}
    (loaded : setting.alone path = .ok file) {system : FileSystem} (fresh : file.isStale system = false)
    {other : IncludedFile} (held : other ∈ file.nested) : other.isStale system = false := by
  rw [IncludedFile.isStale_eq_false] at fresh ⊢
  intro source member
  have dated := region.dated (region.shallow_files within) within loaded
  obtain ⟨found, includes, given⟩ := (region.mem_nested within loaded other).mp held
  have further := region.closed within includes
  have datedOther := region.dated (region.shallow_files further) further given
  obtain ⟨text, _, rfl⟩ := alone_eq_ok.mp loaded
  obtain ⟨kept, noted, same⟩ : ∃ kept ∈ (setting.fileOf path text.toList (setting.runAlone path text)).sources,
      kept.1 = source.1 := by
    exact IncludedFile.exists_mem_foldl_addSource (mem_flatMap.mpr ⟨other, held, member⟩)
  rw [← same, fresh kept noted, dated kept noted, same, datedOther source member]

/-! ## Searches -/

/-- What a search has found stands in another setting: unless the text that was found has another time there, the
search finds the same file, with the same text or the same failure. -/
def Stands (was now : Setting) (found found' : Option Path) : Prop :=
  (∀ path text, found = some path → was.system.read path = .ok text →
    now.system.modified? path = was.system.modified? path) →
    found' = found ∧ ∀ path, found = some path → now.system.read path = was.system.read path

theorem stands_some {was now : Setting} {path : Path} {found' : Option Path} :
    Stands was now (some path) found' ↔
      ((∀ text, was.system.read path = .ok text → now.system.modified? path = was.system.modified? path) →
        found' = some path ∧ now.system.read path = was.system.read path) := by
  constructor
  · intro stands fresh
    obtain ⟨found, reads⟩ := stands (by rintro other text ⟨⟩; exact fresh text)
    exact ⟨found, reads path rfl⟩
  · intro stands fresh
    obtain ⟨found, reads⟩ := stands fun text => fresh path text rfl
    exact ⟨found, by rintro other ⟨⟩; exact reads⟩

instance (was now : Setting) : (found found' : Option Path) → Decidable (Stands was now found found')
  | none, found' => decidable_of_iff (found' = none) (by simp [Stands])
  | some path, found' =>
    match read : was.system.read path with
    | .error _ =>
      decidable_of_iff (found' = some path ∧ now.system.read path = was.system.read path) (by simp [stands_some, read])
    | .ok _ =>
      decidable_of_iff (now.system.modified? path = was.system.modified? path →
        found' = some path ∧ now.system.read path = was.system.read path) (by simp [stands_some, read])

variable {was now : Setting} {Was Now : Path → Prop}

/-- What a run is given for a target whose search stands is the same in both settings, when this is known of every file
that is up to date. -/
theorem Stands.agree {env other : Env} {Holds Holds' : IncludeCache → Prop} {target : String}
    (gives : env.Gives Holds was.alone target) (gives' : other.Gives Holds' now.alone target)
    (fresh : ∀ path text, env.search target = some path → was.system.read path = .ok text →
      now.system.modified? path = was.system.modified? path)
    (stands : Stands was now (env.search target) (other.search target))
    (same : ∀ path text, env.search target = some path → other.search target = some path →
      was.system.read path = .ok text → now.system.read path = .ok text → now.alone path = was.alone path) :
    Run.Agree Holds Holds' env other target := by
  obtain ⟨search, reads⟩ := stands fresh
  refine ⟨search, fun path found => ⟨(gives path found).1, (gives' path (search.trans found)).1⟩, ?_⟩
  intro path found cache cache' holds holds'
  obtain ⟨given, kept⟩ := (gives path found).2 cache holds
  obtain ⟨given', kept'⟩ := (gives' path (search.trans found)).2 cache' holds'
  refine ⟨?_, kept, kept'⟩
  rw [given, given']
  cases read : was.system.read path with
  | error => rw [alone_of_error read, alone_of_error ((reads path found).trans read)]
  | ok text => exact same path text found (search.trans found) read ((reads path found).trans read)

/-- A file by itself whose times are what they were is the same by itself in another setting, when the searches behind
it stand there. The induction is on the length of the chains behind it. -/
theorem alone_of_fresh (predefined : now.predefined = was.predefined) (region : was.Region Was)
    (region' : now.Region Now)
    (stands : ∀ path target, Was path → was.Seeks path target →
      Stands was now (was.search (some path) target) (now.search (some path) target))
    {bound : Nat} {path : Path} (shallow : was.Shallow bound path) (within : Was path) (within' : Now path)
    {file : IncludedFile} (loaded : was.alone path = .ok file)
    (same : now.system.read path = was.system.read path) (fresh : file.isStale now.system = false) :
    now.alone path = .ok file := by
  induction bound generalizing path file with
  | zero => exact shallow.elim
  | succ _ ih =>
    have nested := region.mem_nested within loaded
    have freshNested := @Region.fresh_nested was Was region path within file loaded now.system fresh
    have modified := modified_of_fresh loaded fresh
    obtain ⟨text, read, rfl⟩ := alone_eq_ok.mp loaded
    have read' := same.trans read
    -- What was found and could be read is among the files inside, so it is up to date too.
    have freshFound {other : Path} {inner : String} (includes : was.Includes path other)
        (readable : was.system.read other = .ok inner) :
        ∃ held, was.alone other = .ok held ∧ held.isStale now.system = false := by
      obtain ⟨held, given⟩ : ∃ held, was.alone other = .ok held := ⟨_, alone_eq_ok.mpr ⟨inner, readable, rfl⟩⟩
      exact ⟨held, given, freshNested ((nested held).mpr ⟨other, includes, given⟩)⟩
    let env := was.inside was.system.files.length [] path
    let env' := now.inside now.system.files.length [] path
    have started : now.runAlone path text = (Run.all env' was.predefined text.toList {}).1 := by
      rw [runAlone, predefined]
    have agree : ∀ target, target ∈ (was.runAlone path text).targets →
        target ∈ (Run.all env' was.predefined text.toList {}).1.targets →
        Run.Agree (IncludeCache.Keeps fun file => was.alone file.path = .ok file)
          (IncludeCache.Keeps fun file => now.alone file.path = .ok file) env env' target := by
      intro target sought sought'
      rw [← started] at sought'
      have seeks : was.Seeks path target := ⟨text, read, sought⟩
      refine Stands.agree (region.gives within read sought) (region'.gives within' read' sought') ?_
        (stands path target within seeks) ?_
      · intro other inner found readable
        obtain ⟨held, given, upToDate⟩ := freshFound ⟨target, seeks, found⟩ readable
        exact modified_of_fresh given upToDate
      · intro other inner found found' readable readable'
        have includes : was.Includes path other := ⟨target, seeks, found⟩
        have includes' : now.Includes path other := ⟨target, ⟨text, read', sought'⟩, found'⟩
        obtain ⟨held, given, upToDate⟩ := freshFound includes readable
        rw [given]
        exact ih (shallow other includes) (region.closed within includes) (region'.closed within' includes') given
          (readable'.trans readable.symm) upToDate
    have owner : env.owner = env'.owner := rfl
    obtain ⟨ran, _, _⟩ := Run.all_alike owner (IncludeCache.keeps_empty _) (IncludeCache.keeps_empty _) agree
    have runs : now.runAlone path text = was.runAlone path text := started.trans ran
    refine alone_eq_ok.mpr ⟨text, read', ?_⟩
    simp only [fileOf, runs, predefined, modified, (region.canonical within).canonical_eq read,
      (region'.canonical within').canonical_eq read']

end Setting

end Preprocess

end ScriptLint
