import Mathlib.Logic.Relation
import ScriptLint.Proofs.CanonicalPaths
import ScriptLint.Proofs.IncludeRuns

/-!
# The graph of includes

A file by itself is what loading it gives while nothing is cached and nothing is being included. The run that gives it
also tells which files it includes. Where no chain of includes comes back to a file on it, loading a file gives the
file by itself, whatever chain has led to it and whatever is cached, as long as the cache can be trusted.
-/

namespace ScriptLint

open List

/-! ## The cache -/

/-- Everything that is kept has some property. -/
def IncludeCache.Keeps (Kept : IncludedFile → Prop) (cache : IncludeCache) : Prop :=
  ∀ file ∈ cache.entries, Kept file

namespace IncludeCache

variable {Kept : IncludedFile → Prop} {cache : IncludeCache}

theorem keeps_empty (Kept : IncludedFile → Prop) : ({} : IncludeCache).Keeps Kept := fun _ held => nomatch held

theorem Keeps.insert {file : IncludedFile} (keeps : cache.Keeps Kept) (kept : Kept file) :
    (cache.insert file).Keeps Kept := by
  intro other held
  rcases mem_append.mp held with before | last
  · exact keeps other (mem_filter.mp before).1
  · rwa [mem_singleton.mp last]

theorem Keeps.get (keeps : cache.Keeps Kept) (system : FileSystem) (path : Path) (fingerprint : UInt64) :
    (cache.get system path fingerprint).2.Keeps Kept := by
  unfold IncludeCache.get
  split
  · split
    · exact fun other held => keeps other (mem_filter.mp held).1
    · exact keeps
  · exact keeps

/-- What the cache gives is kept under the path and the digest that it was asked for, and it is up to date. -/
theorem of_get_eq_some {system : FileSystem} {path : Path} {fingerprint : UInt64} {file : IncludedFile}
    (got : (cache.get system path fingerprint).1 = some file) :
    file ∈ cache.entries ∧ file.path = path ∧ file.fingerprint = fingerprint ∧ file.isStale system = false := by
  unfold IncludeCache.get at got
  split at got
  · rename_i held found
    split at got
    · cases got
    · rename_i fresh
      obtain rfl : held = file := Option.some.inj got
      have at' : IncludeCache.isAt path fingerprint held := find?_some found
      simp only [isAt, Bool.and_eq_true, beq_iff_eq] at at'
      exact ⟨mem_of_find?_eq_some found, at'.1, at'.2, Bool.not_eq_true _ ▸ fresh⟩
  · cases got

end IncludeCache

namespace Preprocess

open Relation

namespace Setting

/-! ## Files by themselves -/

variable (setting : Setting)

/-- Where an include of a file is found. -/
def search (file : Option Path) (target : String) : Option Path :=
  setting.resolver.resolve? setting.system target (file.bind Path.parent?)

/-- What a run over an included file works with. -/
def inside (depth : Nat) (stack : List Path) (path : Path) : Env :=
  ⟨setting.system, setting.resolver, some path, false, path :: stack, loadWithin setting depth (path :: stack)⟩

/-- The included file that a run over a text ends up with. -/
def fileOf (path : Path) (text : List Char) (result : Preprocessed) : IncludedFile :=
  { path := setting.system.canonical path
    exports := { Exports.ofText text result.disabled path with
      macros := result.macros.filter fun name _ => !setting.predefined.contains name }
    nested := result.files
    sources := IncludedFile.sourcesOf path (setting.system.modified? path) result.files
    diagnostics := result.diagnostics
    fingerprint := setting.predefined.fingerprint }

/-- Preprocessing a file by itself: nothing is cached, and nothing is being included. -/
def runAlone (path : Path) (text : String) : Preprocessed :=
  (Run.all (setting.inside setting.system.files.length [] path) setting.predefined text.toList {}).1

/-- What loading a file by itself gives. -/
def alone (path : Path) : Except FileSystem.ReadError IncludedFile :=
  (setting.system.read path).map fun text => setting.fileOf path text.toList (setting.runAlone path text)

/-- A file by itself looks for a target. -/
def Seeks (path : Path) (target : String) : Prop :=
  ∃ text, setting.system.read path = .ok text ∧ target ∈ (setting.runAlone path text).targets

/-- A file by itself finds another one, or itself, for one of its includes. -/
def Includes (path other : Path) : Prop :=
  ∃ target, setting.Seeks path target ∧ setting.search (some path) target = some other

variable {setting}

variable {file : IncludedFile} {path other : Path} {cache : IncludeCache} {target : String}

theorem alone_eq_ok :
    setting.alone path = .ok file ↔ ∃ text, setting.system.read path = .ok text ∧
      file = setting.fileOf path text.toList (setting.runAlone path text) := by
  unfold alone
  cases setting.system.read path with
  | error => simp [Except.map]
  | ok => simp [Except.map, eq_comm]

theorem alone_of_error {error : FileSystem.ReadError} (failed : setting.system.read path = .error error) :
    setting.alone path = .error error := by
  rw [alone, failed]
  rfl

theorem Includes.isCanonical (rooted : setting.system.Rooted) (includes : setting.Includes path other) :
    setting.system.IsCanonical other := by
  obtain ⟨_, _, found⟩ := includes
  exact FileSystem.isCanonical_of_resolve? rooted found

theorem path_of_alone (isCanonical : setting.system.IsCanonical path)
    (loaded : setting.alone path = .ok file) : file.path = path := by
  obtain ⟨text, read, rfl⟩ := alone_eq_ok.mp loaded
  exact isCanonical.canonical_eq read

theorem fingerprint_of_alone (loaded : setting.alone path = .ok file) :
    file.fingerprint = setting.predefined.fingerprint := by
  obtain ⟨text, _, rfl⟩ := alone_eq_ok.mp loaded
  rfl

/-! ## Chains of includes -/

variable (setting)

/-- Every chain of includes from a file has fewer than `bound` files behind it. -/
def Shallow : (bound : Nat) → Path → Prop
  | 0, _ => False
  | bound + 1, path => ∀ other, setting.Includes path other → Shallow bound other

/-- A collection of files that includes do not leave and in which no chain of them comes back. -/
structure Region (Within : Path → Prop) : Prop where
  canonical : ∀ {path}, Within path → setting.system.IsCanonical path
  closed : ∀ {path other}, Within path → setting.Includes path other → Within other
  acyclic : ∀ {path}, Within path → ¬TransGen setting.Includes path path

variable {setting}

namespace Region

variable {Within : Path → Prop}

variable (region : setting.Region Within)

include region

theorem reaches (within : Within path) (chain : ReflTransGen setting.Includes path other) : Within other := by
  induction chain with
  | refl => exact within
  | tail _ includes ih => exact region.closed ih includes

/-- A chain through an include is free of the file that it comes from. -/
theorem free_cons (within : Within path)
    (includes : setting.Includes path other) {passed : List Path}
    (free : ∀ last, ReflTransGen setting.Includes path last → last ∉ passed) :
    ∀ last, ReflTransGen setting.Includes other last → last ∉ path :: passed := by
  intro last chain found
  rcases mem_cons.mp found with rfl | found
  · exact region.acyclic within (.head' includes chain)
  · exact free last (.head includes chain) found

/-- A chain that has gone through some files goes on through at most the others. -/
theorem shallow (within : Within path) {bound : Nat} {passed : List Path}
    (nodup : passed.Nodup)
    (readable : ∀ path ∈ passed, setting.system.IsCanonical path ∧ ∃ text, setting.system.read path = .ok text)
    (enough : setting.system.files.length < bound + passed.length)
    (free : ∀ other, ReflTransGen setting.Includes path other → other ∉ passed) : setting.Shallow bound path := by
  induction bound generalizing path passed with
  | zero =>
    have few := FileSystem.length_le_files nodup readable
    omega
  | succ _ ih =>
    intro other includes
    refine @ih other (region.closed within includes) (path :: passed) ?_ ?_ ?_ (region.free_cons within includes free)
    · exact nodup_cons.mpr ⟨free path .refl, nodup⟩
    · intro before found
      rcases mem_cons.mp found with rfl | found
      · obtain ⟨_, ⟨text, read, _⟩, _⟩ := includes
        exact ⟨region.canonical within, text, read⟩
      · exact readable before found
    · rw [length_cons]
      omega

theorem shallow_files (within : Within path) : setting.Shallow (setting.system.files.length + 1) path :=
  region.shallow within nodup_nil (fun _ found => nomatch found) (by simp) fun _ _ found => nomatch found

end Region

/-! ## Loading -/

variable (setting)

/-- What may be kept about the files of a region: it is right as long as it is up to date. -/
structure Trusts (Within : Path → Prop) (Kept : IncludedFile → Prop) : Prop where
  use : ∀ {file}, Kept file → Within file.path → file.fingerprint = setting.predefined.fingerprint →
    file.isStale setting.system = false → setting.alone file.path = .ok file
  keep : ∀ {file}, Within file.path → setting.alone file.path = .ok file → Kept file

variable {setting} {Within : Path → Prop} {Kept : IncludedFile → Prop}

theorem loadWithin_succ (depth : Nat) (stack : List Path) (path : Path) (cache : IncludeCache) :
    loadWithin setting (depth + 1) stack path cache =
      let asked := cache.get setting.system path setting.predefined.fingerprint
      match asked.1, setting.system.read path with
      | some file, _ => (.ok file, asked.2)
      | none, .error error => (.error error, asked.2)
      | none, .ok text =>
        let ran := Run.all (setting.inside depth stack path) setting.predefined text.toList asked.2
        let file := setting.fileOf path text.toList ran.1
        (.ok file, if ran.1.sawCycle then ran.2 else ran.2.insert file) := by
  simp only [loadWithin]
  obtain ⟨_ | file, rest⟩ := cache.get setting.system path setting.predefined.fingerprint
  · cases setting.system.read path <;> rfl
  · rfl

variable (setting) in
/-- Loading what a file includes gives it by itself, and the cache stays one to be trusted. -/
def LoadsAlone (Kept : IncludedFile → Prop) (depth : Nat) (stack : List Path) (path : Path) : Prop :=
  ∀ other, setting.Includes path other → other ∉ stack ∧ ∀ cache, cache.Keeps Kept →
    (loadWithin setting depth stack other cache).1 = setting.alone other ∧
      (loadWithin setting depth stack other cache).2.Keeps Kept

/-- A run over a file that is given what it includes by itself is the run over the file by itself. -/
theorem run_inside_eq {depth : Nat} {stack : List Path} {text : String}
    (read : setting.system.read path = .ok text) (own : setting.LoadsAlone Kept setting.system.files.length [path] path)
    (given : setting.LoadsAlone Kept depth (path :: stack) path) (keeps : cache.Keeps Kept) :
    (Run.all (setting.inside depth stack path) setting.predefined text.toList cache).1 = setting.runAlone path text ∧
      (Run.all (setting.inside depth stack path) setting.predefined text.toList cache).2.Keeps Kept := by
  have agree : ∀ target, target ∈ (setting.runAlone path text).targets →
      Run.Agree (IncludeCache.Keeps Kept) (IncludeCache.Keeps Kept)
        (setting.inside setting.system.files.length [] path) (setting.inside depth stack path) target := by
    intro target sought
    have includes (other : Path) (found : setting.search (some path) target = some other) :
        setting.Includes path other := ⟨target, ⟨text, read, sought⟩, found⟩
    refine ⟨rfl, fun other found => ⟨(own other (includes other found)).1, (given other (includes other found)).1⟩, ?_⟩
    intro other found cache cache' keeps keeps'
    obtain ⟨same, kept⟩ := (own other (includes other found)).2 cache keeps
    obtain ⟨same', kept'⟩ := (given other (includes other found)).2 cache' keeps'
    exact ⟨same'.trans same.symm, kept, kept'⟩
  have owner : (setting.inside setting.system.files.length [] path).owner = (setting.inside depth stack path).owner :=
    rfl
  obtain ⟨same, _, kept⟩ := Run.all_alike owner (IncludeCache.keeps_empty Kept) keeps fun target sought _ =>
    agree target sought
  exact ⟨same, kept⟩

/-- Loading a file of a region gives the file by itself. The induction is on the length of the chains behind it. -/
theorem loadWithin_eq (region : setting.Region Within) (trusts : setting.Trusts Within Kept) {bound : Nat}
    (shallow : setting.Shallow bound path) (within : Within path) {depth : Nat} (enough : bound ≤ depth)
    (few : bound ≤ setting.system.files.length + 1) {stack : List Path}
    (free : ∀ other, ReflTransGen setting.Includes path other → other ∉ stack) (keeps : cache.Keeps Kept) :
    (loadWithin setting depth stack path cache).1 = setting.alone path ∧
      (loadWithin setting depth stack path cache).2.Keeps Kept := by
  induction bound generalizing path depth stack cache with
  | zero => exact shallow.elim
  | succ bound ih =>
    obtain ⟨depth, rfl⟩ : ∃ less, depth = less + 1 := ⟨depth - 1, by omega⟩
    have asked := keeps.get setting.system path setting.predefined.fingerprint
    cases got : (cache.get setting.system path setting.predefined.fingerprint).1 with
    | some file =>
      obtain ⟨held, rfl, fingerprint, fresh⟩ := IncludeCache.of_get_eq_some got
      simp only [loadWithin_succ, got]
      exact ⟨(trusts.use (keeps file held) within fingerprint fresh).symm, asked⟩
    | none =>
      cases read : setting.system.read path with
      | error =>
        simp only [loadWithin_succ, got, read]
        exact ⟨(alone_of_error read).symm, asked⟩
      | ok text =>
        have loads {depth : Nat} {stack : List Path} (enough : bound ≤ depth)
            (free : ∀ other, ReflTransGen setting.Includes path other → other ∉ stack) :
            setting.LoadsAlone Kept depth (path :: stack) path := by
          intro other includes
          have later := region.free_cons within includes free
          exact ⟨later other .refl, fun cache keeps => ih (shallow other includes)
            (region.closed within includes) enough (Nat.le_of_succ_le few) later keeps⟩
        obtain ⟨same, kept⟩ := run_inside_eq read
          (loads (Nat.le_of_succ_le_succ few) fun _ _ held => nomatch held)
          (loads (Nat.le_of_succ_le_succ enough) free) asked
        have loaded := alone_eq_ok.mpr ⟨text, read, rfl⟩
        have named := path_of_alone (region.canonical within) loaded
        simp only [loadWithin_succ, got, read, same]
        refine ⟨loaded.symm, ?_⟩
        split
        · exact kept
        · refine kept.insert (trusts.keep ?_ ?_)
          · rwa [named]
          · rwa [named]

/-! ## Documents -/

variable (setting)

/-- What a run over a document works with. -/
def outside (path : Option Path) : Env :=
  let file := path.map setting.system.canonical
  ⟨setting.system, setting.resolver, file, true, file.toList,
    loadWithin setting (setting.system.files.length + 1) file.toList⟩

/-- A document, preprocessed with nothing cached, looks for a target. -/
def Asks (text : List Char) (path : Option Path) (target : String) : Prop :=
  target ∈ (preprocess setting text path {}).1.targets

/-- Where an include of a document is found. -/
def searchFrom (path : Option Path) (target : String) : Option Path :=
  setting.search (path.map setting.system.canonical) target

/-- A chain of includes leads from a document to a file. -/
def Reaches (text : List Char) (path : Option Path) (other : Path) : Prop :=
  ∃ target first, setting.Asks text path target ∧ setting.searchFrom path target = some first ∧
    ReflTransGen setting.Includes first other

/-- No chain of includes from a document comes back to a file on it, be it the document or an included file. -/
def Acyclic (text : List Char) (path : Option Path) : Prop :=
  ∀ other, setting.Reaches text path other →
    path.map setting.system.canonical ≠ some other ∧ ¬TransGen setting.Includes other other

variable {setting} {text : List Char} {path : Option Path}

theorem Reaches.first (asks : setting.Asks text path target) (found : setting.searchFrom path target = some other) :
    setting.Reaches text path other :=
  ⟨target, other, asks, found, .refl⟩

theorem Reaches.next {one : Path} (reaches : setting.Reaches text path one) (includes : setting.Includes one other) :
    setting.Reaches text path other := by
  obtain ⟨target, first, asks, found, chain⟩ := reaches
  exact ⟨target, first, asks, found, chain.tail includes⟩

/-- What a document without cycles reaches is a region. -/
theorem Acyclic.region (acyclic : setting.Acyclic text path) (rooted : setting.system.Rooted) :
    setting.Region (setting.Reaches text path) where
  canonical := by
    rintro other ⟨target, first, _, found, chain⟩
    rcases chain.cases_tail with rfl | ⟨_, _, includes⟩
    · exact FileSystem.isCanonical_of_resolve? rooted found
    · exact includes.isCanonical rooted
  closed := Reaches.next
  acyclic := fun reaches => (acyclic _ reaches).2

/-- Loading what a document without cycles includes gives it by itself. -/
theorem Acyclic.gives (acyclic : setting.Acyclic text path) (rooted : setting.system.Rooted)
    (trusts : setting.Trusts (setting.Reaches text path) Kept) (asks : setting.Asks text path target) :
    (setting.outside path).Gives (IncludeCache.Keeps Kept) setting.alone target := by
  intro other found
  have region := acyclic.region rooted
  have reached := Reaches.first asks found
  have free : ∀ last, ReflTransGen setting.Includes other last → last ∉ (path.map setting.system.canonical).toList := by
    intro last chain member
    exact (acyclic last (region.reaches reached chain)).1 (Option.mem_toList.mp member)
  exact ⟨free other .refl, fun cache keeps => loadWithin_eq region trusts (region.shallow_files reached) reached
    (Nat.le_refl _) (Nat.le_refl _) free keeps⟩

/-- Preprocessing a document without cycles gives the same with a cache that can be trusted as with none. -/
theorem Acyclic.preprocess_eq (acyclic : setting.Acyclic text path) (rooted : setting.system.Rooted)
    (trusts : setting.Trusts (setting.Reaches text path) Kept) (keeps : cache.Keeps Kept) :
    (preprocess setting text path cache).1 = (preprocess setting text path {}).1 ∧
      (preprocess setting text path cache).2.Keeps Kept := by
  have agree : ∀ target, setting.Asks text path target →
      Run.Agree (IncludeCache.Keeps Kept) (IncludeCache.Keeps Kept) (setting.outside path) (setting.outside path)
        target := by
    intro target asks
    have gives := acyclic.gives rooted trusts asks
    refine ⟨rfl, fun other found => ⟨(gives other found).1, (gives other found).1⟩, ?_⟩
    intro other found cache cache' keeps keeps'
    obtain ⟨same, kept⟩ := (gives other found).2 cache keeps
    obtain ⟨same', kept'⟩ := (gives other found).2 cache' keeps'
    exact ⟨same'.trans same.symm, kept, kept'⟩
  obtain ⟨same, _, kept⟩ := Run.all_alike rfl (IncludeCache.keeps_empty Kept) keeps fun target asks _ =>
    agree target asks
  exact ⟨same, kept⟩

/-! ## Orders without cycles -/

variable (setting)

/-- The targets that a file by itself looks for. -/
def sought (path : Path) : List String :=
  match setting.system.read path with
  | .error _ => []
  | .ok text => (setting.runAlone path text).targets

/-- The files that a file by itself includes. -/
def included (path : Path) : List Path := (setting.sought path).filterMap (setting.search (some path))

/-- Every file stands before all files that it includes. -/
def Ordered : List Path → Prop
  | [] => True
  | path :: rest => (∀ other ∈ setting.included path, other ∈ rest) ∧ path ∉ rest ∧ Ordered rest

instance decidableOrdered : (order : List Path) → Decidable (setting.Ordered order)
  | [] => isTrue trivial
  | _ :: rest => @instDecidableAnd _ _ inferInstance (@instDecidableAnd _ _ inferInstance (decidableOrdered rest))

variable {setting}

theorem mem_sought {path : Path} : target ∈ setting.sought path ↔ setting.Seeks path target := by
  unfold sought Seeks
  cases setting.system.read path with
  | error => simp
  | ok => simp

theorem mem_included {path : Path} : other ∈ setting.included path ↔ setting.Includes path other := by
  simp only [included, mem_filterMap, mem_sought, Includes]

namespace Ordered

variable {order : List Path}

theorem closed (ordered : setting.Ordered order) {path other : Path} (member : path ∈ order)
    (includes : setting.Includes path other) : other ∈ order := by
  induction order with
  | nil => cases member
  | cons first _ ih =>
    obtain ⟨below, _, later⟩ := ordered
    rcases mem_cons.mp member with rfl | member
    · exact mem_cons_of_mem path (below other (mem_included.mpr includes))
    · exact mem_cons_of_mem first (ih later member)

theorem reaches (ordered : setting.Ordered order) {path other : Path} (member : path ∈ order)
    (chain : ReflTransGen setting.Includes path other) : other ∈ order := by
  induction chain with
  | refl => exact member
  | tail _ includes ih => exact ordered.closed ih includes

theorem not_cycle (ordered : setting.Ordered order) {path : Path} (member : path ∈ order) :
    ¬TransGen setting.Includes path path := by
  induction order with
  | nil => cases member
  | cons _ _ ih =>
    obtain ⟨below, once, later⟩ := ordered
    rcases mem_cons.mp member with rfl | member
    · intro cycle
      obtain ⟨next, includes, chain⟩ := TransGen.head'_iff.mp cycle
      exact once (reaches later (below next (mem_included.mpr includes)) chain)
    · exact ih later member

end Ordered

/-- The files that a document includes, directly or not, stand in such an order, and the document is not among them. -/
def Sorts (setting : Setting) (text : List Char) (path : Option Path) (order : List Path) : Prop :=
  setting.Ordered order ∧
    (∀ target ∈ (preprocess setting text path {}).1.targets, ∀ first ∈ setting.searchFrom path target, first ∈ order) ∧
    ∀ file ∈ path.map setting.system.canonical, file ∉ order

instance (setting : Setting) (text : List Char) (path : Option Path) (order : List Path) :
    Decidable (setting.Sorts text path order) := inferInstanceAs (Decidable (_ ∧ _ ∧ _))

theorem Sorts.mem {order : List Path} (sorts : setting.Sorts text path order)
    (reached : setting.Reaches text path other) : other ∈ order := by
  obtain ⟨target, first, asks, found, chain⟩ := reached
  exact sorts.1.reaches (sorts.2.1 target asks first found) chain

theorem Sorts.acyclic {order : List Path} (sorts : setting.Sorts text path order) : setting.Acyclic text path := by
  intro other reached
  have member := sorts.mem reached
  exact ⟨fun same => sorts.2.2 other same member, sorts.1.not_cycle member⟩

end Setting

end Preprocess

end ScriptLint
