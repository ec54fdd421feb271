import Mathlib.Data.List.Induction
import ScriptLint.Pipeline
import ScriptLint.Proofs.KeptFiles

/-!
# Analyses that share a cache

Analyses are made one after the other, by one pipeline or by several, on files that may change in between. They share
the cache of included files. What is kept of an earlier analysis is used in a later one when it is up to date, and
that is right where the searches of the earlier analysis stand in the setting of the later one. So a result does not
depend on what was analysed before in two cases: the files are only edited, or they stay and the pipelines find the
same.
-/

namespace ScriptLint

open Preprocess List

/-! ## Changes of files -/

namespace FileSystem

/-- A file that has the time it had before has the text it had then. -/
def Redated (was now : FileSystem) : Prop :=
  ∀ location file file', was.file? location = some file → now.file? location = some file' →
    file'.modified = file.modified → file'.content = file.content

instance (was now : FileSystem) : Decidable (Redated was now) :=
  decidable_of_iff
    (∀ entry ∈ was.files, ∀ file ∈ was.file? entry.1, ∀ file' ∈ now.file? entry.1,
      file'.modified = file.modified → file'.content = file.content) (by
    constructor
    · intro every location file file' held held'
      obtain ⟨entry, found, _⟩ := Option.map_eq_some_iff.mp held
      obtain rfl : entry.1 = location := by simpa using find?_some found
      exact every entry (mem_of_find?_eq_some found) file held file' held'
    · exact fun redated entry _ file held file' held' => redated entry.1 file file' held held')

/-- The same files are there, under the same names, and what differs is their text and their time. -/
structure Edited (was now : FileSystem) : Prop where
  directories : now.directories = was.directories
  working : now.working = was.working
  files : ∀ location, (now.file? location).isSome = (was.file? location).isSome
  redated : Redated was now

/-- Every file holds text. -/
def AllText (system : FileSystem) : Prop := ∀ entry ∈ system.files, entry.2.content.isSome

instance (system : FileSystem) : Decidable system.AllText := inferInstanceAs (Decidable (∀ entry ∈ _, _))

theorem redated_refl (system : FileSystem) : Redated system system := by
  intro location file file' held held' _
  rw [Option.mem_unique held held']

variable {was now : FileSystem}

theorem Redated.read_eq (redated : Redated was now) (rooted : was.Rooted) {path : Path}
    (isCanonical : was.IsCanonical path) {text : String} (read : was.read path = .ok text)
    (modified : now.modified? path = was.modified? path) : now.read path = .ok text := by
  obtain ⟨location, file, located, held, filled⟩ := exists_of_read read
  have dated : was.modified? path = some file.modified := by simp [modified?, find?, located, held]
  obtain ⟨file', found', same⟩ := Option.map_eq_some_iff.mp (modified.trans dated)
  obtain ⟨location', located', held'⟩ := Option.bind_eq_some_iff.mp found'
  have canonical := located'
  rw [← isCanonical location located] at canonical
  obtain rfl := locate?_pathOf (isName_of_locate? rooted located) canonical
  have content := redated location' file file' held held' same
  simp only [FileSystem.read, located', held', content, filled]

namespace Edited

variable (edited : Edited was now)

include edited

theorem follow?_eq (location : Location) (pieces : List String) :
    now.follow? location pieces = was.follow? location pieces := by
  induction pieces generalizing location with
  | nil => rfl
  | cons _ _ ih =>
    simp only [follow?, contains, isDirectory, edited.directories, edited.files, ih]
    rfl

theorem locate?_eq (path : Path) : now.locate? path = was.locate? path := by
  simp only [locate?, edited.working, edited.follow?_eq]

theorem canonical_eq (path : Path) : now.canonical path = was.canonical path := by
  simp only [canonical, edited.locate?_eq]

theorem isFile_eq (path : Path) : now.isFile path = was.isFile path := by
  rw [isFile, isFile, find?, find?, edited.locate?_eq]
  cases was.locate? path with
  | none => rfl
  | some location => exact edited.files location

theorem resolve?_eq (resolver : Resolver) (target : String) (directory : Option Path) :
    resolver.resolve? now target directory = resolver.resolve? was target directory := by
  have isFile := funext edited.isFile_eq
  have canonical := funext edited.canonical_eq
  rw [Resolver.resolve?, Resolver.resolve?, isFile, canonical]

/-- Where there was text, the text can only be another one when the time is. -/
theorem read_eq (allText : was.AllText) {path : Path}
    (modified : ∀ text, was.read path = .ok text → now.modified? path = was.modified? path) :
    now.read path = was.read path := by
  have there := edited.files
  cases located : was.locate? path with
  | none => simp only [FileSystem.read, edited.locate?_eq, located]
  | some location =>
    cases held : was.file? location with
    | none =>
      have held' : now.file? location = none := by
        rw [← Option.isNone_iff_eq_none, ← Option.not_isSome, there, held]
        rfl
      simp only [FileSystem.read, edited.locate?_eq, located, held, held']
    | some =>
      obtain ⟨entry, found, rfl⟩ := Option.map_eq_some_iff.mp held
      obtain ⟨text, filled⟩ := Option.isSome_iff_exists.mp (allText entry (mem_of_find?_eq_some found))
      obtain ⟨file', held'⟩ := Option.isSome_iff_exists.mp ((there location).trans (by rw [held]; rfl))
      have read : was.read path = .ok text := by simp only [FileSystem.read, located, held, filled]
      have same := modified text read
      simp only [modified?, find?, edited.locate?_eq, located, Option.bind_some, held, held', Option.map_some,
        Option.some.injEq] at same
      have content := edited.redated location entry.2 file' held held' same
      simp only [FileSystem.read, edited.locate?_eq, located, held, held', content]

end Edited

theorem file?_write (system : FileSystem) (location other : Location) (file : File) :
    (system.write location file).file? other = if other = location then some file else system.file? other := by
  rw [file?, write, find?_append]
  split
  · rename_i same
    have cleared : (system.files.filter (·.1 != location)).find? (fun entry => entry.1 == other) = none := by
      simp [same]
    rw [cleared, same]
    simp
  · rename_i apart
    have kept : (system.files.filter (·.1 != location)).find? (fun entry => entry.1 == other) =
        system.files.find? fun entry => entry.1 == other := by
      rw [find?_filter]
      congr 1
      funext entry
      by_cases key : entry.1 = other <;> simp_all
    have last : (location == other) = false := by simpa using Ne.symm apart
    simp [kept, file?, last]

/-- Writing a file that is there is an edit when it gets another time. -/
theorem edited_write {system : FileSystem} {location : Location} {file old : File}
    (held : system.file? location = some old) (above : ∀ directory ∈ above location, system.isDirectory directory)
    (later : file.modified ≠ old.modified) : Edited system (system.write location file) where
  directories := by
    have none' : (FileSystem.above location).filter (fun directory => !system.isDirectory directory) = [] := by
      simpa [filter_eq_nil_iff] using above
    simp [write, none']
  working := rfl
  files := by
    intro other
    rw [file?_write]
    split
    · rename_i same
      rw [same, held]
      rfl
    · rfl
  redated := by
    intro other file' file'' held' held'' same
    rw [file?_write] at held''
    split at held''
    · rename_i here
      obtain rfl : file = file'' := Option.some.inj held''
      obtain rfl : old = file' := Option.some.inj (held.symm.trans (here ▸ held'))
      exact absurd same later
    · rw [Option.mem_unique held' held'']

end FileSystem

/-! ## Histories -/

namespace Pipeline

def setting (pipeline : Pipeline) (system : FileSystem) : Setting :=
  ⟨system, ⟨pipeline.config.includePaths⟩, pipeline.predefined⟩

/-- What the stages behind preprocessing make of a text. -/
def conclude (pipeline : Pipeline) (text : String) (pre : Preprocessed) : Document :=
  let lexed := tokenize text.toList pre.disabled
  let analysis := ScriptLint.analyze text.toList lexed.tokens pre pipeline.definitions
  let found := Diagnostic.sort (pre.diagnostics ++ lexed.diagnostics ++ analysis.diagnostics)
  let lines := LineIndex.ofText text.toList
  ⟨pre, lexed.tokens, analysis, found,
    Document.select found pre.suppressions lines pipeline.disabled pipeline.config.maxDiagnostics,
    Digest.ofText text, lines⟩

end Pipeline

/-- An analysis: the pipeline that makes it, the files as they are then, and the document. -/
structure Call where
  pipeline : Pipeline
  system : FileSystem
  text : String
  path : Option Path

namespace Call

def setting (call : Call) : Setting := call.pipeline.setting call.system

def run (call : Call) (cache : IncludeCache) : Document × IncludeCache :=
  call.pipeline.analyze call.system cache call.text call.path

/-- The result while nothing is cached. -/
def fresh (call : Call) : Document := (call.run {}).1

theorem fresh_eq (call : Call) :
    call.fresh = call.pipeline.conclude call.text (preprocess call.setting call.text.toList call.path {}).1 := rfl

/-- The cache that some analyses leave, made one after the other from an empty one. -/
def cacheAfter (calls : List Call) : IncludeCache :=
  calls.foldl (fun cache call => (call.run cache).2) {}

def Reaches (call : Call) (path : Path) : Prop := call.setting.Reaches call.text.toList call.path path

def Acyclic (call : Call) : Prop := call.setting.Acyclic call.text.toList call.path

def Sorts (call : Call) (order : List Path) : Prop := call.setting.Sorts call.text.toList call.path order

instance (call : Call) (order : List Path) : Decidable (call.Sorts order) :=
  inferInstanceAs (Decidable (Setting.Sorts ..))

/-- What an analysis found inside the included files lasts in another setting: a file with the same time has the same
text, and the searches stand. -/
structure Lasts (call : Call) (now : Setting) : Prop where
  redated : FileSystem.Redated call.system now.system
  stands : ∀ path target, call.Reaches path → call.setting.Seeks path target →
    Setting.Stands call.setting now (call.setting.search (some path) target) (now.search (some path) target)

/-- What an earlier analysis leaves in the cache for a later one is right. -/
def Serves (earlier later : Call) : Prop :=
  earlier.pipeline.predefined.fingerprint = later.pipeline.predefined.fingerprint →
    later.pipeline.predefined = earlier.pipeline.predefined ∧ earlier.Lasts later.setting

/-- Analyses of documents without cycles each of which leaves in the cache what is right for the later ones. -/
structure Coherent (calls : List Call) : Prop where
  rooted : ∀ call ∈ calls, call.system.Rooted
  acyclic : ∀ call ∈ calls, call.Acyclic
  serves : calls.Pairwise Serves

/-- A file that one of some analyses reached and that is the file by itself. -/
def Made (calls : List Call) (file : IncludedFile) : Prop :=
  ∃ call ∈ calls, call.Reaches file.path ∧ call.setting.alone file.path = .ok file

theorem Made.append {calls : List Call} {file : IncludedFile} (made : Made calls file) (later : List Call) :
    Made (calls ++ later) file := by
  obtain ⟨call, member, loaded⟩ := made
  exact ⟨call, mem_append_left later member, loaded⟩

variable {call : Call}

theorem Coherent.trusts {before : List Call} (coherent : Coherent (before ++ [call])) :
    call.setting.Trusts call.Reaches (Made (before ++ [call])) := by
  have last : call ∈ before ++ [call] := mem_concat_self
  have region {made : Call} (member : made ∈ before ++ [call]) : made.setting.Region made.Reaches :=
    (coherent.acyclic made member).region (coherent.rooted made member)
  refine ⟨?_, fun reached loaded => ⟨call, last, reached, loaded⟩⟩
  rintro file ⟨made, member, reached', loaded⟩ reached fingerprint fresh
  -- What an earlier analysis made is used for its times, what this one made is right in any case.
  rcases mem_append.mp member with earlier | same
  · have serves := (pairwise_append.mp coherent.serves).2.2 made earlier call (mem_singleton.mpr rfl)
    obtain ⟨predefined, lasts⟩ := serves ((Setting.fingerprint_of_alone loaded).symm.trans fingerprint)
    obtain ⟨text, read, _⟩ := Setting.alone_eq_ok.mp loaded
    have read' := lasts.redated.read_eq (coherent.rooted made member) ((region member).canonical reached') read
      (Setting.modified_of_fresh loaded fresh)
    exact Setting.alone_of_fresh predefined (region member) (region last) lasts.stands
      ((region member).shallow_files reached') reached' reached loaded (read'.trans read.symm) fresh
  · obtain rfl : made = call := mem_singleton.mp same
    exact loaded

/-- One analysis more: the result is the one without a cache, and the cache still holds only what was made. -/
theorem Coherent.run_eq {before : List Call} (coherent : Coherent (before ++ [call]))
    {cache : IncludeCache} (keeps : cache.Keeps (Made before)) :
    (call.run cache).1 = call.fresh ∧ (call.run cache).2.Keeps (Made (before ++ [call])) := by
  have last : call ∈ before ++ [call] := mem_concat_self
  have kept : cache.Keeps (Made (before ++ [call])) := fun file held => (keeps file held).append [call]
  obtain ⟨same, keeps'⟩ := (coherent.acyclic call last).preprocess_eq (coherent.rooted call last) coherent.trusts kept
  exact ⟨congrArg (call.pipeline.conclude call.text) same, keeps'⟩

theorem Coherent.before {calls later : List Call} (coherent : Coherent (calls ++ later)) : Coherent calls :=
  ⟨fun call member => coherent.rooted call (mem_append_left later member),
    fun call member => coherent.acyclic call (mem_append_left later member),
    (pairwise_append.mp coherent.serves).1⟩

theorem Coherent.keeps {calls : List Call} (coherent : Coherent calls) : (cacheAfter calls).Keeps (Made calls) := by
  induction calls using List.reverseRecOn with
  | nil => exact IncludeCache.keeps_empty _
  | append_singleton _ _ ih =>
    rw [cacheAfter, foldl_append]
    exact (coherent.run_eq (ih coherent.before)).2

/-- After such analyses the next one gives what it gives without a cache. -/
theorem Coherent.run_cacheAfter {before : List Call} (coherent : Coherent (before ++ [call])) :
    (call.run (cacheAfter before)).1 = call.fresh :=
  (coherent.run_eq coherent.before.keeps).1

/-! ## Edited files -/

theorem Lasts.of_edited {now : Setting} (resolver : now.resolver = call.setting.resolver)
    (allText : call.system.AllText) (edited : FileSystem.Edited call.system now.system) : call.Lasts now where
  redated := edited.redated
  stands := by
    intro path target _ _ fresh
    refine ⟨?_, fun found search => edited.read_eq allText fun text => fresh found text search⟩
    rw [Setting.search, resolver]
    exact edited.resolve?_eq call.setting.resolver target _

/-- The cache cannot be seen while files are only edited: one pipeline gives for each document of a history what it
gives without a cache, when every text that differs comes with a time that the file did not have before, and no
document has a chain of includes that comes back. -/
theorem run_after_edits {pipeline : Pipeline} {before : List Call} {call : Call}
    (one : ∀ each ∈ before ++ [call], each.pipeline = pipeline)
    (rooted : ∀ each ∈ before ++ [call], each.system.Rooted)
    (allText : ∀ each ∈ before ++ [call], each.system.AllText)
    (edits : (before ++ [call]).Pairwise fun earlier later => FileSystem.Edited earlier.system later.system)
    (acyclic : ∀ each ∈ before ++ [call], each.Acyclic) :
    (call.run (cacheAfter before)).1 = call.fresh := by
  refine Coherent.run_cacheAfter ⟨rooted, acyclic, ?_⟩
  refine edits.imp_of_mem fun {earlier later} member member' edited _ => ?_
  have same := (one later member').trans (one earlier member).symm
  refine ⟨by rw [same], .of_edited ?_ (allText earlier member) edited⟩
  simp only [setting, Pipeline.setting, same]

theorem forall_mem_two {α : Type} {Holds : α → Prop} {first last : α} (holds : Holds first) (holds' : Holds last) :
    ∀ each ∈ [first] ++ [last], Holds each :=
  forall_mem_cons.mpr ⟨holds, forall_mem_singleton.mpr holds'⟩

/-- A document that includes `/lib/a.lsl`, for a pipeline that looks into some directories. -/
def opening (paths : List Path) (system : FileSystem) : Call :=
  ⟨{ config := { includePaths := paths }, definitions := {}, predefined := ∅, disabled := [] }, system,
    "#include \"/lib/a.lsl\"\n", some ⟨"/main.lsl"⟩⟩

def nestedFiles : FileSystem :=
  ⟨[["lib"]], [(["lib", "a.lsl"], ⟨some "#include \"b.lsl\"\n", 1⟩), (["lib", "b.lsl"], ⟨some "integer b;\n", 1⟩)], []⟩

def editedFiles : FileSystem := nestedFiles.write ["lib", "b.lsl"] ⟨some "float b;\n", 2⟩

def nestedOrder : List Path := [⟨"/lib/a.lsl"⟩, ⟨"/lib/b.lsl"⟩]

/-- Behind an edit of a file inside an included file, which was kept. -/
theorem run_after_edits_nested :
    let first := opening [] nestedFiles
    let second := opening [] editedFiles
    ((cacheAfter [first]).entries.map (·.path) = nestedOrder.reverse ∧ FileSystem.Edited nestedFiles editedFiles) ∧
      (second.run (cacheAfter [first])).1 = second.fresh := by
  intro first second
  have edited : FileSystem.Edited nestedFiles editedFiles :=
    FileSystem.edited_write rfl (by decide +kernel) (by decide +kernel)
  have sorts : first.Sorts nestedOrder := by decide +kernel
  have sorts' : second.Sorts nestedOrder := by decide +kernel
  refine ⟨⟨by decide +kernel, edited⟩, run_after_edits (forall_mem_two rfl rfl) (forall_mem_two ?_ ?_)
    (forall_mem_two ?_ ?_) (pairwise_pair.mpr edited) (forall_mem_two sorts.acyclic sorts'.acyclic)⟩
  all_goals decide +kernel

/-! ## Shared caches -/

/-- A cache can be shared by pipelines that find the same. On files that stay, each document of a history gets what its
pipeline gives without a cache, when the digests of different definitions differ, no document has a chain of includes
that comes back, and two pipelines with the same definitions find the same inside the included files. -/
theorem run_shared_cache {system : FileSystem} {before : List Call} {call : Call}
    (static : ∀ each ∈ before ++ [call], each.system = system) (rooted : system.Rooted)
    (acyclic : ∀ each ∈ before ++ [call], each.Acyclic)
    (digests : ∀ one ∈ before ++ [call], ∀ other ∈ before ++ [call],
      one.pipeline.predefined.fingerprint = other.pipeline.predefined.fingerprint →
        one.pipeline.predefined = other.pipeline.predefined)
    (finds : (before ++ [call]).Pairwise fun earlier later =>
      later.pipeline.predefined = earlier.pipeline.predefined →
        ∀ path target, earlier.Reaches path → earlier.setting.Seeks path target →
          later.setting.search (some path) target = earlier.setting.search (some path) target) :
    (call.run (cacheAfter before)).1 = call.fresh := by
  refine Coherent.run_cacheAfter ⟨fun each member => static each member ▸ rooted, acyclic, ?_⟩
  refine finds.imp_of_mem fun {earlier later} member member' found digest => ?_
  have predefined := (digests earlier member later member' digest).symm
  have same := (static later member').trans (static earlier member).symm
  refine ⟨predefined, ?_, fun path target reached seeks _ => ⟨found predefined path target reached seeks, ?_⟩⟩
  · exact same ▸ FileSystem.redated_refl _
  · intro other _
    exact congrArg (fun system => system.read other) same

/-- Two pipelines that look into different directories, while both files are in one directory. -/
theorem run_shared_cache_nested :
    let first := opening [⟨"/one"⟩] nestedFiles
    let second := opening [⟨"/two"⟩] nestedFiles
    (first.pipeline.predefined = second.pipeline.predefined ∧
        (cacheAfter [first]).entries.map (·.path) = nestedOrder.reverse) ∧
      (second.run (cacheAfter [first])).1 = second.fresh := by
  intro first second
  have sorts : first.Sorts nestedOrder := by decide +kernel
  have sorts' : second.Sorts nestedOrder := by decide +kernel
  have found : ∀ path ∈ nestedOrder, ∀ target ∈ first.setting.sought path,
      second.setting.search (some path) target = first.setting.search (some path) target := by decide +kernel
  refine ⟨⟨rfl, by decide +kernel⟩, run_shared_cache (forall_mem_two rfl rfl) (by decide +kernel)
    (forall_mem_two sorts.acyclic sorts'.acyclic) ?_ (pairwise_pair.mpr ?_)⟩
  · exact forall_mem_two (forall_mem_two (fun _ => rfl) fun _ => rfl) (forall_mem_two (fun _ => rfl) fun _ => rfl)
  · exact fun _ path target reached seeks => found path (sorts.mem reached) target (Setting.mem_sought.mpr seeks)

/-- The file inside the included one is there twice. -/
def scatteredFiles : FileSystem :=
  ⟨[["lib"], ["one"], ["two"]],
    [(["lib", "a.lsl"], ⟨some "#include \"b.lsl\"\n", 1⟩), (["one", "b.lsl"], ⟨some "integer one;\n", 1⟩),
      (["two", "b.lsl"], ⟨some "integer two;\n", 1⟩)], []⟩

/-- Sharing is not safe in general: what one pipeline has found in its own directory is given to another one. -/
theorem shared_cache_crosses_directories :
    let first := opening [⟨"/one"⟩] scatteredFiles
    let second := opening [⟨"/two"⟩] scatteredFiles
    (scatteredFiles.Rooted ∧ first.Acyclic ∧ second.Acyclic ∧
        first.pipeline.predefined = second.pipeline.predefined) ∧
      (second.run (cacheAfter [first])).1 ≠ second.fresh := by
  intro first second
  have sorts : first.Sorts [⟨"/lib/a.lsl"⟩, ⟨"/one/b.lsl"⟩] := by decide +kernel
  have sorts' : second.Sorts [⟨"/lib/a.lsl"⟩, ⟨"/two/b.lsl"⟩] := by decide +kernel
  refine ⟨⟨by decide +kernel, sorts.acyclic, sorts'.acyclic, rfl⟩, fun same => ?_⟩
  have given : (second.run (cacheAfter [first])).1.pre.files.flatMap (fun file => file.nested.map (·.path)) =
      [⟨"/one/b.lsl"⟩] := by decide +kernel
  have wanted : second.fresh.pre.files.flatMap (fun file => file.nested.map (·.path)) = [⟨"/two/b.lsl"⟩] := by
    decide +kernel
  rw [same, wanted] at given
  exact absurd given (by decide)

end Call

end ScriptLint
