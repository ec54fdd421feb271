import ScriptLint.Proofs.CallHistory

/-!
# Kept documents

A pipeline keeps the last result for each document and gives it again while the version, the text and the times of all
included files are the same. That is right as long as the searches of the document and of its included files stand.
No time is kept for what was missing or could not be read, so when it can be read later the kept result is outdated
and is given all the same.
-/

namespace ScriptLint

open Preprocess List

namespace NameMap

variable {α : Type} {map : NameMap α} {name : String} {value : α}

theorem mem_of_get? (found : map.get? name = some value) : (name, value) ∈ map.entries := by
  rw [get?] at found
  generalize map.entries = entries at found
  induction entries with
  | nil => cases found
  | cons entry _ ih =>
    rw [find] at found
    split at found
    · rename_i same
      obtain rfl : entry.2 = value := Option.some.inj found
      rw [← eq_of_beq same]
      exact mem_cons_self
    · exact mem_cons_of_mem entry (ih found)

end NameMap

/-! ## Documents in another setting -/

namespace Preprocess.Setting

variable {was now : Setting} {text : List Char} {path : Option Path}

/-- A document whose included files are up to date gives the same in another setting, when all searches stand. -/
theorem preprocess_of_fresh (predefined : now.predefined = was.predefined) (rooted : was.system.Rooted)
    (rooted' : now.system.Rooted) (acyclic : was.Acyclic text path) (acyclic' : now.Acyclic text path)
    (asked : ∀ target, was.Asks text path target →
      Stands was now (was.searchFrom path target) (now.searchFrom path target))
    (stands : ∀ file target, was.Reaches text path file → was.Seeks file target →
      Stands was now (was.search (some file) target) (now.search (some file) target))
    (fresh : ∀ file ∈ (preprocess was text path {}).1.files, file.isStale now.system = false) :
    (preprocess now text path {}).1 = (preprocess was text path {}).1 := by
  have region := acyclic.region rooted
  have region' := acyclic'.region rooted'
  have freshFound {target : String} (asks : was.Asks text path target) {found : Path} {inner : String}
      (search : was.searchFrom path target = some found) (readable : was.system.read found = .ok inner) :
      ∃ held, was.alone found = .ok held ∧ held.isStale now.system = false := by
    obtain ⟨held, given⟩ : ∃ held, was.alone found = .ok held := ⟨_, alone_eq_ok.mpr ⟨inner, readable, rfl⟩⟩
    have exact := Run.all_exact (IncludeCache.keeps_empty _)
      (fun _ asks => acyclic.gives rooted (was.trusts_alone _) asks) held
    exact ⟨held, given, fresh held (exact.mpr ⟨target, asks, found, search, given⟩)⟩
  have started : (preprocess now text path {}).1 = (Run.all (now.outside path) was.predefined text {}).1 := by
    rw [← predefined]
    rfl
  have agree : ∀ target, was.Asks text path target →
      target ∈ (Run.all (now.outside path) was.predefined text {}).1.targets →
      Run.Agree (IncludeCache.Keeps fun file => was.alone file.path = .ok file)
        (IncludeCache.Keeps fun file => now.alone file.path = .ok file) (was.outside path) (now.outside path)
        target := by
    intro target asks asks'
    rw [← started] at asks'
    refine Stands.agree (acyclic.gives rooted (was.trusts_alone _) asks)
      (acyclic'.gives rooted' (now.trusts_alone _) asks') ?_ (asked target asks) ?_
    · intro found inner search readable
      obtain ⟨held, given, upToDate⟩ := freshFound asks search readable
      exact modified_of_fresh given upToDate
    · intro found inner search search' readable readable'
      have reached := Reaches.first asks search
      obtain ⟨held, given, upToDate⟩ := freshFound asks search readable
      rw [given]
      exact alone_of_fresh predefined region region' stands (region.shallow_files reached) reached
        (Reaches.first asks' search') given (readable'.trans readable.symm) upToDate
  have owner : (was.outside path).owner = (now.outside path).owner := rfl
  obtain ⟨ran, _, _⟩ := Run.all_alike owner (IncludeCache.keeps_empty _) (IncludeCache.keeps_empty _) agree
  exact started.trans ran

end Preprocess.Setting

/-! ## Sessions -/

/-- A request for a document. -/
structure Visit where
  uri : String
  version : Int
  call : Call

/-- What can be asked of a pipeline that keeps documents. -/
inductive Request where
  | document (visit : Visit)
  | forget (uri : String)

def Request.visit? : Request → Option Visit
  | document visit => some visit
  | forget _ => none

structure Session where
  pipeline : Pipeline
  cache : IncludeCache

namespace Session

/-- Nothing is kept at first. -/
def start (pipeline : Pipeline) : Session := ⟨{ pipeline with documents := ∅ }, {}⟩

/-- The answer to a request for a document, and what is kept behind it. -/
def answer (session : Session) (visit : Visit) : Document × Session :=
  let ⟨document, pipeline, cache⟩ := session.pipeline.analyzeDocument visit.call.system session.cache visit.uri
    visit.version visit.call.text visit.call.path
  (document, ⟨pipeline, cache⟩)

def serve (session : Session) : Request → Session
  | .document visit => (session.answer visit).2
  | .forget uri => { session with pipeline := session.pipeline.forget uri }

def after (pipeline : Pipeline) (history : List Request) : Session := history.foldl serve (start pipeline)

end Session

/-- What an earlier request found lasts until a later one: inside the included files, and in the document itself when
both are about the same document. -/
structure Visit.Lasts (earlier later : Visit) : Prop where
  inside : earlier.call.Lasts later.call.setting
  asked : later.uri = earlier.uri → ∀ target,
    earlier.call.setting.Asks earlier.call.text.toList earlier.call.path target →
    Setting.Stands earlier.call.setting later.call.setting
      (earlier.call.setting.searchFrom earlier.call.path target)
      (later.call.setting.searchFrom earlier.call.path target)

/-- Requests of one pipeline for documents without cycles that have one path each. Different texts have different
digests, and what is found lasts. -/
structure Visit.Consistent (pipeline : Pipeline) (visits : List Visit) : Prop where
  one : ∀ visit ∈ visits, visit.call.pipeline = pipeline
  rooted : ∀ visit ∈ visits, visit.call.system.Rooted
  acyclic : ∀ visit ∈ visits, visit.call.Acyclic
  paths : ∀ visit ∈ visits, ∀ other ∈ visits, visit.uri = other.uri → visit.call.path = other.call.path
  digests : ∀ visit ∈ visits, ∀ other ∈ visits, Digest.ofText visit.call.text = Digest.ofText other.call.text →
    visit.call.text = other.call.text
  lasts : visits.Pairwise Visit.Lasts

namespace Visit.Consistent

variable {pipeline : Pipeline} {visits : List Visit}

theorem before {later : List Visit} (consistent : Consistent pipeline (visits ++ later)) :
    Consistent pipeline visits := by
  have within {visit : Visit} (member : visit ∈ visits) : visit ∈ visits ++ later := mem_append_left later member
  exact ⟨fun visit member => consistent.one visit (within member),
    fun visit member => consistent.rooted visit (within member),
    fun visit member => consistent.acyclic visit (within member),
    fun visit member other member' => consistent.paths visit (within member) other (within member'),
    fun visit member other member' => consistent.digests visit (within member) other (within member'),
    (pairwise_append.mp consistent.lasts).1⟩

theorem coherent (consistent : Consistent pipeline visits) : Call.Coherent (visits.map Visit.call) where
  rooted := forall_mem_map.mpr consistent.rooted
  acyclic := forall_mem_map.mpr consistent.acyclic
  serves := by
    refine pairwise_map.mpr (consistent.lasts.imp_of_mem fun {earlier later} member member' lasts _ => ?_)
    exact ⟨by rw [consistent.one later member', consistent.one earlier member], lasts.inside⟩

/-- An earlier result for the same text of the same document is right while its included files are up to date. -/
theorem fresh_eq {visit earlier : Visit} (consistent : Consistent pipeline (visits ++ [visit]))
    (member : earlier ∈ visits) (uri : earlier.uri = visit.uri)
    (digest : Digest.ofText earlier.call.text = Digest.ofText visit.call.text)
    (fresh : ∀ file ∈ earlier.call.fresh.pre.files, file.isStale visit.call.system = false) :
    earlier.call.fresh = visit.call.fresh := by
  have before := mem_append_left [visit] member
  have last : visit ∈ visits ++ [visit] := mem_concat_self
  have lasts := (pairwise_append.mp consistent.lasts).2.2 earlier member visit (mem_singleton.mpr rfl)
  have text := consistent.digests earlier before visit last digest
  have path := consistent.paths earlier before visit last uri
  have same := (consistent.one visit last).trans (consistent.one earlier before).symm
  have acyclic' := consistent.acyclic visit last
  rw [Call.Acyclic, ← text, ← path] at acyclic'
  have predefined : visit.call.setting.predefined = earlier.call.setting.predefined := congrArg Pipeline.predefined same
  have ran := Setting.preprocess_of_fresh predefined (consistent.rooted earlier before) (consistent.rooted visit last)
    (consistent.acyclic earlier before) acyclic' (lasts.asked uri.symm) lasts.inside.stands fresh
  rw [text, path] at ran
  rw [earlier.call.fresh_eq, text, path, ← ran, ← same]
  rfl

end Visit.Consistent

namespace Pipeline

/-- What is kept for a document is given while its digest is that of the text and its files are up to date. -/
theorem kept?_eq_some {pipeline : Pipeline} {system : FileSystem} {uri : String} {version : Int} {text : String}
    {document : Document} (kept : pipeline.kept? system uri version text = some document) :
    ∃ version', (uri, ⟨version', document⟩) ∈ pipeline.documents.entries ∧ document.digest = Digest.ofText text ∧
      ∀ file ∈ document.pre.files, file.isStale system = false := by
  obtain ⟨entry, found, given⟩ := Option.bind_eq_some_iff.mp kept
  split at given
  · rename_i valid
    obtain rfl : entry.document = document := Option.some.inj given
    simp only [Bool.and_eq_true, beq_iff_eq, Bool.not_eq_true', any_eq_false] at valid
    exact ⟨entry.version, NameMap.mem_of_get? found, valid.1.2, fun file member => by simpa using valid.2 file member⟩
  · cases given

end Pipeline

namespace Session

/-- What is kept was made by earlier requests: the files by themselves, and for each document a result without a
cache. -/
structure Holds (pipeline : Pipeline) (visits : List Visit) (session : Session) : Prop where
  pipeline_eq : session.pipeline = { pipeline with documents := session.pipeline.documents }
  keeps : session.cache.Keeps (Call.Made (visits.map Visit.call))
  documents : ∀ entry ∈ session.pipeline.documents.entries,
    ∃ visit ∈ visits, visit.uri = entry.1 ∧ entry.2.document = visit.call.fresh

variable {pipeline : Pipeline} {visits : List Visit} {session : Session}

/-- One request for a document more: the answer is what an analysis without a cache gives. -/
theorem Holds.answer {visit : Visit} (consistent : Visit.Consistent pipeline (visits ++ [visit]))
    (holds : Holds pipeline visits session) :
    (session.answer visit).1 = visit.call.fresh ∧ Holds pipeline (visits ++ [visit]) (session.answer visit).2 := by
  have last : visit ∈ visits ++ [visit] := mem_concat_self
  have documents : ∀ entry ∈ session.pipeline.documents.entries,
      ∃ other ∈ visits ++ [visit], other.uri = entry.1 ∧ entry.2.document = other.call.fresh := by
    intro entry held
    obtain ⟨other, member, made⟩ := holds.documents entry held
    exact ⟨other, mem_append_left [visit] member, made⟩
  have coherent := consistent.coherent
  rw [map_append] at coherent
  unfold Session.answer Pipeline.analyzeDocument
  cases kept : session.pipeline.kept? visit.call.system visit.uri visit.version visit.call.text with
  | some document =>
    -- The digest gives the text and the uri gives the path, so the earlier request was for the same document.
    obtain ⟨version, held, digest, fresh⟩ := Pipeline.kept?_eq_some kept
    obtain ⟨earlier, member, uri, made⟩ := holds.documents _ held
    obtain rfl : document = earlier.call.fresh := made
    refine ⟨consistent.fresh_eq member uri digest fresh, holds.pipeline_eq, fun file held => ?_, documents⟩
    rw [map_append]
    exact (holds.keeps file held).append _
  | none =>
    have ran : session.pipeline.analyze visit.call.system session.cache visit.call.text visit.call.path =
        visit.call.run session.cache := by
      rw [Call.run, consistent.one visit last, holds.pipeline_eq]
      rfl
    obtain ⟨same, keeps⟩ := coherent.run_eq holds.keeps
    rw [ran]
    refine ⟨same, ?_, ?_, ?_⟩
    · dsimp only
      rw [holds.pipeline_eq]
    · rw [map_append]
      exact keeps
    · intro entry held
      rcases NameMap.mem_place held with rfl | held
      · exact ⟨visit, last, rfl, same⟩
      · exact documents entry held

theorem Holds.forget (holds : Holds pipeline visits session) (uri : String) :
    Holds pipeline visits (session.serve (.forget uri)) := by
  refine ⟨?_, holds.keeps, fun entry held => holds.documents entry (mem_filter.mp held).1⟩
  exact congrArg (Pipeline.forget · uri) holds.pipeline_eq

theorem holds_after {history : List Request}
    (consistent : Visit.Consistent pipeline (history.filterMap Request.visit?)) :
    Holds pipeline (history.filterMap Request.visit?) (after pipeline history) := by
  induction history using List.reverseRecOn with
  | nil => exact ⟨rfl, IncludeCache.keeps_empty _, fun _ held => absurd held List.not_mem_nil⟩
  | append_singleton before request ih =>
    rw [filterMap_append] at consistent ⊢
    rw [after, foldl_append]
    have holds := ih consistent.before
    cases request with
    | document visit => exact (holds.answer consistent).2
    | forget uri =>
      have forgotten := holds.forget uri
      rwa [← append_nil (before.filterMap Request.visit?)] at forgotten

/-- Behind any requests a document is answered with what an analysis without any cache gives at that moment. The files
may be edited, created and removed in between, when every text that differs comes with a time that the file did not
have before, and the searches of the earlier requests stand. -/
theorem answer_after {pipeline : Pipeline} {history : List Request} {visit : Visit}
    (consistent : Visit.Consistent pipeline (history.filterMap Request.visit? ++ [visit])) :
    ((after pipeline history).answer visit).1 = visit.call.fresh :=
  ((holds_after consistent.before).answer consistent).1

/-- One document, which is always in its first version. -/
def visiting (system : FileSystem) : Visit := ⟨"main", 1, Call.opening [] system⟩

/-- Besides the edit inside the included file, a file appears that no search finds. -/
def grownFiles : FileSystem := Call.editedFiles.write ["lib", "c.lsl"] ⟨some "integer c;\n", 1⟩

/-- The version and the text stay, and the result that is kept is outdated. -/
theorem answer_after_grown :
    let early := visiting Call.nestedFiles
    let late := visiting grownFiles
    let session := after late.call.pipeline [.document early, .forget "other"]
    session.pipeline.documents.names = ["main"] ∧ (session.answer late).1 = late.call.fresh := by
  intro early late session
  have sorts : early.call.Sorts Call.nestedOrder := by decide +kernel
  have sorts' : late.call.Sorts Call.nestedOrder := by decide +kernel
  have inside : ∀ path ∈ Call.nestedOrder, ∀ target ∈ early.call.setting.sought path,
      Setting.Stands early.call.setting late.call.setting (early.call.setting.search (some path) target)
        (late.call.setting.search (some path) target) := by decide +kernel
  have asked : ∀ target ∈ early.call.fresh.pre.targets,
      Setting.Stands early.call.setting late.call.setting (early.call.setting.searchFrom early.call.path target)
        (late.call.setting.searchFrom early.call.path target) := by decide +kernel
  have lasts : early.Lasts late := by
    refine ⟨⟨by decide +kernel, fun path target reached seeks => ?_⟩, fun _ => asked⟩
    exact inside path (sorts.mem reached) target (Setting.mem_sought.mpr seeks)
  refine ⟨by decide +kernel, answer_after ⟨?_, ?_, ?_, ?_, ?_, pairwise_pair.mpr lasts⟩⟩
  · exact Call.forall_mem_two rfl rfl
  · exact Call.forall_mem_two (by decide +kernel) (by decide +kernel)
  · exact Call.forall_mem_two sorts.acyclic sorts'.acyclic
  · exact Call.forall_mem_two (Call.forall_mem_two (fun _ => rfl) fun _ => rfl)
      (Call.forall_mem_two (fun _ => rfl) fun _ => rfl)
  · exact Call.forall_mem_two (Call.forall_mem_two (fun _ => rfl) fun _ => rfl)
      (Call.forall_mem_two (fun _ => rfl) fun _ => rfl)

/-- The included file is no text at first. -/
def garbledFiles : FileSystem := ⟨[["lib"]], [(["lib", "a.lsl"], ⟨none, 1⟩)], []⟩

def mendedFiles : FileSystem := garbledFiles.write ["lib", "a.lsl"] ⟨some "integer a;\n", 2⟩

/-- A kept document is outdated when an included file that could not be read has become text, although its time is
another one. -/
theorem answer_misses_mended_file :
    let early := visiting garbledFiles
    let late := visiting mendedFiles
    (FileSystem.Redated garbledFiles mendedFiles ∧ early.call.Acyclic ∧ late.call.Acyclic) ∧
      ((after late.call.pipeline [.document early]).answer late).1 ≠ late.call.fresh := by
  intro early late
  have sorts : early.call.Sorts [⟨"/lib/a.lsl"⟩] := by decide +kernel
  have sorts' : late.call.Sorts [⟨"/lib/a.lsl"⟩] := by decide +kernel
  refine ⟨⟨by decide +kernel, sorts.acyclic, sorts'.acyclic⟩, fun same => ?_⟩
  have given : ((after late.call.pipeline [.document early]).answer late).1.pre.files.map (·.path) = [] := by
    decide +kernel
  have wanted : late.call.fresh.pre.files.map (·.path) = [⟨"/lib/a.lsl"⟩] := by decide +kernel
  rw [same, wanted] at given
  exact absurd given (by decide)

end Session

end ScriptLint
