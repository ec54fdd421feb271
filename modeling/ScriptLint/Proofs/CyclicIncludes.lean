import ScriptLint.Proofs.CallHistory

/-!
# Cycles of includes

An include of a file that is being included already is left out, so the file around it depends on the chain that led
to it. Such a file is not kept, but a file that includes it is, and with it what was left out inside. Only files that
no cycle can be reached from are sure to be kept as they are by themselves. A document that includes only such files
gets the same result after any documents, with cycles or not.
-/

namespace ScriptLint

open Preprocess Relation List

/-- A search finds files only. -/
theorem FileSystem.exists_of_resolve? {system : FileSystem} {resolver : Resolver} {target : String}
    {directory : Option Path} {path : Path} (resolved : resolver.resolve? system target directory = some path) :
    ∃ entry ∈ system.files, pathOf entry.1 = path := by
  obtain ⟨candidate, found, rfl⟩ := Option.map_eq_some_iff.mp resolved
  obtain ⟨location, file, located, held⟩ := exists_of_isFile (find?_some found)
  obtain ⟨entry, member, _⟩ := Option.map_eq_some_iff.mp held
  have key : entry.1 = location := by simpa using find?_some member
  refine ⟨entry, mem_of_find?_eq_some member, ?_⟩
  rw [key, canonical, located]

namespace Preprocess.Setting

variable (setting : Setting)

/-- No chain of includes from a file comes back to a file on it. -/
def Grounded (path : Path) : Prop :=
  setting.system.IsCanonical path ∧
    ∀ other, ReflTransGen setting.Includes path other → ¬TransGen setting.Includes other other

/-- No file without cycles leads to a path. -/
def Apart (path : Path) : Prop := ∀ other, setting.Grounded other → ¬TransGen setting.Includes other path

/-- Kept as it is by itself, unless a cycle can be reached. -/
def Sound (file : IncludedFile) : Prop := setting.Grounded file.path → setting.alone file.path = .ok file

variable {setting}

theorem region_grounded (rooted : setting.system.Rooted) : setting.Region setting.Grounded where
  canonical := And.left
  closed := fun grounded includes =>
    ⟨includes.isCanonical rooted, fun last chain => grounded.2 last (.head includes chain)⟩
  acyclic := fun grounded => grounded.2 _ .refl

theorem trusts_sound {Within : Path → Prop} (within : ∀ {path}, Within path → setting.Grounded path) :
    setting.Trusts Within setting.Sound :=
  ⟨fun sound reached _ _ => sound (within reached), fun _ loaded _ => loaded⟩

/-- Where no file is, no chain of includes leads. -/
theorem apart_of_no_file {path : Path} (absent : ∀ entry ∈ setting.system.files, FileSystem.pathOf entry.1 ≠ path) :
    setting.Apart path := by
  intro other _ chain
  obtain ⟨_, _, _, _, found⟩ := TransGen.tail'_iff.mp chain
  obtain ⟨entry, member, same⟩ := FileSystem.exists_of_resolve? found
  exact absent entry member same

/-- Files without cycles are not affected by a chain of files that have some. -/
theorem Grounded.free {path : Path} (grounded : setting.Grounded path) {stack : List Path} (new : path ∉ stack)
    (apart : ∀ above ∈ stack, setting.Apart above) :
    ∀ other, ReflTransGen setting.Includes path other → other ∉ stack := by
  intro other chain held
  rcases reflTransGen_iff_eq_or_transGen.mp chain with rfl | chain
  · exact new held
  · exact apart other held path grounded chain

/-- A run leaves the cache sound when loading what it finds does. -/
theorem all_keeps {env : Env} {text : List Char} {cache : IncludeCache} (keeps : cache.Keeps setting.Sound)
    (loads : ∀ target path, env.search target = some path → path ∉ env.stack → ∀ cache,
      cache.Keeps setting.Sound → (env.load path cache).2.Keeps setting.Sound) :
    (Run.all env setting.predefined text cache).2.Keeps setting.Sound := by
  refine Run.all_intake (fun intake => intake.cache.Keeps setting.Sound) keeps ?_
  intro before line target _ _ _ kept
  rcases Run.follow_cases before env line.directive target with
    ⟨_, after⟩ | ⟨path, found, ⟨_, after⟩ | ⟨new, ⟨_, _, after⟩ | ⟨_, _, after⟩⟩⟩ <;> rw [after]
  · exact kept
  · exact kept
  · exact loads target.text path found new before.cache kept
  · exact loads target.text path found new before.cache kept

/-- Loading leaves the cache sound, whatever chain led to the file. The chain without the document counts against the
depth, so that there is always enough of it left for files without cycles. -/
theorem loadWithin_keeps (rooted : setting.system.Rooted) {depth : Nat} {stack chain : List Path} {path : Path}
    {cache : IncludeCache} (apart : ∀ above ∈ stack, setting.Apart above) (within : chain ⊆ stack)
    (nodup : chain.Nodup)
    (readable : ∀ path ∈ chain, setting.system.IsCanonical path ∧ ∃ text, setting.system.read path = .ok text)
    (enough : depth + chain.length = setting.system.files.length + 1) (isCanonical : setting.system.IsCanonical path)
    (new : path ∉ stack) (keeps : cache.Keeps setting.Sound) :
    (loadWithin setting depth stack path cache).2.Keeps setting.Sound := by
  induction depth generalizing stack chain path cache with
  | zero => exact keeps
  | succ depth ih =>
    by_cases grounded : setting.Grounded path
    · have region := region_grounded rooted
      have free := grounded.free new apart
      have shallow : setting.Shallow (depth + 1) path := region.shallow grounded nodup readable (by omega)
        fun other chain held => free other chain (within held)
      exact (loadWithin_eq region (trusts_sound id) shallow grounded (Nat.le_refl _) (by omega) free keeps).2
    -- From here on the file leads to a cycle, so it may be kept in any form; only what is loaded inside it counts.
    have asked := keeps.get setting.system path setting.predefined.fingerprint
    cases got : (cache.get setting.system path setting.predefined.fingerprint).1 with
    | some => simpa only [loadWithin_succ, got]
    | none =>
      cases read : setting.system.read path with
      | error => simpa only [loadWithin_succ, got, read]
      | ok text =>
        have ran : (Run.all (setting.inside depth stack path) setting.predefined text.toList
            (cache.get setting.system path setting.predefined.fingerprint).2).2.Keeps setting.Sound := by
          refine all_keeps asked fun target other found free cache keeps => ?_
          refine @ih (path :: stack) (path :: chain) other cache ?_ ?_ ?_ ?_ ?_ ?_ free keeps
          · refine forall_mem_cons.mpr ⟨fun other known chain => grounded ?_, apart⟩
            exact (region_grounded rooted).reaches known chain.to_reflTransGen
          · exact cons_subset_cons path within
          · exact nodup_cons.mpr ⟨fun held => new (within held), nodup⟩
          · exact forall_mem_cons.mpr ⟨⟨isCanonical, text, read⟩, readable⟩
          · rw [length_cons]
            omega
          · exact FileSystem.isCanonical_of_resolve? rooted found
        simp only [loadWithin_succ, got, read]
        split
        · exact ran
        · refine ran.insert fun within => absurd ?_ grounded
          rwa [fileOf, isCanonical.canonical_eq read] at within

theorem Acyclic.grounded {text : List Char} {path : Option Path} (acyclic : setting.Acyclic text path)
    (rooted : setting.system.Rooted) {other : Path} (reached : setting.Reaches text path other) :
    setting.Grounded other := by
  have region := acyclic.region rooted
  exact ⟨region.canonical reached, fun last chain => region.acyclic (region.reaches reached chain)⟩

/-- A document leaves the cache sound when it has no cycles, and when it has but no file without cycles leads to it. -/
theorem preprocess_keeps (rooted : setting.system.Rooted) {text : List Char} {path : Option Path} {cache : IncludeCache}
    (settled : setting.Acyclic text path ∨ ∀ file ∈ path.map setting.system.canonical, setting.Apart file)
    (keeps : cache.Keeps setting.Sound) : (preprocess setting text path cache).2.Keeps setting.Sound := by
  rcases settled with acyclic | apart
  · exact (acyclic.preprocess_eq rooted (trusts_sound (acyclic.grounded rooted)) keeps).2
  · refine @all_keeps setting (setting.outside path) text cache keeps fun target other found new cache keeps => ?_
    refine @loadWithin_keeps setting rooted _ _ [] other cache ?_ ?_ nodup_nil ?_ rfl ?_ new keeps
    · exact fun above held => apart above (Option.mem_toList.mp held)
    · exact nil_subset _
    · exact fun _ held => nomatch held
    · exact FileSystem.isCanonical_of_resolve? rooted found

end Preprocess.Setting

namespace Call

/-- Behind any documents of one pipeline, on files that stay, a document without cycles gets what it gets without a
cache. The documents before it may have cycles, as long as no file without cycles leads to a document that has. -/
theorem run_among_cycles {pipeline : Pipeline} {system : FileSystem} {before : List Call} {call : Call}
    (one : ∀ each ∈ before ++ [call], each.pipeline = pipeline ∧ each.system = system) (rooted : system.Rooted)
    (settled : ∀ each ∈ before,
      each.Acyclic ∨ ∀ file ∈ each.path.map system.canonical, (pipeline.setting system).Apart file)
    (acyclic : call.Acyclic) : (call.run (cacheAfter before)).1 = call.fresh := by
  have setting_eq {each : Call} (member : each ∈ before ++ [call]) : each.setting = pipeline.setting system := by
    obtain ⟨same, same'⟩ := one each member
    rw [setting, same, same']
  have step (each : Call) (member : each ∈ before) {cache : IncludeCache}
      (keeps : cache.Keeps (pipeline.setting system).Sound) :
      (each.run cache).2.Keeps (pipeline.setting system).Sound := by
    have same := setting_eq (mem_append_left [call] member)
    have settled' := settled each member
    rw [Acyclic, same] at settled'
    change (preprocess each.setting _ _ _).2.Keeps _
    rw [same]
    exact Setting.preprocess_keeps rooted settled' keeps
  have keeps : (cacheAfter before).Keeps (pipeline.setting system).Sound := by
    refine List.foldlRecOn before _ (IncludeCache.keeps_empty _) fun cache keeps each member => ?_
    exact step each member keeps
  have same := setting_eq mem_concat_self
  rw [Acyclic, same] at acyclic
  have result := (acyclic.preprocess_eq rooted (Setting.trusts_sound (acyclic.grounded rooted)) keeps).1
  rw [← same] at result
  exact congrArg (call.pipeline.conclude call.text) result

/-- `x.lsl` includes itself, and it and `v.lsl` include each other; `u.lsl` includes `w.lsl`. -/
def tangledFiles : FileSystem :=
  ⟨[], [(["x.lsl"], ⟨some "#include \"x.lsl\"\n#include \"v.lsl\"\n", 1⟩),
    (["v.lsl"], ⟨some "#include \"x.lsl\"\n", 1⟩), (["u.lsl"], ⟨some "#include \"w.lsl\"\n", 1⟩),
    (["w.lsl"], ⟨some "integer w;\n", 1⟩)], []⟩

def including (text : String) : Call :=
  ⟨{ config := {}, definitions := {}, predefined := ∅, disabled := [] }, tangledFiles, text, some ⟨"/main.lsl"⟩⟩

/-- A document without cycles behind one that has some and includes the same files beside them. -/
theorem run_among_cycles_tangled :
    let before := including "#include \"v.lsl\"\n#include \"u.lsl\"\n"
    let call := including "#include \"u.lsl\"\n"
    (¬before.Acyclic ∧ (cacheAfter [before]).entries.map (·.path) = [⟨"/v.lsl"⟩, ⟨"/w.lsl"⟩, ⟨"/u.lsl"⟩]) ∧
      (call.run (cacheAfter [before])).1 = call.fresh := by
  intro before call
  have sorts : call.Sorts [⟨"/u.lsl"⟩, ⟨"/w.lsl"⟩] := by decide +kernel
  have apart : ∀ entry ∈ tangledFiles.files, ∀ file ∈ before.path.map tangledFiles.canonical,
      FileSystem.pathOf entry.1 ≠ file := by decide +kernel
  refine ⟨⟨?_, by decide +kernel⟩, run_among_cycles (forall_mem_two ⟨rfl, rfl⟩ ⟨rfl, rfl⟩) (by decide +kernel) ?_
    sorts.acyclic⟩
  · intro acyclic
    have asks : before.setting.Asks before.text.toList before.path "v.lsl" := by
      unfold Setting.Asks
      decide +kernel
    have reached : before.Reaches ⟨"/v.lsl"⟩ := Setting.Reaches.first asks (by decide +kernel)
    have includes : before.setting.Includes ⟨"/v.lsl"⟩ ⟨"/x.lsl"⟩ := Setting.mem_included.mp (by decide +kernel)
    have again : before.setting.Includes ⟨"/x.lsl"⟩ ⟨"/x.lsl"⟩ := Setting.mem_included.mp (by decide +kernel)
    exact (acyclic _ (reached.next includes)).2 (.single again)
  · refine forall_mem_singleton.mpr (.inr fun file named => ?_)
    exact Setting.apart_of_no_file fun entry member => apart entry member file named

/-- With cycles not even the same document gives the same twice: `v.lsl` is kept with what was left out inside it. -/
theorem rerun_with_cycle_differs :
    let call := including "#include \"x.lsl\"\n#include \"v.lsl\"\n"
    tangledFiles.Rooted ∧ (call.run (cacheAfter [call])).1 ≠ call.fresh := by
  intro call
  refine ⟨by decide +kernel, fun same => ?_⟩
  have given : (call.run (cacheAfter [call])).1.pre.files.map (fun file => file.nested.map (·.nested.length)) =
      [[1], [0]] := by decide +kernel
  have wanted : call.fresh.pre.files.map (fun file => file.nested.map (·.nested.length)) = [[0], [0]] := by
    decide +kernel
  rw [same, wanted] at given
  exact absurd given (by decide)

end Call

end ScriptLint
