import ScriptLint.Include.File

/-!
# The cache of included files

Files are kept under their canonical path and the digest of the definitions that held before their first
line. A kept file is used again as long as nothing it was made from has changed.
-/

namespace ScriptLint

structure IncludeCache where
  entries : List IncludedFile := []
  hits : Nat := 0
  misses : Nat := 0
  deriving Repr, Inhabited

namespace IncludeCache

def isAt (path : Path) (fingerprint : UInt64) (file : IncludedFile) : Bool :=
  file.path == path && file.fingerprint == fingerprint

def find? (cache : IncludeCache) (path : Path) (fingerprint : UInt64) : Option IncludedFile :=
  cache.entries.find? (isAt path fingerprint)

def erase (cache : IncludeCache) (path : Path) (fingerprint : UInt64) : IncludeCache :=
  { cache with entries := cache.entries.filter fun file => !isAt path fingerprint file }

def insert (cache : IncludeCache) (file : IncludedFile) : IncludeCache :=
  let others := cache.erase file.path file.fingerprint
  { others with entries := others.entries ++ [file] }

/-- The kept file if it is up to date. A stale one is dropped, and every use is counted. -/
def get (cache : IncludeCache) (system : FileSystem) (path : Path) (fingerprint : UInt64) :
    Option IncludedFile × IncludeCache :=
  match cache.find? path fingerprint with
  | some file =>
    if file.isStale system then
      (none, { cache.erase path fingerprint with misses := cache.misses + 1 })
    else (some file, { cache with hits := cache.hits + 1 })
  | none => (none, { cache with misses := cache.misses + 1 })

def invalidate (cache : IncludeCache) (path : Path) : IncludeCache :=
  { cache with entries := cache.entries.filter fun file => !file.path.same path }

def clear (cache : IncludeCache) : IncludeCache :=
  { cache with entries := [] }

def size (cache : IncludeCache) : Nat := cache.entries.length

end IncludeCache

end ScriptLint
