/-!
# Maps from names

A finite map keyed by names that lists its entries in the order of the names. The order is part of
the type, so whatever is printed from a map is printed the same way whichever order it was filled in.
-/

namespace ScriptLint

/-- Entries in strictly increasing order of their names. -/
structure NameMap (α : Type) where
  entries : List (String × α)
  sorted : entries.Pairwise (fun first second => first.1 < second.1)

namespace NameMap

variable {α β : Type}

def empty : NameMap α := ⟨[], .nil⟩

instance : Inhabited (NameMap α) := ⟨empty⟩

instance : EmptyCollection (NameMap α) := ⟨empty⟩

instance [Repr α] : Repr (NameMap α) := ⟨fun map precedence => reprPrec map.entries precedence⟩

instance [DecidableEq α] : DecidableEq (NameMap α) := fun first second =>
  match first, second with
  | ⟨entries, _⟩, ⟨others, _⟩ =>
    if equal : entries = others then isTrue (by subst equal; rfl)
    else isFalse (by intro same; exact equal (congrArg NameMap.entries same))

def find (name : String) : List (String × α) → Option α
  | [] => none
  | (key, value) :: rest => if key == name then some value else find name rest

/-- Put an entry at its place, replacing an entry of the same name. -/
def place (name : String) (value : α) : List (String × α) → List (String × α)
  | [] => [(name, value)]
  | (key, old) :: rest =>
    if name < key then (name, value) :: (key, old) :: rest
    else if key = name then (name, value) :: rest
    else (key, old) :: place name value rest

theorem mem_place {name : String} {value : α} {entries : List (String × α)} {entry : String × α}
    (member : entry ∈ place name value entries) : entry = (name, value) ∨ entry ∈ entries := by
  induction entries with
  | nil => simpa [place] using member
  | cons head rest ih => grind [place]

theorem sorted_place (name : String) (value : α) {entries : List (String × α)}
    (sorted : entries.Pairwise (fun first second => first.1 < second.1)) :
    (place name value entries).Pairwise (fun first second => first.1 < second.1) := by
  induction entries with
  | nil => simp [place]
  | cons head rest ih =>
    obtain ⟨key, old⟩ := head
    obtain ⟨above, restSorted⟩ := List.pairwise_cons.mp sorted
    unfold place
    split
    next before =>
      refine List.pairwise_cons.mpr ⟨?_, sorted⟩
      intro entry member
      rcases List.mem_cons.mp member with same | member
      · simpa [same] using before
      · exact String.lt_trans before (above entry member)
    next notBefore =>
      split
      next same => exact List.pairwise_cons.mpr ⟨fun entry member => same ▸ above entry member, restSorted⟩
      next different =>
        refine List.pairwise_cons.mpr ⟨?_, ih restSorted⟩
        intro entry member
        rcases mem_place member with same | member
        · have notAfter : key ≤ name := String.not_lt.mp notBefore
          have after : ¬ name ≤ key := fun le => different (String.le_antisymm notAfter le)
          simpa [same] using String.not_le.mp after
        · exact above entry member

def get? (map : NameMap α) (name : String) : Option α := find name map.entries

def contains (map : NameMap α) (name : String) : Bool := (map.get? name).isSome

def insert (map : NameMap α) (name : String) (value : α) : NameMap α :=
  ⟨place name value map.entries, sorted_place name value map.sorted⟩

/-- Set the value of a name that has none yet. -/
def insertNew (map : NameMap α) (name : String) (value : α) : NameMap α :=
  if map.contains name then map else map.insert name value

def filter (test : String → α → Bool) (map : NameMap α) : NameMap α :=
  ⟨map.entries.filter fun entry => test entry.1 entry.2, map.sorted.filter _⟩

def erase (map : NameMap α) (name : String) : NameMap α :=
  map.filter fun key _ => key != name

def ofList (entries : List (String × α)) : NameMap α :=
  entries.foldl (fun map entry => map.insert entry.1 entry.2) empty

/-- Add every entry of `later`, which wins where both have a name. -/
def merge (map later : NameMap α) : NameMap α :=
  later.entries.foldl (fun map entry => map.insert entry.1 entry.2) map

def size (map : NameMap α) : Nat := map.entries.length

def isEmpty (map : NameMap α) : Bool := map.entries.isEmpty

def names (map : NameMap α) : List String := map.entries.map Prod.fst

def values (map : NameMap α) : List α := map.entries.map Prod.snd

end NameMap

end ScriptLint
