import LayeredCache.Cache.Operations

/-!
# Perpetual storage

The storage at the bottom of a cache: it keeps every entry until the entry is removed or all are cleared.
-/

namespace LayeredCache

/-- Entries by key, each key at most once. -/
structure Perpetual where
  id : String
  entries : List (String × Json)
  distinct : (entries.map Prod.fst).Nodup

namespace Perpetual

def empty (id : String) : Perpetual :=
  ⟨id, [], List.nodup_nil⟩

/-- The id may not be empty. -/
def make (id : String) : Except String Perpetual :=
  if id = "" then .error "cache instances require an id" else .ok (empty id)

/-- Storages are told apart by their ids. -/
instance : BEq Perpetual :=
  ⟨fun a b => a.id == b.id⟩

def get? (p : Perpetual) (key : String) : Option Json :=
  p.entries.lookup key

def keys (p : Perpetual) : List String :=
  p.entries.map Prod.fst

def size (p : Perpetual) : Nat :=
  p.entries.length

def erase (p : Perpetual) (key : String) : Perpetual where
  id := p.id
  entries := p.entries.filter (·.1 ≠ key)
  distinct := (p.distinct.sublist ((List.filter_sublist).map Prod.fst))

/-- The storage with a value under a key, in place of the value that was there. -/
def insert (p : Perpetual) (key : String) (value : Json) : Perpetual where
  id := p.id
  entries := (key, value) :: (p.erase key).entries
  distinct := by
    refine List.nodup_cons.2 ⟨?_, (p.erase key).distinct⟩
    simp [erase, List.mem_filter]

/-- The operations; none of them fails or waits. -/
def cache : Cache Perpetual where
  id p := p.id
  put _ key value p := (.ok (), p.insert key value)
  get _ key p := .done (.ok (p.get? key)) p
  remove _ key p := (.ok (p.get? key), p.erase key)
  clear _ p := (.ok (), empty p.id)
  size _ p := (.ok p.size, p)
  release _ _ p := p
  stats _ := none
  unlocked _ := true

end Perpetual

end LayeredCache
