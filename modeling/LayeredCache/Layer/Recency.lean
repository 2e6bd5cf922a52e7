/-!
# Recency of use

Keys in the order of their last use, the most recent first.
-/

namespace LayeredCache

/-- Tracked keys, the most recently used first. -/
structure Recency where
  keys : List String
  deriving DecidableEq, Repr

namespace Recency

def empty : Recency := ⟨[]⟩

def size (r : Recency) : Nat :=
  r.keys.length

def remove (r : Recency) (key : String) : Recency :=
  ⟨r.keys.filter (· ≠ key)⟩

/-- The key is now the most recently used, whether it was tracked or not. -/
def touch (r : Recency) (key : String) : Recency :=
  ⟨key :: (r.remove key).keys⟩

/-- A tracked key is now the most recently used; tells whether it was tracked. -/
def refresh (r : Recency) (key : String) : Bool × Recency :=
  if key ∈ r.keys then (true, ⟨key :: r.keys.erase key⟩) else (false, r)

def oldest? (r : Recency) : Option String :=
  r.keys.getLast?

/-- Takes the least recently used key out. -/
def evict (r : Recency) : Option String × Recency :=
  (r.oldest?, ⟨r.keys.dropLast⟩)

/-- Takes keys out until at most `n` are left; the least recently used comes first. -/
def shrink (r : Recency) (n : Nat) : List String × Recency :=
  ((r.keys.drop n).reverse, ⟨r.keys.take n⟩)

/-- The keys in the order in which they would be evicted. -/
def drain (r : Recency) : List String :=
  r.keys.reverse

end Recency

end LayeredCache
