import LayeredCache.Cache.Operations
import LayeredCache.Layer.Capacity
import LayeredCache.Layer.Recency

/-!
# Eviction of the least recently used key

A put stores its value first. Then the keys that have not been used for longest are removed from the
inner cache until at most the capacity is left.
-/

namespace LayeredCache

/-- The keys in order of use, and how many may be kept. -/
structure Lru where
  order : Recency
  capacity : Capacity
  deriving DecidableEq

namespace Lru

def empty : Lru := ⟨.empty, .standard⟩

variable {σ : Type}

def put (inner : Cache σ) (call : Call) (key : String) (value : Json) (s : Lru × σ) :
    Except CacheError Unit × (Lru × σ) :=
  match inner.put call key value s.2 with
  | (.error e, rest) => (.error e, s.1, rest)
  | (.ok (), rest) =>
    let (evicted, order) := (s.1.order.touch key).shrink s.1.capacity.count
    Cache.lift { s.1 with order } (inner.removeAll call.next evicted rest)

/-- A lookup counts as a use of a tracked key before its outcome is known. -/
def get (inner : Cache σ) (call : Call) (key : String) (s : Lru × σ) : Lookup (Lru × σ) :=
  (inner.get call key s.2).outward (fun outcome own => (outcome, own))
    { s.1 with order := (s.1.order.refresh key).2 }

def remove (inner : Cache σ) (call : Call) (key : String) (s : Lru × σ) :
    Except CacheError (Option Json) × (Lru × σ) :=
  Cache.lift { s.1 with order := s.1.order.remove key } (inner.remove call key s.2)

/-- The order is forgotten only if the inner cache could be cleared. -/
def clear (inner : Cache σ) (call : Call) (s : Lru × σ) : Except CacheError Unit × (Lru × σ) :=
  match inner.clear call s.2 with
  | (.error e, rest) => (.error e, s.1, rest)
  | (.ok (), rest) => (.ok (), { s.1 with order := .empty }, rest)

def around (inner : Cache σ) : Cache (Lru × σ) :=
  { Cache.forward Lru inner with
    put := put inner
    get := get inner
    remove := remove inner
    clear := clear inner }

/-- A smaller capacity takes effect at the next put. -/
def attributes : Attributes Lru :=
  .single "size" .int fun value s =>
    (Capacity.ofValue value).map fun capacity => { s with capacity }

end Lru

end LayeredCache
