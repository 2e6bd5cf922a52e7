import LayeredCache.Cache.Operations
import LayeredCache.Layer.Capacity

/-!
# Eviction in order of insertion

A put of a new key puts the key at the end of a queue. The keys at its front that exceed the capacity
are removed from the inner cache, and then the value is stored.
-/

namespace LayeredCache

/-- The keys in order of insertion, the earliest first, and how many may be kept. -/
structure Fifo where
  queue : List String
  capacity : Capacity
  deriving DecidableEq

namespace Fifo

def empty : Fifo := ⟨[], .standard⟩

/-- The queue with a key; a key that is there keeps its place. -/
def enqueue (queue : List String) (key : String) : List String :=
  if key ∈ queue then queue else queue ++ [key]

variable {σ : Type}

def put (inner : Cache σ) (call : Call) (key : String) (value : Json) (s : Fifo × σ) :
    Except CacheError Unit × (Fifo × σ) :=
  let queue := enqueue s.1.queue key
  let overflow := queue.length - s.1.capacity.count
  let own := { s.1 with queue := queue.drop overflow }
  match inner.removeAll call (queue.take overflow) s.2 with
  | (.error e, rest) => (.error e, own, rest)
  | (.ok (), rest) =>
    let call := if overflow = 0 then call else call.next
    Cache.lift own (inner.put call key value rest)

def remove (inner : Cache σ) (call : Call) (key : String) (s : Fifo × σ) :
    Except CacheError (Option Json) × (Fifo × σ) :=
  Cache.lift { s.1 with queue := s.1.queue.filter (· ≠ key) } (inner.remove call key s.2)

/-- The queue is emptied only if the inner cache could be cleared. -/
def clear (inner : Cache σ) (call : Call) (s : Fifo × σ) : Except CacheError Unit × (Fifo × σ) :=
  match inner.clear call s.2 with
  | (.error e, rest) => (.error e, s.1, rest)
  | (.ok (), rest) => (.ok (), { s.1 with queue := [] }, rest)

def around (inner : Cache σ) : Cache (Fifo × σ) :=
  { Cache.forward Fifo inner with
    put := put inner
    remove := remove inner
    clear := clear inner }

/-- A smaller capacity takes effect at the next put. -/
def attributes : Attributes Fifo :=
  .single "size" .int fun value s =>
    (Capacity.ofValue value).map fun capacity => { s with capacity }

end Fifo

end LayeredCache
