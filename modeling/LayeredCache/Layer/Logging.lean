import LayeredCache.Cache.Operations

/-!
# Logging of hits and misses

Counts the lookups that found a value and those that found none. A lookup that fails is neither.
-/

namespace LayeredCache

/-- What has been counted so far. -/
structure Logging where
  counts : Stats
  deriving DecidableEq, Repr

namespace Logging

def empty : Logging := ⟨.none⟩

def record (outcome : Found) (s : Logging) : Found × Logging :=
  match outcome with
  | .ok found => (outcome, ⟨s.counts.record found.isSome⟩)
  | .error _ => (outcome, s)

variable {σ : Type}

def around (inner : Cache σ) : Cache (Logging × σ) :=
  { Cache.forward Logging inner with
    get := fun call key s => (inner.get call key s.2).outward record s.1
    stats := fun s => some s.1.counts }

end Logging

end LayeredCache
