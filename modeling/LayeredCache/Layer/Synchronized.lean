import LayeredCache.Cache.Operations

/-!
# Synchronization

One lock around every operation of the inner cache. Only a lookup that waits on its way keeps the lock
from one step of a run to the next; the others, and further lookups, begin when it is free.
-/

namespace LayeredCache

/-- Whether a lookup that waits has the lock. -/
structure Synchronized where
  locked : Bool
  deriving DecidableEq, Repr

namespace Synchronized

def free : Synchronized := ⟨false⟩

variable {σ : Type}

/-- A lookup that has the lock, which is free again when there is an outcome. -/
def inside (lookup : Lookup σ) : Lookup (Synchronized × σ) :=
  lookup.outward (fun outcome _ => (outcome, free)) ⟨true⟩

/-- A lookup waits for the lock as long as it takes. -/
def get (inner : Cache σ) (call : Call) (key : String) (s : Synchronized × σ) :
    Lookup (Synchronized × σ) :=
  if s.1.locked then
    .waiting none (fun s => !s.1.locked) s fun now s => inside (inner.get { call with now } key s.2)
  else inside (inner.get call key s.2)

def around (inner : Cache σ) : Cache (Synchronized × σ) :=
  { Cache.forward Synchronized inner with
    get := get inner
    unlocked := fun s => !s.1.locked && inner.unlocked s.2 }

end Synchronized

end LayeredCache
