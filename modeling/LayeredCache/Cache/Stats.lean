import LayeredCache.Decimal.Binary

/-!
# Statistics

Counts of lookups that found a value and of lookups that found none.
-/

namespace LayeredCache

structure Stats where
  hits : Nat
  misses : Nat
  deriving DecidableEq, Repr

namespace Stats

def none : Stats := ⟨0, 0⟩

def requests (s : Stats) : Nat :=
  s.hits + s.misses

/-- Counts a lookup by whether it found a value. -/
def record (s : Stats) (found : Bool) : Stats :=
  if found then { s with hits := s.hits + 1 } else { s with misses := s.misses + 1 }

/-- The share of lookups that found a value; zero if there was none. -/
def hitRate (s : Stats) : Decimal.Binary :=
  if s.requests = 0 then .zero .double false else .quotient .double s.hits s.requests

end Stats

end LayeredCache
