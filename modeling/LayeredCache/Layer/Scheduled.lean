import LayeredCache.Cache.Operations
import LayeredCache.Cache.Property

/-!
# Scheduled clearing

The inner cache is cleared when an interval has passed since the last clear. Nothing runs in the
background: the first access after the interval finds the cache stale and clears it.
-/

namespace LayeredCache

/-- The interval and the instant of the last clear, both in nanoseconds. -/
structure Scheduled where
  interval : Nat
  lastClear : Nat
  deriving DecidableEq, Repr

namespace Scheduled

/-- One hour. -/
def standardInterval : Nat := 3600000 * nanosPerMilli

/-- The standard interval, counted from the given instant. -/
def since (now : Nat) : Scheduled := ⟨standardInterval, now⟩

/-- The instant at which a call is noticed: a clock that has moved on shows a later instant than that of
the last clear. -/
def instant (s : Scheduled) (call : Call) : Nat :=
  if call.later then max call.now (s.lastClear + 1) else call.now

def isStale (s : Scheduled) (call : Call) : Bool :=
  s.lastClear + s.interval < s.instant call

/-- A clear starts a new interval. -/
def restart (s : Scheduled) (call : Call) : Scheduled :=
  { s with lastClear := s.instant call }

variable {σ : Type}

/-- The new interval starts even if the clear fails. -/
def clear (inner : Cache σ) (call : Call) (s : Scheduled × σ) :
    Except CacheError Unit × (Scheduled × σ) :=
  Cache.lift (s.1.restart call) (inner.clear call s.2)

/-- Runs a step of the inner cache, after a clear if the cache is stale. -/
def afterClear {α : Type} (inner : Cache σ) (step : Call → σ → Except CacheError α × σ) (call : Call)
    (s : Scheduled × σ) : Except CacheError α × (Scheduled × σ) :=
  if s.1.isStale call then
    match clear inner call s with
    | (.error e, s) => (.error e, s)
    | (.ok (), s) => Cache.lift s.1 (step call.next s.2)
  else Cache.lift s.1 (step call s.2)

/-- A stale cache is cleared and answers a lookup without asking the inner cache. -/
def get (inner : Cache σ) (call : Call) (key : String) (s : Scheduled × σ) :
    Lookup (Scheduled × σ) :=
  if s.1.isStale call then
    (inner.gated inner.clear call s.2).outward (fun outcome own => (outcome.map fun () => none, own))
      (s.1.restart call)
  else (inner.get call key s.2).outward (fun outcome own => (outcome, own)) s.1

def around (inner : Cache σ) : Cache (Scheduled × σ) :=
  { Cache.forward Scheduled inner with
    put := fun call key value => afterClear inner (fun call => inner.put call key value) call
    get := get inner
    remove := fun call key => afterClear inner (fun call => inner.remove call key) call
    clear := clear inner
    size := afterClear inner inner.size }

/-- The interval that a value of the attribute stands for: the attribute is in milliseconds. -/
def intervalOf (value : PropertyValue) : Except CacheError Nat :=
  match value.integer? with
  | none => .error (.mismatch "clearInterval" .long value)
  | some n =>
    if n < 0 then
      .error (.invalidProperty "clearInterval" PropertyKind.long.name (toString n)
        "interval cannot be negative")
    else .ok (n.toNat * nanosPerMilli)

def attributes : Attributes Scheduled :=
  .single "clearInterval" .long fun value s =>
    (intervalOf value).map fun interval => { s with interval }

end Scheduled

end LayeredCache
