import LayeredCache.Cache.Operations
import LayeredCache.Cache.Property

/-!
# Blocking

One thread at a time looks a key up. A lookup that finds nothing leaves the key held by its thread, so
that other threads wait until that thread puts a value, removes the key or releases it.
-/

namespace LayeredCache

/-- The keys that are held, each by one thread, and how long a lookup waits for one, in nanoseconds; without a
timeout it waits forever. -/
structure Blocking where
  held : List (String × Nat)
  timeout : Option Nat
  deriving DecidableEq, Repr

namespace Blocking

/-- No key is held, and a lookup waits as long as the timeout says. -/
def empty (timeout : Option Nat) : Blocking := ⟨[], timeout⟩

def holder? (b : Blocking) (key : String) : Option Nat :=
  b.held.lookup key

def isHeld (b : Blocking) (key : String) : Bool :=
  (b.holder? key).isSome

def hold (b : Blocking) (key : String) (thread : Nat) : Blocking :=
  { b with held := (key, thread) :: b.held.filter (·.1 ≠ key) }

/-- A thread gives a key up; a key that it does not hold stays as it is. -/
def release (b : Blocking) (key : String) (thread : Nat) : Blocking :=
  if b.holder? key = some thread then { b with held := b.held.filter (·.1 ≠ key) } else b

/-- A thread is admitted to a key: it holds the key from an earlier lookup, or nobody holds it and the
thread does from now on. -/
def admit? (b : Blocking) (key : String) (thread : Nat) : Option Blocking :=
  match b.holder? key with
  | none => some (b.hold key thread)
  | some holder => if holder = thread then some b else none

/-- The end of an admitted lookup: only a lookup that found nothing keeps the key held. -/
def settle (key : String) (thread : Nat) (outcome : Found) (b : Blocking) : Found × Blocking :=
  match outcome with
  | .ok none => (outcome, b)
  | _ => (outcome, b.release key thread)

variable {σ : Type}

def admitted (inner : Cache σ) (call : Call) (key : String) (s : Blocking × σ) :
    Lookup (Blocking × σ) :=
  (inner.get call key s.2).outward (settle key call.thread) s.1

/-- The timeout in whole milliseconds, as a lookup that waited too long reports it. -/
def timeoutMillis (b : Blocking) : Nat :=
  b.timeout.getD 0 / nanosPerMilli

def timedOut (inner : Cache σ) (key : String) (s : Blocking × σ) : Lookup (Blocking × σ) :=
  .done (.error (.lockTimeout (inner.id s.2) key s.1.timeoutMillis)) s

/-- A lookup whose thread is not admitted yet waits until it is, and fails at the deadline. -/
def await (inner : Cache σ) (call : Call) (key : String) (s : Blocking × σ) : Lookup (Blocking × σ) :=
  let deadline := s.1.timeout.map (call.now + ·)
  .waiting deadline (fun s => (s.1.admit? key call.thread).isSome) s fun now s =>
    match s.1.admit? key call.thread with
    | some own => admitted inner { call with now } key (own, s.2)
    | none => timedOut inner key s

/-- A lookup of an admitted thread goes on to the inner cache. -/
def get (inner : Cache σ) (call : Call) (key : String) (s : Blocking × σ) : Lookup (Blocking × σ) :=
  match s.1.admit? key call.thread with
  | some own => admitted inner call key (own, s.2)
  | none =>
    -- a timeout of zero has passed before the wait begins
    if s.1.timeout = some 0 then timedOut inner key s else await inner call key s

def put (inner : Cache σ) (call : Call) (key : String) (value : Json) (s : Blocking × σ) :
    Except CacheError Unit × (Blocking × σ) :=
  let (outcome, rest) := inner.put call key value s.2
  (outcome, s.1.release key call.thread, rest)

def remove (inner : Cache σ) (call : Call) (key : String) (s : Blocking × σ) :
    Except CacheError (Option Json) × (Blocking × σ) :=
  let (outcome, rest) := inner.remove call key s.2
  (outcome, s.1.release key call.thread, rest)

/-- A release ends at this layer. -/
def around (inner : Cache σ) : Cache (Blocking × σ) :=
  { Cache.forward Blocking inner with
    put := put inner
    get := get inner
    remove := remove inner
    release := fun call key s => (s.1.release key call.thread, s.2) }

/-- The timeout that a value of the attribute, in milliseconds, stands for; one that is not positive means none. -/
def timeoutOf (value : PropertyValue) : Except CacheError (Option Nat) :=
  match value.integer? with
  | none => .error (.mismatch "timeout" .long value)
  | some n => .ok (if 0 < n then some (n.toNat * nanosPerMilli) else none)

def attributes : Attributes Blocking :=
  .single "timeout" .long fun value b =>
    (timeoutOf value).map fun timeout => { b with timeout }

end Blocking

end LayeredCache
