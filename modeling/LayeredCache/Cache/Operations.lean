import LayeredCache.Cache.Error
import LayeredCache.Cache.Stats
import LayeredCache.Json.Basic

/-!
# The operations of a cache

A cache is known by its operations on a state. A decorator turns the operations of an inner cache into
those of a cache that has a state of its own beside the inner one.

A lookup can be made to wait on its way. It then says what it waits for, and how it goes on. The other
operations wait, if at all, before they begin: until the locks on their way are free.
-/

namespace LayeredCache

/-- Who calls an operation, and when. -/
structure Call where
  /-- The calling thread. -/
  thread : Nat
  /-- The instant of the call, in nanoseconds. -/
  now : Nat
  /-- The call belongs to an operation that has made other calls before: the clock has moved on since. -/
  later : Bool
  deriving DecidableEq, Repr

/-- A call of a thread that is part of no other operation. -/
def Call.at (thread now : Nat) : Call := ⟨thread, now, false⟩

/-- A call that comes after this one inside one operation. -/
def Call.next (call : Call) : Call :=
  { call with later := true }

def nanosPerMilli : Nat := 1000000

/-- What a lookup gives in the end. -/
abbrev Found := Except CacheError (Option Json)

/-- What becomes of an operation on a state `σ`: it has an outcome, or it waits until the state allows
it to go on, or until the deadline if it has one. Meanwhile the state can change. -/
inductive Action (σ ρ : Type) where
  | done (outcome : ρ) (state : σ)
  | waiting (deadline : Option Nat) (ready : σ → Bool) (state : σ) (resume : Nat → σ → Action σ ρ)

abbrev Lookup (σ : Type) := Action σ Found

namespace Action

variable {σ τ ρ υ : Type}

def ofResult (result : ρ × σ) : Action σ ρ :=
  .done result.1 result.2

/-- The state that an operation leaves for now. -/
def state : Action σ ρ → σ
  | .done _ s => s
  | .waiting _ _ s _ => s

/-- An operation of an inner cache as a step of the cache around it. `leave` has the last word on the
outcome and changes the outer part of the state, as it is by then. -/
def outward (leave : ρ → τ → υ × τ) (own : τ) : Action σ ρ → Action (τ × σ) υ
  | .done outcome inner =>
    let (outcome, own) := leave outcome own
    .done outcome (own, inner)
  | .waiting deadline ready inner resume =>
    .waiting deadline (fun s => ready s.2) (own, inner)
      (fun now s => outward leave s.1 (resume now s.2))

def map (f : ρ → υ) : Action σ ρ → Action σ υ
  | .done outcome s => .done (f outcome) s
  | .waiting deadline ready s resume =>
    .waiting deadline ready s (fun now s => map f (resume now s))

/-- The outcome of an operation when no other thread acts: it waits for its deadlines, and has no outcome
if it waits without one. The last part is the instant of the outcome. -/
def alone (now : Nat) : Action σ ρ → Option (ρ × σ × Nat)
  | .done outcome s => some (outcome, s, now)
  | .waiting (some deadline) _ s resume => alone (max now deadline) (resume (max now deadline) s)
  | .waiting none _ _ _ => none

end Action

/-- The operations of a cache with state `σ`. An operation that fails keeps the state it leads to. -/
structure Cache (σ : Type) where
  /-- The id, given to the storage when it is made. -/
  id : σ → String
  put : Call → String → Json → σ → Except CacheError Unit × σ
  get : Call → String → σ → Lookup σ
  remove : Call → String → σ → Except CacheError (Option Json) × σ
  clear : Call → σ → Except CacheError Unit × σ
  size : Call → σ → Except CacheError Nat × σ
  /-- Gives up the calling thread's hold on a key. -/
  release : Call → String → σ → σ
  /-- The statistics of the nearest layer that keeps any. -/
  stats : σ → Option Stats
  /-- Every lock on the way of an operation is free. -/
  unlocked : σ → Bool

namespace Cache

variable {σ : Type}

/-- A step of the inner cache as a step of the cache around it. -/
def lift {α τ : Type} (own : τ) (step : α × σ) : α × (τ × σ) :=
  (step.1, own, step.2)

/-- Hands every operation to the inner cache: what a decorator does unless it has something to add. -/
def forward (τ : Type) (inner : Cache σ) : Cache (τ × σ) where
  id s := inner.id s.2
  put call key value s := lift s.1 (inner.put call key value s.2)
  get call key s := (inner.get call key s.2).outward (fun outcome own => (outcome, own)) s.1
  remove call key s := lift s.1 (inner.remove call key s.2)
  clear call s := lift s.1 (inner.clear call s.2)
  size call s := lift s.1 (inner.size call s.2)
  release call key s := (s.1, inner.release call key s.2)
  stats s := inner.stats s.2
  unlocked s := inner.unlocked s.2

/-- An operation that is no lookup begins when every lock on its way is free. -/
def gated {ρ : Type} (cache : Cache σ) (operation : Call → σ → ρ × σ) (call : Call) (s : σ) :
    Action σ ρ :=
  if cache.unlocked s then .ofResult (operation call s)
  else .waiting none cache.unlocked s fun now s => .ofResult (operation { call with now } s)

/-- Removes keys one after another, up to the first failure. -/
def removeAll (inner : Cache σ) (call : Call) : List String → σ → Except CacheError Unit × σ
  | [], s => (.ok (), s)
  | key :: keys, s =>
    match inner.remove call key s with
    | (.ok _, s) => removeAll inner call.next keys s
    | (.error e, s) => (.error e, s)

end Cache

end LayeredCache
