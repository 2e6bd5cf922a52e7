import LayeredCache.Assembly.Spec
import LayeredCache.Assembly.Stack

/-!
# Standard stages

What is put around the perpetual storage and its decorators, in a fixed order: the capacity for the
outermost decorator, scheduled clearing, serialization, logging, synchronization and blocking. Logging
counts what the layers beneath it find, synchronization keeps the counts from racing, and blocking admits
lookups to a cache that is synchronized already.
-/

namespace LayeredCache

inductive Stage where
  | size
  | scheduled
  | serialized
  | logging
  | synchronized
  | blocking
  deriving DecidableEq, Repr

namespace Stage

/-- The stages, from the inside out. -/
def all : List Stage :=
  [.size, .scheduled, .serialized, .logging, .synchronized, .blocking]

def name : Stage → String
  | .size => "size"
  | .scheduled => "scheduled"
  | .serialized => "serialized"
  | .logging => "logging"
  | .synchronized => "synchronized"
  | .blocking => "blocking"

variable {E : Extension}

def isEnabled (spec : Spec E) : Stage → Bool
  | .size => spec.size.isSome
  | .scheduled => spec.clearInterval.isSome
  | .serialized => spec.readWrite
  | .logging => true
  | .synchronized => true
  | .blocking => spec.blocking

/-- Gives the capacity to the outermost layer, if that has an attribute for it. -/
def bindSize (size : Int) (stack : Stack E) : Except CacheError (Stack E) :=
  if stack.configurable ∧ (stack.attributeKind? "size").isSome then
    match stack.assign "size" (.int size) with
    | (.ok (), stack) => .ok stack
    | (.error e, _) => .error e
  else .ok stack

/-- Applies an enabled stage to a stack at an instant. -/
def apply (spec : Spec E) (now : Nat) (stack : Stack E) : Stage → Except CacheError (Stack E)
  | .size =>
    match spec.size with
    | some n => bindSize n stack
    | none => .ok stack
  | .scheduled =>
    .ok (stack.wrap .scheduled ⟨spec.clearInterval.getD (Scheduled.since now).interval, now⟩)
  | .serialized => .ok (stack.wrap .serialized {})
  | .logging => .ok (stack.wrap .logging .empty)
  | .synchronized => .ok (stack.wrap .synchronized .free)
  | .blocking => .ok (stack.wrap .blocking (.empty spec.blockingTimeout))

/-- Applies those of some stages that are enabled, one after another. -/
def applyEnabled (spec : Spec E) (now : Nat) : List Stage → Stack E → Except CacheError (Stack E)
  | [], stack => .ok stack
  | stage :: stages, stack =>
    if stage.isEnabled spec then
      match stage.apply spec now stack with
      | .error e => .error e
      | .ok stack => applyEnabled spec now stages stack
    else applyEnabled spec now stages stack

end Stage

end LayeredCache
