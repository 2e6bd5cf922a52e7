import LayeredCache.Assembly.LayerType
import LayeredCache.Assembly.Properties

/-!
# Specifications

What a cache is to be: its storage, its decorators and the options of the standard stages.
-/

namespace LayeredCache

structure Spec (E : Extension) where
  id : String
  /-- The storage; without one it is the perpetual storage. -/
  implementation : Option (LayerType E)
  /-- Decorators around the storage, innermost first. -/
  decorators : List (LayerType E)
  /-- How many entries to keep. -/
  size : Option Int
  /-- Nanoseconds between scheduled clears. -/
  clearInterval : Option Nat
  /-- Every reader gets a value of its own. -/
  readWrite : Bool
  /-- One thread at a time looks a key up. -/
  blocking : Bool
  /-- Nanoseconds that a lookup waits for a held key. -/
  blockingTimeout : Option Nat
  /-- Properties for the attributes of storage and decorators. -/
  properties : Properties

namespace Spec

variable {E : Extension}

/-- A specification that leaves everything but the id to the defaults. -/
def new (id : String) : Spec E where
  id := id
  implementation := none
  decorators := []
  size := none
  clearInterval := none
  readWrite := false
  blocking := false
  blockingTimeout := none
  properties := .empty

/-- Two specifications are equal if their parts are; of types, only the identity counts. -/
instance : BEq (Spec E) where
  beq a b :=
    a.id == b.id && a.implementation == b.implementation && a.decorators == b.decorators &&
    a.size == b.size && a.clearInterval == b.clearInterval && a.readWrite == b.readWrite &&
    a.blocking == b.blocking && a.blockingTimeout == b.blockingTimeout &&
    a.properties == b.properties

def storage (spec : Spec E) : LayerType E :=
  spec.implementation.getD (.storage .perpetual)

/-- The decorators that are meant: one that evicts by use, if neither storage nor decorators are given. -/
def effectiveDecorators (spec : Spec E) : List (LayerType E) :=
  if spec.implementation.isNone ∧ spec.decorators.isEmpty then [.decorator .lru]
  else spec.decorators

/-- The kind of storage that a reference stands for in this specification. -/
def storageKind (spec : Spec E) (t : LayerType E) : Except CacheError (StorageKind E) :=
  match t.storage? with
  | some kind => .ok kind
  | none => .error (.invalidStorage spec.id t.name)

/-- The kind of decorator that a reference stands for. Blocking is left to its standard stage: beneath
synchronization, a lookup that waits would keep every other thread waiting. -/
def decoratorKind (spec : Spec E) (t : LayerType E) : Except CacheError (DecoratorKind E) :=
  if t.isBlocking then .error (.standardOnly spec.id t.name)
  else
    match t.decorator? with
    | some kind => .ok kind
    | none => .error (.invalidDecorator spec.id t.name)

def checkDecorators (spec : Spec E) : List (LayerType E) → Except CacheError Unit
  | [] => .ok ()
  | t :: ts =>
    match spec.decoratorKind t with
    | .error e => .error e
    | .ok _ => spec.checkDecorators ts

/-- Checks the types of a specification without making anything. Decorators only count around the
perpetual storage. -/
def validate (spec : Spec E) : Except CacheError Unit :=
  match spec.storageKind spec.storage with
  | .error e => .error e
  | .ok _ =>
    if spec.storage.isPerpetual then spec.checkDecorators spec.effectiveDecorators else .ok ()

end Spec

end LayeredCache
