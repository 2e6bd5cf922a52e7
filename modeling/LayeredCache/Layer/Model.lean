import LayeredCache.Cache.Operations
import LayeredCache.Cache.Property
import LayeredCache.Layer.Blocking
import LayeredCache.Layer.Fifo
import LayeredCache.Layer.Logging
import LayeredCache.Layer.Lru
import LayeredCache.Layer.Perpetual
import LayeredCache.Layer.Scheduled
import LayeredCache.Layer.Serialized
import LayeredCache.Layer.Synchronized

/-!
# Kinds of layers

A cache is a storage under decorators. Each kind of layer comes with its state, its operations, its
attributes and a way to make it. The built-in kinds are fixed, and an application adds its own.
-/

namespace LayeredCache

/-- A kind of storage: it is made from the id of its cache. -/
structure StorageModel where
  /-- The full name of the type. -/
  name : String
  State : Type
  cache : Cache State
  attributes : Attributes State
  make : String → Except String State

/-- A kind of decorator: it is made around any inner cache, at an instant. Its operations are free to use the inner
cache as they like. But it is made, given its attributes and started without a look at what it decorates, and both
its name and what it decorates stay visible in the list of the layers. -/
structure DecoratorModel where
  /-- The full name of the type. -/
  name : String
  State : Type
  around : {σ : Type} → Cache σ → Cache (State × σ)
  attributes : Attributes State
  make : Nat → Except String State

/-- The kinds of layers that an application adds to the built-in ones. -/
structure Extension where
  Storage : Type
  Decorator : Type
  storage : Storage → StorageModel
  decorator : Decorator → DecoratorModel
  [storageEq : DecidableEq Storage]
  [decoratorEq : DecidableEq Decorator]

instance (E : Extension) : DecidableEq E.Storage := E.storageEq

instance (E : Extension) : DecidableEq E.Decorator := E.decoratorEq

/-- No other kinds than the built-in ones. -/
def Extension.nothing : Extension where
  Storage := Empty
  Decorator := Empty
  storage := nofun
  decorator := nofun

inductive StorageKind (E : Extension) where
  | perpetual
  | added (kind : E.Storage)
  deriving DecidableEq

inductive DecoratorKind (E : Extension) where
  | lru
  | fifo
  | scheduled
  | serialized
  | logging
  | synchronized
  | blocking
  | added (kind : E.Decorator)
  deriving DecidableEq

variable {E : Extension}

def StorageKind.model : StorageKind E → StorageModel
  | .perpetual =>
    { name := "cache_assembler::cache::perpetual::PerpetualCache"
      State := Perpetual
      cache := Perpetual.cache
      attributes := .none
      make := Perpetual.make }
  | .added kind => E.storage kind

def DecoratorKind.model : DecoratorKind E → DecoratorModel
  | .lru =>
    { name := "cache_assembler::cache::decorators::lru::LruCache"
      State := Lru
      around := Lru.around
      attributes := Lru.attributes
      make := fun _ => .ok .empty }
  | .fifo =>
    { name := "cache_assembler::cache::decorators::fifo::FifoCache"
      State := Fifo
      around := Fifo.around
      attributes := Fifo.attributes
      make := fun _ => .ok .empty }
  | .scheduled =>
    { name := "cache_assembler::cache::decorators::scheduled::ScheduledCache"
      State := Scheduled
      around := Scheduled.around
      attributes := Scheduled.attributes
      make := fun now => .ok (.since now) }
  | .serialized =>
    { name := "cache_assembler::cache::decorators::serialized::SerializedCache"
      State := Serialized
      around := Serialized.around
      attributes := .none
      make := fun _ => .ok {} }
  | .logging =>
    { name := "cache_assembler::cache::decorators::logging::LoggingCache"
      State := Logging
      around := Logging.around
      attributes := .none
      make := fun _ => .ok .empty }
  | .synchronized =>
    { name := "cache_assembler::cache::decorators::synchronized::SynchronizedCache"
      State := Synchronized
      around := Synchronized.around
      attributes := .none
      make := fun _ => .ok .free }
  | .blocking =>
    { name := "cache_assembler::cache::decorators::blocking::BlockingCache"
      State := Blocking
      around := Blocking.around
      attributes := Blocking.attributes
      make := fun _ => .ok (.empty none) }
  | .added kind => E.decorator kind

end LayeredCache
