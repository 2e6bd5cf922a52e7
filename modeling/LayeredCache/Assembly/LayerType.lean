import LayeredCache.Layer.Model

/-!
# References to layer types

A specification names the types of its layers. A reference says which type it means and which ways to make a
layer of it the reference carries; two references are equal if they mean the same type.
-/

namespace LayeredCache

/-- A type that can be referred to: a layer, or any other type by its full name. A type of an application can be
a storage and a decorator at once; it has one name then. -/
inductive TypeIdentity (E : Extension) where
  | storage (kind : StorageKind E)
  | decorator (kind : DecoratorKind E)
  | both (storage : E.Storage) (decorator : E.Decorator)
    (named : (E.storage storage).name = (E.decorator decorator).name)
  | foreign (name : String)
  deriving DecidableEq

/-- A reference to a type. It makes storages or decorators of the type only if it carries the way to. -/
structure LayerType (E : Extension) where
  identity : TypeIdentity E
  makesStorage : Bool
  makesDecorator : Bool

variable {E : Extension}

namespace TypeIdentity

def name : TypeIdentity E → String
  | .storage kind => kind.model.name
  | .decorator kind => kind.model.name
  | .both kind _ _ => (E.storage kind).name
  | .foreign name => name

def storage? : TypeIdentity E → Option (StorageKind E)
  | .storage kind => some kind
  | .both kind _ _ => some (.added kind)
  | _ => none

def decorator? : TypeIdentity E → Option (DecoratorKind E)
  | .decorator kind => some kind
  | .both _ kind _ => some (.added kind)
  | _ => none

end TypeIdentity

namespace LayerType

/-- A reference to a storage that can be made from an id. -/
def storage (kind : StorageKind E) : LayerType E := ⟨.storage kind, true, false⟩

/-- A reference to a decorator that can be made around a cache. -/
def decorator (kind : DecoratorKind E) : LayerType E := ⟨.decorator kind, false, true⟩

/-- A reference to a type without a way to make anything. -/
def bare (identity : TypeIdentity E) : LayerType E := ⟨identity, false, false⟩

/-- Only the types count. -/
instance : BEq (LayerType E) :=
  ⟨fun a b => a.identity == b.identity⟩

def name (t : LayerType E) : String := t.identity.name

/-- The kind of storage that the reference can make. -/
def storage? (t : LayerType E) : Option (StorageKind E) :=
  if t.makesStorage then t.identity.storage? else none

/-- The kind of decorator that the reference can make. -/
def decorator? (t : LayerType E) : Option (DecoratorKind E) :=
  if t.makesDecorator then t.identity.decorator? else none

def isPerpetual (t : LayerType E) : Bool :=
  t.identity == .storage .perpetual

def isBlocking (t : LayerType E) : Bool :=
  t.identity == .decorator .blocking

/-- The type that a short name stands for; the case of ASCII letters does not count. -/
def ofAlias? (shortName : String) : Option (LayerType E) :=
  match String.ofList (shortName.toList.map Char.toUpper) with
  | "PERPETUAL" => some (storage .perpetual)
  | "LRU" => some (decorator .lru)
  | "FIFO" => some (decorator .fifo)
  | "SCHEDULED" => some (decorator .scheduled)
  | "SERIALIZED" => some (decorator .serialized)
  | "LOGGING" => some (decorator .logging)
  | "SYNCHRONIZED" => some (decorator .synchronized)
  | "BLOCKING" => some (decorator .blocking)
  | _ => none

end LayerType

end LayeredCache
