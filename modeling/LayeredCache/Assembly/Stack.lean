import LayeredCache.Layer.Model

/-!
# Stacks of layers

A storage under any number of decorators, outermost first. The kinds of the layers fix the type of the
state, so no operation can change them.
-/

namespace LayeredCache

variable {E : Extension}

/-- The state of a storage under decorators of the given kinds. -/
def Chain (storage : StorageKind E) : List (DecoratorKind E) → Type
  | [] => storage.model.State
  | d :: ds => d.model.State × Chain storage ds

namespace Chain

variable (storage : StorageKind E)

/-- The operations of a chain: every decorator's over those of what is beneath it. -/
def cache : (ds : List (DecoratorKind E)) → Cache (Chain storage ds)
  | [] => storage.model.cache
  | d :: ds => d.model.around (cache ds)

/-- The operations of the part of a chain that begins `n` layers further in; the layers around it are
passed by. -/
def cacheWithin? : Nat → (ds : List (DecoratorKind E)) → Option (Cache (Chain storage ds))
  | 0, ds => some (cache storage ds)
  | _ + 1, [] => none
  | n + 1, d :: ds => (cacheWithin? n ds).map (Cache.forward d.model.State)

end Chain

/-- A storage under decorators, outermost first, and the state of them all. -/
structure Stack (E : Extension) where
  storage : StorageKind E
  decorators : List (DecoratorKind E)
  state : Chain storage decorators

namespace Stack

def base (storage : StorageKind E) (state : storage.model.State) : Stack E :=
  ⟨storage, [], state⟩

def wrap (stack : Stack E) (d : DecoratorKind E) (own : d.model.State) : Stack E :=
  ⟨stack.storage, d :: stack.decorators, (own, stack.state)⟩

def cache (stack : Stack E) : Cache (Chain stack.storage stack.decorators) :=
  Chain.cache stack.storage stack.decorators

/-- The type names of the layers, innermost first. -/
def layers (stack : Stack E) : List String :=
  stack.storage.model.name :: (stack.decorators.map fun d => d.model.name).reverse

def id (stack : Stack E) : String :=
  stack.cache.id stack.state

def stats (stack : Stack E) : Option Stats :=
  stack.cache.stats stack.state

/-- The type name of the outermost layer. -/
def kind (stack : Stack E) : String :=
  match stack.decorators with
  | [] => stack.storage.model.name
  | d :: _ => d.model.name

/-- The kind of an attribute of the outermost layer. -/
def attributeKind? : Stack E → String → Option PropertyKind
  | ⟨storage, [], state⟩, name => storage.model.attributes.kind? state name
  | ⟨_, d :: _, state⟩, name => d.model.attributes.kind? state.1 name

/-- Assigns an attribute of the outermost layer. -/
def assign (name : String) (value : PropertyValue) : Stack E → Except CacheError Unit × Stack E
  | ⟨storage, [], state⟩ =>
    let (outcome, state) := storage.model.attributes.assign name value state
    (outcome, ⟨storage, [], state⟩)
  | ⟨storage, d :: ds, state⟩ =>
    let (outcome, own) := d.model.attributes.assign name value state.1
    (outcome, ⟨storage, d :: ds, (own, state.2)⟩)

/-- The outermost layer exposes attributes. -/
def configurable : Stack E → Bool
  | ⟨storage, [], state⟩ => storage.model.attributes.configurable state
  | ⟨_, d :: _, state⟩ => d.model.attributes.configurable state.1

end Stack

end LayeredCache
