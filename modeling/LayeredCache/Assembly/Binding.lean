import LayeredCache.Assembly.Properties
import LayeredCache.Cache.Property

/-!
# Binding of properties

The properties that a layer exposes are read as values of their kinds and assigned in ascending order of
names. Then the layer starts. The first failure ends the binding, and the state tells how far it came.
-/

namespace LayeredCache

namespace Attributes

variable {τ : Type}

/-- Assigns the properties that the layer of the cache `id` exposes. -/
def bindAll (attributes : Attributes τ) (id : String) :
    List (String × String) → τ → Except CacheError Unit × τ
  | [], state => (.ok (), state)
  | (name, raw) :: rest, state =>
    match attributes.kind? state name with
    | Option.none => attributes.bindAll id rest state
    | some kind =>
      match kind.coerce id name raw with
      | .error e => (.error e, state)
      | .ok value =>
        match attributes.assign name value state with
        | (.error e, state) => (.error e, state)
        | (.ok (), state) => attributes.bindAll id rest state

/-- Assigns properties to a layer of the given type and starts it. -/
def bind (attributes : Attributes τ) (id typeName : String) (properties : Properties) (state : τ) :
    Except CacheError Unit × τ :=
  match
    if attributes.configurable state then attributes.bindAll id properties.entries state
    else (.ok (), state) with
  | (.error e, state) => (.error e, state)
  | (.ok (), state) =>
    match attributes.start state with
    | (.ok (), state) => (.ok (), state)
    | (.error source, state) => (.error (.startFailed id typeName source), state)

end Attributes

end LayeredCache
