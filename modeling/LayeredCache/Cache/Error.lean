/-!
# Errors

Why a cache cannot be assembled, or why an operation on it fails. Each cause has one message.
-/

namespace LayeredCache

/-- The cause of a failure; `id` is the id of the cache. -/
inductive CacheError where
  /-- The type cannot be made from an id alone. -/
  | invalidStorage (id typeName : String)
  /-- The type cannot be made from an inner cache alone. -/
  | invalidDecorator (id typeName : String)
  /-- The decorator belongs to the standard stages only. -/
  | standardOnly (id typeName : String)
  /-- No text can be read as a property of this kind. -/
  | unsupportedProperty (id property kind : String)
  /-- A property does not take this value. -/
  | invalidProperty (property kind value reason : String)
  /-- A layer could not start after its properties were set. -/
  | startFailed (id typeName source : String)
  /-- A layer could not be made. -/
  | instantiationFailed (id typeName source : String)
  /-- A stored value is not the text of a value. -/
  | serialization (id reason : String)
  /-- A key stayed held by another thread. -/
  | lockTimeout (id key : String) (timeoutMs : Nat)
  | notFound (key : String)
  | invalidRequest (reason : String)
  | internal (reason : String)
  deriving DecidableEq, Repr

namespace CacheError

def message : CacheError → String
  | .invalidStorage id typeName =>
    s!"Invalid base cache implementation ({typeName}) for cache '{id}'. " ++
      "Base cache implementations must be constructible from a single id"
  | .invalidDecorator id typeName =>
    s!"Invalid cache decorator ({typeName}) for cache '{id}'. " ++
      "Cache decorators must be constructible from a single inner cache"
  | .standardOnly id typeName =>
    s!"Cache decorator ({typeName}) for cache '{id}' cannot be applied as a custom decorator; " ++
      "enable it through the cache options instead"
  | .unsupportedProperty id property kind =>
    s!"Unsupported property type for cache '{id}': '{property}' of type {kind}"
  | .invalidProperty property kind value reason =>
    s!"Invalid value '{value}' for property '{property}' of type {kind}: {reason}"
  | .startFailed id typeName _ => s!"Failed cache initialization for '{id}' on '{typeName}'"
  | .instantiationFailed id typeName _ =>
    s!"Could not instantiate cache type ({typeName}) for cache '{id}'"
  | .serialization id reason => s!"Serialization error in cache '{id}': {reason}"
  | .lockTimeout id key timeoutMs =>
    s!"Couldn't get a lock in {timeoutMs}ms for key '{key}' in cache '{id}'"
  | .notFound key => s!"Key not found: {key}"
  | .invalidRequest reason => s!"Invalid request: {reason}"
  | .internal reason => s!"Internal error: {reason}"

/-- The message of the failure that led to this one. -/
def source? : CacheError → Option String
  | .startFailed _ _ source => some source
  | .instantiationFailed _ _ source => some source
  | _ => none

/-- The failure arises while a cache is assembled. -/
def isBuildError : CacheError → Bool
  | .invalidStorage .. => true
  | .invalidDecorator .. => true
  | .standardOnly .. => true
  | .unsupportedProperty .. => true
  | .invalidProperty .. => true
  | .startFailed .. => true
  | .instantiationFailed .. => true
  | _ => false

end CacheError

end LayeredCache
