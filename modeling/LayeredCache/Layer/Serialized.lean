import LayeredCache.Cache.Operations
import LayeredCache.Json.Printer
import LayeredCache.Json.Reader

/-!
# Serialization

The inner cache holds the JSON text of each value, so every lookup makes a value of its own.
-/

namespace LayeredCache

/-- Serialization keeps no state. -/
structure Serialized where
  deriving DecidableEq, Repr

namespace Serialized

def encode (value : Json) : Json :=
  .string value.print

/-- The value that is stored in the cache `id`; only text that is JSON stands for one. -/
def decode (id : String) : Json → Except CacheError Json
  | .string text =>
    match Json.read text with
    | .ok value => .ok value
    | .error reason => .error (.serialization id reason)
  | stored =>
    .error (.serialization id s!"stored value is not serialized text: {stored.print}")

/-- The outcome of a lookup or removal in terms of values. -/
def decodeFound (id : String) : Found → Found
  | .ok (some stored) => (decode id stored).map some
  | outcome => outcome

section

variable {value read : Json} {reason : String}

theorem decodeFound_of_read (id : String) (h : Json.read value.print = .ok read) :
    decodeFound id (.ok (some (encode value))) = .ok (some read) := by
  rw [decodeFound, encode, decode, h]
  rfl

theorem decodeFound_of_error (id : String) (h : Json.read value.print = .error reason) :
    decodeFound id (.ok (some (encode value))) = .error (.serialization id reason) := by
  rw [decodeFound, encode, decode, h]
  rfl

end

variable {σ : Type}

def around (inner : Cache σ) : Cache (Serialized × σ) :=
  { Cache.forward Serialized inner with
    put := fun call key value s => Cache.lift s.1 (inner.put call key (encode value) s.2)
    get := fun call key s =>
      (inner.get call key s.2).outward
        (fun outcome own => (decodeFound (inner.id s.2) outcome, own)) s.1
    remove := fun call key s =>
      let (outcome, rest) := inner.remove call key s.2
      (decodeFound (inner.id rest) outcome, s.1, rest) }

end Serialized

end LayeredCache
