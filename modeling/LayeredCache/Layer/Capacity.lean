import LayeredCache.Cache.Property

/-!
# Capacity

How many keys a layer that evicts may keep: a positive number, the attribute "size" of the layer.
-/

namespace LayeredCache

/-- A positive number of keys. -/
structure Capacity where
  count : Nat
  positive : 0 < count
  deriving DecidableEq

namespace Capacity

/-- The capacity of a layer that is given none. -/
def standard : Capacity := ⟨1024, by decide⟩

/-- Only a positive number is a capacity. -/
def ofInt (n : Int) : Except CacheError Capacity :=
  if h : 0 < n.toNat then .ok ⟨n.toNat, h⟩ else .error (.invalidCapacity n)

/-- The capacity that a value of the attribute stands for: it must be of the kind `int`. -/
def ofValue : PropertyValue → Except CacheError Capacity
  | .int n => ofInt n
  | value => .error (.mismatch "size" .int value)

end Capacity

end LayeredCache
