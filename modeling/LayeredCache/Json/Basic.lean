import LayeredCache.Decimal.Binary
import LayeredCache.Fields

/-!
# JSON values

The values that a cache holds. A number is an integer or a binary floating-point value, and the two
are never the same value. A value is well formed if its integers fit 64 bits, its floating-point
numbers are finite and its objects list their names in ascending order.
-/

namespace LayeredCache

inductive Json where
  | null
  | bool (value : Bool)
  | integer (value : Int)
  | float (value : Decimal.Binary)
  | string (text : String)
  | array (items : List Json)
  | object (fields : List (String × Json))
  deriving Inhabited

namespace Json

/-- The integers that are kept as integers: those of a signed or an unsigned 64-bit word. -/
def integerFits (n : Int) : Bool :=
  -9223372036854775808 ≤ n && n < 18446744073709551616

/-- The object with the given fields, in ascending order of names. -/
def ofFields (fields : List (String × Json)) : Json :=
  .object (Fields.ofList fields)

mutual
/-- How deep arrays and objects are nested. -/
def depth : Json → Nat
  | .array items => depthItems items + 1
  | .object fields => depthFields fields + 1
  | _ => 0
def depthItems : List Json → Nat
  | [] => 0
  | v :: vs => max (depth v) (depthItems vs)
def depthFields : List (String × Json) → Nat
  | [] => 0
  | (_, v) :: fields => max (depth v) (depthFields fields)
end

mutual
/-- The values that a reader can give: see the module's text. -/
def WellFormed : Json → Prop
  | .integer n => integerFits n
  | .float (.finite negative m e) => Decimal.Binary.Canonical .double (.finite negative m e)
  | .float _ => False
  | .array items => WellFormedItems items
  | .object fields => Fields.Ascending fields ∧ WellFormedFields fields
  | _ => True
def WellFormedItems : List Json → Prop
  | [] => True
  | v :: vs => WellFormed v ∧ WellFormedItems vs
def WellFormedFields : List (String × Json) → Prop
  | [] => True
  | (_, v) :: fields => WellFormed v ∧ WellFormedFields fields
end

/-- A value inside `n` arrays of one element. -/
def nested : Nat → Json → Json
  | 0, v => v
  | n + 1, v => .array [nested n v]

def field? (name : String) : Json → Option Json
  | .object fields => fields.lookup name
  | _ => none

end Json

end LayeredCache
