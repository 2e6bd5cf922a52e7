import LayeredCache.Cache.Error
import LayeredCache.Decimal.Literal
import LayeredCache.Decimal.Written
import LayeredCache.Text.Blank
import LayeredCache.Text.Quoted

/-!
# Properties

Layers expose named attributes of a few kinds. A property comes as text and is read as a value of the
kind that its attribute has.
-/

namespace LayeredCache

/-- The kind of an attribute. Attributes of other types cannot be read from text. -/
inductive PropertyKind where
  | text
  | int
  | long
  | short
  | byte
  | float
  | double
  | bool
  | other (typeName : String)
  deriving DecidableEq, Repr

def PropertyKind.name : PropertyKind → String
  | .text => "string"
  | .int => "i32"
  | .long => "i64"
  | .short => "i16"
  | .byte => "i8"
  | .float => "f32"
  | .double => "f64"
  | .bool => "bool"
  | .other typeName => typeName

inductive PropertyValue where
  | text (value : String)
  | int (value : Int)
  | long (value : Int)
  | short (value : Int)
  | byte (value : Int)
  | float (value : Decimal.Binary)
  | double (value : Decimal.Binary)
  | bool (value : Bool)
  deriving DecidableEq, Repr

namespace PropertyValue

def kind : PropertyValue → PropertyKind
  | .text _ => .text
  | .int _ => .int
  | .long _ => .long
  | .short _ => .short
  | .byte _ => .byte
  | .float _ => .float
  | .double _ => .double
  | .bool _ => .bool

/-- The number, if the value is one of the integer kinds. -/
def integer? : PropertyValue → Option Int
  | .int n => some n
  | .long n => some n
  | .short n => some n
  | .byte n => some n
  | _ => none

/-- Numbers in messages have an exponent from `1e16` up and below `1e-4`. A value halfway between two
numbers is written as the one further from zero. -/
def numberStyle : Decimal.Style :=
  ⟨-3, 16, false, .up⟩

/-- The value as it is shown in a message. -/
def describe : PropertyValue → String
  | .text s => s!"Str({Text.quoted s})"
  | .int n => s!"Int({n})"
  | .long n => s!"Long({n})"
  | .short n => s!"Short({n})"
  | .byte n => s!"Byte({n})"
  | .float x => s!"Float({String.ofList (Decimal.writeBinary .single numberStyle x)})"
  | .double x => s!"Double({String.ofList (Decimal.writeBinary .double numberStyle x)})"
  | .bool b => s!"Bool({b})"

end PropertyValue

/-- Reads an integer of `bits` bits; the text is not trimmed. -/
def readInteger (property : String) (kind : PropertyKind) (bits : Nat)
    (make : Int → PropertyValue) (raw : String) : Except CacheError PropertyValue :=
  match Decimal.readSigned bits raw.toList with
  | .ok n => .ok (make n)
  | .error fault => .error (.invalidProperty property kind.name raw fault.message)

/-- Reads a floating-point number; blanks around it do not count. -/
def readFloat (property : String) (kind : PropertyKind) (f : Decimal.BinaryFormat)
    (make : Decimal.Binary → PropertyValue) (raw : String) : Except CacheError PropertyValue :=
  match Decimal.readLiteral f (Text.trim raw.toList) with
  | .ok x => .ok (make x)
  | .error fault => .error (.invalidProperty property kind.name raw fault.message)

/-- Reads the text of a property of the cache `id` as a value of the kind. A truth value is true exactly
for the word "true", whatever its case. -/
def PropertyKind.coerce (kind : PropertyKind) (id property raw : String) :
    Except CacheError PropertyValue :=
  match kind with
  | .text => .ok (.text raw)
  | .int => readInteger property kind 32 .int raw
  | .long => readInteger property kind 64 .long raw
  | .short => readInteger property kind 16 .short raw
  | .byte => readInteger property kind 8 .byte raw
  | .float => readFloat property kind .single .float raw
  | .double => readFloat property kind .double .double raw
  | .bool => .ok (.bool (Text.equalIgnoringCase raw "true"))
  | .other typeName => .error (.unsupportedProperty id property typeName)

namespace CacheError

def mismatch (property : String) (expected : PropertyKind) (value : PropertyValue) : CacheError :=
  .invalidProperty property expected.name value.describe
    s!"expected {expected.name}, got {value.kind.name}"

def invalidCapacity (n : Int) : CacheError :=
  .invalidProperty "size" PropertyKind.int.name (toString n) "size must be positive"

end CacheError

/-- How a layer with state `τ` exposes attributes: whether it does at all, the kind of each, how a value
is assigned, and what happens once all are. A failed step keeps the state it leads to. -/
structure Attributes (τ : Type) where
  configurable : τ → Bool
  kind? : τ → String → Option PropertyKind
  assign : String → PropertyValue → τ → Except CacheError Unit × τ
  start : τ → Except String Unit × τ

namespace Attributes

def none {τ : Type} : Attributes τ where
  configurable _ := false
  kind? _ _ := Option.none
  assign _ _ state := (.ok (), state)
  start state := (.ok (), state)

/-- A layer with a single attribute and nothing to start. Other names are ignored. -/
def single {τ : Type} (name : String) (kind : PropertyKind)
    (assign : PropertyValue → τ → Except CacheError τ) : Attributes τ where
  configurable _ := true
  kind? _ other := if other = name then some kind else Option.none
  assign other value state :=
    if other = name then
      match assign value state with
      | .ok state => (.ok (), state)
      | .error e => (.error e, state)
    else (.ok (), state)
  start state := (.ok (), state)

end Attributes

end LayeredCache
