/-!
# Decimal integers of a fixed width

Reading a decimal integer that has to fit a machine word. The scan goes from left to right and stops
at the first thing wrong, so a text with two faults has one answer.
-/

namespace LayeredCache.Decimal

/-- What keeps a text from being an integer of its width. -/
inductive IntegerFault where
  | empty
  | invalidDigit
  | tooLarge
  | tooSmall
  deriving DecidableEq, Repr

def IntegerFault.message : IntegerFault → String
  | .empty => "cannot parse integer from empty string"
  | .invalidDigit => "invalid digit found in string"
  | .tooLarge => "number too large to fit in target type"
  | .tooSmall => "number too small to fit in target type"

def digitValue (c : Char) : Nat :=
  c.toNat - '0'.toNat

/-- Scans digits after a prefix of value `acc`. A character that is no digit is noticed before the
value it would give, and a value above `limit` as soon as it is reached. -/
def scanMagnitude (limit : Nat) (overflow : IntegerFault) : Nat → List Char → Except IntegerFault Nat
  | acc, [] => .ok acc
  | acc, c :: cs =>
    if c.isDigit then
      let next := 10 * acc + digitValue c
      if next ≤ limit then scanMagnitude limit overflow next cs else .error overflow
    else .error .invalidDigit

/-- Reads a two's-complement integer of `bits` bits: one optional sign, then digits. -/
def readSigned (bits : Nat) : List Char → Except IntegerFault Int
  | [] => .error .empty
  | ['+'] => .error .invalidDigit
  | ['-'] => .error .invalidDigit
  | '-' :: cs => (scanMagnitude (Nat.pow 2 (bits - 1)) .tooSmall 0 cs).map fun n => -(n : Int)
  | '+' :: cs => (scanMagnitude (Nat.pow 2 (bits - 1) - 1) .tooLarge 0 cs).map Int.ofNat
  | cs => (scanMagnitude (Nat.pow 2 (bits - 1) - 1) .tooLarge 0 cs).map Int.ofNat

/-- Reads a natural number of `bits` bits: an optional plus sign, then digits. -/
def readUnsigned (bits : Nat) : List Char → Except IntegerFault Nat
  | [] => .error .empty
  | ['+'] => .error .invalidDigit
  | '+' :: cs => scanMagnitude (Nat.pow 2 bits - 1) .tooLarge 0 cs
  | cs => scanMagnitude (Nat.pow 2 bits - 1) .tooLarge 0 cs

end LayeredCache.Decimal
