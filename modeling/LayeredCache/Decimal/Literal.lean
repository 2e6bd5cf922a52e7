import LayeredCache.Decimal.Integer
import LayeredCache.Decimal.Shortest

/-!
# Floating-point literals

Reading a floating-point number from a text: a sign, then digits with an optional point and an
optional exponent, or a name of infinity or not-a-number.
-/

namespace LayeredCache.Decimal

/-- What keeps a text from being a floating-point literal. -/
inductive LiteralFault where
  | empty
  | invalid
  deriving DecidableEq, Repr

def LiteralFault.message : LiteralFault → String
  | .empty => "cannot parse float from empty string"
  | .invalid => "invalid float literal"

def digitsValue (cs : List Char) : Nat :=
  cs.foldl (fun n c => 10 * n + digitValue c) 0

def splitSign : List Char → Bool × List Char
  | '-' :: cs => (true, cs)
  | '+' :: cs => (false, cs)
  | cs => (false, cs)

/-- The exponent part, all that is left of a literal. -/
def readExponent : List Char → Option Int
  | [] => some 0
  | c :: cs =>
    let (negative, ds) := splitSign cs
    if c.toLower = 'e' ∧ ds ≠ [] ∧ ds.all Char.isDigit then
      some (if negative then -(digitsValue ds : Int) else digitsValue ds)
    else none

/-- A decimal number without sign: digits on at least one side of an optional point. -/
def readUnsignedDecimal (cs : List Char) : Option Decimal :=
  let whole := cs.takeWhile Char.isDigit
  let (fraction, rest) :=
    match cs.dropWhile Char.isDigit with
    | '.' :: rest => (rest.takeWhile Char.isDigit, rest.dropWhile Char.isDigit)
    | rest => ([], rest)
  if whole = [] ∧ fraction = [] then none
  else (readExponent rest).map fun e => ⟨digitsValue (whole ++ fraction), e - fraction.length⟩

/-- Reads a literal as the nearest value of a format. -/
def readLiteral (f : BinaryFormat) (cs : List Char) : Except LiteralFault Binary :=
  if cs = [] then .error .empty
  else
    let (negative, rest) := splitSign cs
    let name := String.ofList (rest.map Char.toLower)
    if name = "nan" then .ok .nan
    else if name = "inf" ∨ name = "infinity" then .ok (.infinite negative)
    else
      match readUnsignedDecimal rest with
      | some d => .ok (d.toBinary f negative)
      | none => .error .invalid

end LayeredCache.Decimal
