import LayeredCache.Decimal.Shortest

/-!
# Writing numbers

How a value of a binary format is written: its shortest digits, positionally or with an exponent, as
a style decides.
-/

namespace LayeredCache.Decimal

/-- The choices of a style: the positions of the decimal point that are written positionally, whether a
positive exponent has a sign, and which of two equally near numbers is written. -/
structure Style where
  lowest : Int
  highest : Int
  plus : Bool
  tie : Tie

/-- The exponent of a decimal number with one digit before the point. -/
def writeExponent (style : Style) (k : Int) : List Char :=
  'e' :: (if k < 0 then ['-'] else if style.plus then ['+'] else []) ++ Nat.toDigits 10 k.natAbs

/-- Writes a positive decimal number. -/
def write (style : Style) (d : Decimal) : List Char :=
  let ds := d.digits
  let k := d.point
  if style.lowest ≤ k ∧ k ≤ style.highest then
    if k ≤ 0 then '0' :: '.' :: List.replicate (-k).toNat '0' ++ ds
    else if ds.length ≤ k.toNat then ds ++ List.replicate (k.toNat - ds.length) '0' ++ ['.', '0']
    else ds.take k.toNat ++ '.' :: ds.drop k.toNat
  else
    let fraction := ds.drop 1
    ds.take 1 ++ (if fraction.isEmpty then [] else '.' :: fraction) ++ writeExponent style (k - 1)

def writeBinary (f : BinaryFormat) (style : Style) : Binary → List Char
  | .nan => ['N', 'a', 'N']
  | .infinite negative => sign negative ++ ['i', 'n', 'f']
  | .finite negative m e =>
    sign negative ++ (if m = 0 then ['0', '.', '0'] else write style (shortest f style.tie m e))
where
  sign (negative : Bool) : List Char :=
    if negative then ['-'] else []

end LayeredCache.Decimal
