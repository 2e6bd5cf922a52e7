/-!
# Binary floating point, exactly

The values of a binary interchange format as sign, significand and power of two, the rounding of a
ratio of natural numbers to the nearest of them, and the product and quotient of two of them. Everything
is computed on natural numbers and rounded once, so the results can be reasoned about.
-/

namespace LayeredCache.Decimal

/-- `n * base ^ e`; a negative exponent changes nothing. -/
def scaled (base : Nat) (e : Int) (n : Nat) : Nat :=
  n * Nat.pow base e.toNat

/-- A binary interchange format: the bits of its significand and of its exponent field. -/
structure BinaryFormat where
  precision : Nat
  exponentBits : Nat
  deriving DecidableEq

namespace BinaryFormat

def single : BinaryFormat := ⟨24, 8⟩

def double : BinaryFormat := ⟨53, 11⟩

/-- How many values the exponent field has. -/
def exponents (f : BinaryFormat) : Nat :=
  Nat.pow 2 f.exponentBits

/-- What the exponent field of 1 holds. -/
def bias (f : BinaryFormat) : Nat :=
  Nat.pow 2 (f.exponentBits - 1) - 1

/-- The least number with too many bits for a significand. -/
def significandBound (f : BinaryFormat) : Nat :=
  Nat.pow 2 f.precision

/-- The least number with all the bits of a significand. -/
def leadingBit (f : BinaryFormat) : Nat :=
  Nat.pow 2 (f.precision - 1)

/-- The power of two that the lowest bit of the smallest values stands for. -/
def minExponent (f : BinaryFormat) : Int :=
  2 - f.bias - f.precision

/-- The power of two that the lowest bit of the largest values stands for. -/
def maxExponent (f : BinaryFormat) : Int :=
  f.bias + 1 - f.precision

end BinaryFormat

/-- A value of a binary format; a finite one is `significand * 2 ^ exponent` with its sign. -/
inductive Binary where
  | nan
  | infinite (negative : Bool)
  | finite (negative : Bool) (significand : Nat) (exponent : Int)
  deriving DecidableEq, Repr

namespace Binary

def zero (f : BinaryFormat) (negative : Bool) : Binary :=
  .finite negative 0 f.minExponent

/-- The one form in which a format holds each of its values: the lowest exponent that fits. -/
def Canonical (f : BinaryFormat) : Binary → Prop
  | .nan => True
  | .infinite _ => True
  | .finite _ m e =>
    m < f.significandBound ∧ f.minExponent ≤ e ∧ e ≤ f.maxExponent ∧ (f.leadingBit ≤ m ∨ e = f.minExponent)

/-- `m * 2 ^ e` as numerator and denominator. -/
def ratio (m : Nat) (e : Int) : Nat × Nat :=
  (scaled 2 e m, scaled 2 (-e) 1)

/-- `num / den / 2 ^ e` rounded to a whole number, a half going to the even neighbour. -/
def roundScaled (num den : Nat) (e : Int) : Nat :=
  let n := scaled 2 (-e) num
  let d := scaled 2 e den
  let q := n / d
  let r := n % d
  if 2 * r < d ∨ (2 * r = d ∧ q % 2 = 0) then q else q + 1

/-- The exponent at which a format holds the values next to `num / den`. -/
def exponentNear (f : BinaryFormat) (num den : Nat) : Int :=
  let e := max f.minExponent ((num.log2 : Int) - den.log2 - f.precision)
  if scaled 2 (-e) num < f.significandBound * scaled 2 e den then e else e + 1

/-- The value of a format nearest to `num / den`, with the given sign; a tie goes to the even
significand, and what lies above all values becomes infinite. -/
def round (f : BinaryFormat) (negative : Bool) (num den : Nat) : Binary :=
  if num = 0 then zero f negative
  else
    let e := exponentNear f num den
    let m := roundScaled num den e
    let (m, e) := if m = f.significandBound then (f.leadingBit, e + 1) else (m, e)
    if f.maxExponent < e then .infinite negative else .finite negative m e

def ofNat (f : BinaryFormat) (n : Nat) : Binary :=
  round f false n 1

def isZero : Binary → Bool
  | .finite _ m _ => m == 0
  | _ => false

/-- The exact product of two finite values, rounded. -/
def times (f : BinaryFormat) : Binary → Binary → Binary
  | .finite s m e, .finite t n k =>
    let (p, q) := ratio m e
    let (u, v) := ratio n k
    round f (s != t) (p * u) (q * v)
  | _, _ => .nan

/-- The exact quotient of two finite values, rounded; the second one is not zero. -/
def dividedBy (f : BinaryFormat) : Binary → Binary → Binary
  | .finite s m e, .finite t n k =>
    let (p, q) := ratio m e
    let (u, v) := ratio n k
    round f (s != t) (p * v) (q * u)
  | _, _ => .nan

/-- The quotient of two natural numbers, each brought to the format first. -/
def quotient (f : BinaryFormat) (a b : Nat) : Binary :=
  (ofNat f a).dividedBy f (ofNat f b)

/-- The interchange encoding as a number; not-a-number has many and gets none. -/
def bits? (f : BinaryFormat) : Binary → Option Nat
  | .nan => none
  | .infinite negative => some (sign negative + (f.exponents - 1) * f.leadingBit)
  | .finite negative m e =>
    if m < f.leadingBit then some (sign negative + m)
    -- the leading bit is not stored
    else some (sign negative + (e - f.minExponent + 1).toNat * f.leadingBit + (m - f.leadingBit))
where
  sign (negative : Bool) : Nat :=
    if negative then f.exponents * f.leadingBit else 0

end Binary

end LayeredCache.Decimal
