import LayeredCache.Decimal.Binary

/-!
# Decimal numbers and binary values

A decimal number is read as the nearest value of a binary format, and a value is written as the
decimal number with the fewest digits that reads back as it, the nearest one if there are several.
-/

namespace LayeredCache

/-- The number `coefficient * 10 ^ exponent`. -/
structure Decimal where
  coefficient : Nat
  exponent : Int
  deriving DecidableEq, Repr

namespace Decimal

def digits (d : Decimal) : List Char :=
  Nat.toDigits 10 d.coefficient

/-- Where the decimal point stands: the number is `0.ddd * 10 ^ point` with the digits `ddd`. -/
def point (d : Decimal) : Int :=
  d.exponent + d.digits.length

/-- The value of a format nearest to a decimal number. A number outside `10 ^ (±2 ^ exponentBits)` is
far outside the format and is not expanded. -/
def toBinary (f : BinaryFormat) (negative : Bool) (d : Decimal) : Binary :=
  if d.coefficient = 0 ∨ d.point < -(f.exponents : Int) then .zero f negative
  else if (f.exponents : Int) < d.point then .infinite negative
  else .round f negative (scaled 10 d.exponent d.coefficient) (scaled 10 (-d.exponent) 1)

/-- `m * 2 ^ e` with all its digits. -/
def exact (m : Nat) (e : Int) : Decimal :=
  ⟨scaled 5 (-e) (scaled 2 e m), -((-e).toNat : Int)⟩

/-- Which of two decimal numbers is written for a value halfway between them. -/
inductive Tie where
  | toEven
  | up
  deriving DecidableEq

/-- The two neighbours of `num / den` among the multiples of `10 ^ e`, the nearer one first. -/
def neighbours (tie : Tie) (num den : Nat) (e : Int) : List Decimal :=
  let n := scaled 10 (-e) num
  let d := scaled 10 e den
  let q := n / d
  let r := n % d
  if 2 * r < d ∨ (2 * r = d ∧ tie = .toEven ∧ q % 2 = 0) then [⟨q, e⟩, ⟨q + 1, e⟩] else [⟨q + 1, e⟩, ⟨q, e⟩]

/-- The decimal number with the fewest digits that reads back as `m * 2 ^ e`: the grids of one, two, …
digits are tried in turn, after the one that has only the next power of ten, and the exact number, which
always reads back, stands last. A number on a finer grid has no zero at its end, or it would have been
found before. -/
def shortest (f : BinaryFormat) (tie : Tie) (m : Nat) (e : Int) : Decimal :=
  let all := exact m e
  let (num, den) := Binary.ratio m e
  let grids := (List.range 18).map fun (n : Nat) => all.point - n
  let found := grids.findSome? fun k =>
    (neighbours tie num den k).find? fun d => d.toBinary f false == .finite false m e
  found.getD all

end Decimal

end LayeredCache
