import LayeredCache.Decimal.Shortest

/-!
# Decimal numbers, step by step

A short way from a decimal number to a value near it: the leading digits that fit a machine word are
brought to the format, and the power of ten is multiplied in or divided out. Every step rounds, so that
the value need not be the nearest one; it is exact if every step is.
-/

namespace LayeredCache.Decimal

/-- The least number that does not fit a word of 64 bits. -/
def wordBound : Nat := Nat.pow 2 64

/-- Appends digits to a number as long as it fits a word: the number, and the digits that are left. -/
def appendDigits (n : Nat) : List Nat → Nat × List Nat
  | [] => (n, [])
  | d :: ds => if 10 * n + d < wordBound then appendDigits (10 * n + d) ds else (n, d :: ds)

/-- The exponent of the greatest power of ten among the values. -/
def powerLimit : Nat := 308

/-- The value nearest to `10 ^ k`. -/
def powerOfTen (k : Nat) : Binary :=
  .ofNat .double (Nat.pow 10 k)

/-- Divides by the greatest power of ten up to `n` times, but not once nothing is left. -/
def divideRepeatedly : Nat → Binary → Binary
  | 0, x => x
  | n + 1, x =>
    if x.isZero then x else divideRepeatedly n (x.dividedBy .double (powerOfTen powerLimit))

/-- A value near a decimal number: its coefficient, rounded, times or through the power of ten. -/
def toBinaryStepwise (d : Decimal) : Binary :=
  let x := .ofNat .double d.coefficient
  match d.exponent with
  | .ofNat k =>
    if k ≤ powerLimit then x.times .double (powerOfTen k)
    else if x.isZero then x
    else .infinite false
  | .negSucc k =>
    -- the exponent is `-(k + 1)`, divided into whole steps and a last one
    (divideRepeatedly (k / powerLimit) x).dividedBy .double (powerOfTen (k % powerLimit + 1))

end LayeredCache.Decimal
