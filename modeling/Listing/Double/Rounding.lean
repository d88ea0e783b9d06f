import Listing.Double.Basic

namespace Listing

namespace Double

/-- The integer nearest to a quotient; halfway the even one. -/
def roundQuotient (num den : Nat) : Nat :=
  let q := num / den
  let r := num % den
  if 2 * r < den then q else if den < 2 * r then q + 1 else q + q % 2

/-- The rank of the magnitude nearest to `num / den`; halfway the even rank, and infinity past the
largest finite double. With 53 bits kept, a carry moves the rank into the next binade by itself. -/
def nearestRank (num den : Nat) : Nat :=
  let scaled := num * unit
  let shift := (scaled / den).log2 - 52
  min (shift * Nat.pow 2 52 + roundQuotient scaled (den * Nat.pow 2 shift)) top

/-- The double nearest to `num / den`. -/
def nearest (negative : Bool) (num den : Nat) : Double :=
  .ranked negative ⟨nearestRank num den, Nat.lt_succ_of_le (Nat.min_le_right _ _)⟩

def ofInt (n : Int) : Double := nearest (decide (n < 0)) n.natAbs 1

def ofBool (b : Bool) : Double := ofInt (if b then 1 else 0)

end Double

/-- How many decimal digits a number has; zero has one. -/
def digitCount (n : Nat) : Nat := (Nat.toDigits 10 n).length

/-- The number `digits * 10 ^ exponent`. -/
structure Decimal where
  digits : Nat
  exponent : Int
  deriving DecidableEq

namespace Decimal

/-- The factors that a power of ten puts on the numerator and on the denominator. -/
def scale (exponent : Int) : Nat × Nat := (Nat.pow 10 exponent.toNat, Nat.pow 10 (-exponent).toNat)

/-- The nearest double. A value of more than 310 places is past every finite double and one below
`10 ^ -330` is nearest to zero, so that no power larger than these is ever computed. -/
def toDouble (negative : Bool) (d : Decimal) : Double :=
  let size := (digitCount d.digits : Int) + d.exponent
  if d.digits = 0 ∨ size < -330 then .zero negative
  else if 310 < size then .infinity negative
  else .nearest negative (d.digits * (scale d.exponent).1) (scale d.exponent).2

end Decimal

end Listing
