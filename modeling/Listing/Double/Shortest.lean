import Listing.Double.Rounding

namespace Listing

namespace Double

/-- A finite magnitude above zero and the midpoints to its two neighbours, in parts of which `one`
make the number one. `closed` says whether the midpoints round to it. -/
structure Span where
  low : Nat
  value : Nat
  high : Nat
  one : Nat
  closed : Bool

/-- The span of a rank, without the powers of two that all its parts have in common. A midpoint
rounds to the even one of its two ranks. -/
def Span.ofRank (rank : Nat) : Span :=
  let common := Nat.pow 2 (min ((rank - 1) / Nat.pow 2 52 - 1) 1074)
  { low := (weight (rank - 1) + weight rank) / common
    value := 2 * weight rank / common
    high := (weight rank + weight (rank + 1)) / common
    one := 2 * unit / common
    closed := rank % 2 = 0 }

end Double

namespace Decimal

open Double (Span)

/-- Whether `d` rounds to the value of a span. -/
def reads (s : Span) (d : Decimal) : Bool :=
  let (up, down) := scale d.exponent
  let point := d.digits * up * s.one
  if s.closed then decide (s.low * down ≤ point ∧ point ≤ s.high * down)
  else decide (s.low * down < point ∧ point < s.high * down)

/-- The number of digits before the decimal point, or minus the zeros that follow it. Below one the
zeros are counted in the largest integer below the inverse. -/
def magnitude (s : Span) : Int :=
  if s.one ≤ s.value then digitCount (s.value / s.one)
  else 1 - (digitCount ((s.one - 1) / s.value) : Int)

/-- The better of the two neighbours of a value on the grid of multiples of `10 ^ exponent`, if one
of them reads back. -/
def onGrid (tieAway : Bool) (s : Span) (exponent : Int) : Option Decimal :=
  let (up, down) := scale exponent
  let num := s.value * down
  let den := s.one * up
  let below : Decimal := ⟨num / den, exponent⟩
  let above : Decimal := ⟨num / den + 1, exponent⟩
  match reads s below, reads s above with
  | true, true =>
    match compare (2 * (num % den)) den with
    | .lt => some below
    | .gt => some above
    | .eq => some (if tieAway || below.digits % 2 == 1 then above else below)
  | true, false => some below
  | false, true => some above
  | false, false => none

/-- The decimal without trailing zeros, for at most `fuel` of them. -/
def strip : Nat → Decimal → Decimal
  | 0, d => d
  | fuel + 1, d =>
    if d.digits % 10 = 0 ∧ d.digits ≠ 0 then strip fuel ⟨d.digits / 10, d.exponent + 1⟩ else d

/-- The decimal with the fewest digits that reads back as the finite rank, and the nearest of those;
seventeen digits always suffice. -/
def shortest (tieAway : Bool) (rank : Nat) : Decimal :=
  if rank = 0 then ⟨0, 0⟩
  else
    let s := Span.ofRank rank
    let size := magnitude s
    let found := (List.range 17).findSome? fun n : Nat => onGrid tieAway s (size - (n + 1))
    strip 17 (found.getD ⟨0, 0⟩)

end Decimal

end Listing
