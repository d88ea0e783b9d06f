namespace Listing

/-- How many doubles lie from zero up to the largest finite one, which makes it the rank of
infinity. -/
def Double.top : Nat := 2047 * Nat.pow 2 52

/-- A binary64 value. A magnitude is its rank among all magnitudes: zero has rank 0, every further
rank is the next larger double, and the last rank is infinity. -/
inductive Double where
  | nan
  | ranked (negative : Bool) (rank : Fin (Double.top + 1))
  deriving DecidableEq

namespace Double

/-- The magnitude of a rank in units of the least positive double, `2 ^ -1074`. -/
def weight (rank : Nat) : Nat :=
  if rank < Nat.pow 2 52 then rank
  else (Nat.pow 2 52 + rank % Nat.pow 2 52) * Nat.pow 2 (rank / Nat.pow 2 52 - 1)

/-- The weight of the number one. -/
def unit : Nat := Nat.pow 2 1074

def infinity (negative : Bool) : Double := .ranked negative ⟨top, by decide⟩

def zero (negative : Bool) : Double := .ranked negative ⟨0, by decide⟩

def isNaN : Double → Bool
  | .nan => true
  | .ranked _ _ => false

def isFinite : Double → Bool
  | .nan => false
  | .ranked _ rank => decide (rank.val < top)

def isIntegral : Double → Bool
  | .nan => false
  | .ranked negative rank => isFinite (.ranked negative rank) && weight rank.val % unit == 0

/-- The place on the line of doubles, where both zeros share one place. -/
def place? : Double → Option Int
  | .nan => none
  | .ranked negative rank => some (if negative then -(rank.val : Int) else rank.val)

/-- The order of values: `nan` is comparable with nothing and the two zeros are equal. -/
def compare? (a b : Double) : Option Ordering :=
  match a.place?, b.place? with
  | some x, some y => some (compare x y)
  | _, _ => none

/-- Equality of values, under which `nan` differs from itself and the two zeros are equal. -/
def same (a b : Double) : Bool := a.compare? b == some .eq

/-- The place in the total order, where negative zero comes just before zero and `nan` after
everything. -/
def totalPlace : Double → Int
  | .nan => top + 1
  | .ranked negative rank => if negative then -(rank.val : Int) - 1 else rank.val

def compareTotal (a b : Double) : Ordering := compare a.totalPlace b.totalPlace

/-- The value cut toward zero and clamped to 64-bit signed integers; `nan` gives zero. -/
def toInt64 : Double → Int
  | .nan => 0
  | .ranked negative rank =>
    let whole := weight rank.val / unit
    if negative then -(min whole (Nat.pow 2 63) : Nat) else (min whole (Nat.pow 2 63 - 1) : Nat)

end Double

end Listing
