namespace Listing

namespace Calendar

/-- A point in time: whole seconds since 1970-01-01T00:00:00Z and the nanoseconds after them. A leap
second is the second before it with a thousand million nanoseconds more. -/
structure Instant where
  seconds : Int
  nanos : Nat
  deriving DecidableEq

namespace Instant

def compare (a b : Instant) : Ordering :=
  (Ord.compare a.seconds b.seconds).then (Ord.compare a.nanos b.nanos)

/-- The number of the day in UTC, counted from 1970-01-01. -/
def day (t : Instant) : Int := t.seconds / 86400

def startOfDay (t : Instant) : Instant := ⟨t.day * 86400, 0⟩

/-- The last millisecond of the day. -/
def endOfDay (t : Instant) : Instant := ⟨t.day * 86400 + 86399, 999000000⟩

/-- Milliseconds since 1970, if the year lies between -262143 and 262142. -/
def ofMillis? (millis : Int) : Option Instant :=
  if -8334601228800000 ≤ millis ∧ millis ≤ 8210266876799999 then
    some ⟨millis / 1000, (millis % 1000).toNat * 1000000⟩
  else none

end Instant

end Calendar

end Listing
