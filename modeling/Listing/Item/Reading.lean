import Listing.FilterValue
import Listing.Json.Writer

namespace Listing

namespace Json

mutual

/-- The text that stands for a value: the items of an array are joined by commas, and an object is
its compact text. -/
def display : Json → String
  | .null => ""
  | .bool value => if value then "true" else "false"
  | .number value => value.toDouble.display
  | .text value => value
  | .array items => Text.join ',' (displayItems items)
  | .object members => compact (.object members)

def displayItems : List Json → List String
  | [] => []
  | item :: rest => item.display :: displayItems rest

end

/-- The number of a value: a text is read without the blanks around it, and true counts as one. -/
def number? : Json → Option Double
  | .number value => if value.toDouble.isNaN then none else some value.toDouble
  | .text s => (Double.parse? (Text.trim s)).filter fun n => !n.isNaN
  | .bool b => some (.ofBool b)
  | _ => none

/-- A number in milliseconds: an integer of 64 bits with sign as it is, and any other number cut to
one. -/
def millis (value : Numeral) : Int :=
  match value with
  | .integer n =>
    let limit : Int := (Nat.pow 2 63 : Nat)
    if -limit ≤ n ∧ n < limit then n else value.toDouble.toInt64
  | .decimal d => d.toInt64

/-- The instant of a value: a text that names one, or milliseconds since 1970. -/
def instant? : Json → Option Calendar.Instant
  | .text s => Calendar.Instant.parse? s
  | .number value => Calendar.Instant.ofMillis? (millis value)
  | _ => none

end Json

end Listing
