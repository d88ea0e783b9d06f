import Listing.Calendar.Reading
import Listing.Double.Text
import Listing.Text.Blank
import Listing.Text.Split

namespace Listing

/-- What a filter compares with. -/
inductive FilterValue where
  | text (value : String)
  | number (value : Double)
  | bool (value : Bool)
  | list (values : List String)
  deriving DecidableEq

namespace FilterValue

/-- An empty value filters nothing: the empty text, `nan` and the empty list. -/
def isEmpty : FilterValue → Bool
  | .text s => s = ""
  | .number n => n.isNaN
  | .bool _ => false
  | .list values => values.isEmpty

def text? : FilterValue → Option String
  | .text s => some s
  | _ => none

/-- The number of a value: a text is read without the blanks around it, and true counts as one. -/
def number? : FilterValue → Option Double
  | .text s => (Double.parse? (Text.trim s)).filter fun n => !n.isNaN
  | .number n => if n.isNaN then none else some n
  | .bool b => some (.ofBool b)
  | .list _ => none

/-- The value as the text of a parameter; the items of a list are joined by commas. -/
def param : FilterValue → String
  | .text s => s
  | .number n => n.display
  | .bool b => if b then "true" else "false"
  | .list values => Text.join ',' values

/-- The instant of a value: a text that names one, or milliseconds since 1970. -/
def instant? : FilterValue → Option Calendar.Instant
  | .text s => Calendar.Instant.parse? s
  | .number n => Calendar.Instant.ofMillis? n.toInt64
  | _ => none

/-- Equality of values, with numbers compared as numbers. -/
def same : FilterValue → FilterValue → Bool
  | .text a, .text b => a = b
  | .number a, .number b => a.same b
  | .bool a, .bool b => a = b
  | .list a, .list b => a = b
  | _, _ => false

end FilterValue

end Listing
