import Listing.FilterValue

namespace Listing

/-- A lower and an upper bound, each of which may be missing. -/
structure Range where
  min : Option String
  max : Option String
  deriving DecidableEq

namespace Range

/-- A range in which an empty bound counts as missing. -/
def ofBounds (min max : Option String) : Range := ⟨min.filter (· ≠ ""), max.filter (· ≠ "")⟩

def ofValues (min max : Option FilterValue) : Range :=
  ofBounds (min.map FilterValue.param) (max.map FilterValue.param)

/-- Whether a text can stand as a bound by itself: nothing, a number or a date. -/
def isBound (half : List Char) : Bool :=
  let s := String.ofList (Text.trimmed half)
  s = "" || (Double.parse? s).isSome || (Calendar.Instant.parse? s).isSome

/-- Reads `min:max`. As dates hold colons too, the first colon with a bound on either side divides
the text, and the first colon of all if there is none. Dates hold at most three colons, two in the
time and one in the offset, so none after the fourth has a bound before it. -/
def parse? (s : String) : Option Range :=
  let cs := s.toList
  let divided := (Text.cuts ':' 4 cs).find? fun (min, max) => isBound min && isBound max
  (divided <|> Text.cutFirst ':' cs).map fun (min, max) =>
    ofBounds (some (String.ofList (Text.trimmed min))) (some (String.ofList (Text.trimmed max)))

def encode (r : Range) : String := r.min.getD "" ++ ":" ++ r.max.getD ""

def isEmpty (r : Range) : Bool := r.min.isNone && r.max.isNone

def isClosed (r : Range) : Bool := r.min.isSome && r.max.isSome

end Range

end Listing
