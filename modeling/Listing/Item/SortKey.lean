import Listing.Item.Reading
import Listing.Text.Lower

namespace Listing

/-- What a value is sorted by. -/
inductive SortKey where
  | number (value : Double)
  | instant (value : Calendar.Instant)
  | text (value : String)
  deriving DecidableEq

namespace SortKey

/-- The key of a value: numbers by value, texts that name an instant by it, and everything else by
its text in small letters. A missing value has the empty text. -/
def ofItem : Option Json → SortKey
  | none => .text ""
  | some (.number value) => .number value.toDouble
  | some (.text s) =>
    match Calendar.Instant.parse? s with
    | some t => .instant t
    | none => .text (Text.lower s)
  | some item => .text (Text.lower item.display)

def rank : SortKey → Nat
  | .number _ => 0
  | .instant _ => 1
  | .text _ => 2

/-- Numbers come before instants and instants before texts. -/
def compare : SortKey → SortKey → Ordering
  | .number a, .number b => a.compareTotal b
  | .instant a, .instant b => a.compare b
  | .text a, .text b => Ord.compare a b
  | a, b => Ord.compare a.rank b.rank

/-- Whether two keys share one place in the order. -/
def same (a b : SortKey) : Bool := a.compare b == .eq

end SortKey

end Listing
