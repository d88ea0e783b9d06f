import Listing.Json.Basic
import Listing.Text.Digit
import Listing.Text.Split

namespace Listing

namespace Json

/-- The value under a segment: the member of an object, or the item of an array at the index that
the segment names. -/
def child? (doc : Json) (segment : List Char) : Option Json :=
  match doc with
  | .object members => members.lookup (String.ofList segment)
  | .array items => (Text.natural? segment).bind fun n => items[n]?
  | _ => none

/-- The value at the end of a row of segments. -/
def descend? (doc : Json) : List (List Char) → Option Json
  | [] => some doc
  | segment :: rest => (doc.child? segment).bind fun value => value.descend? rest

/-- The value at a path, whose segments are divided by points. -/
def resolve? (doc : Json) (path : String) : Option Json :=
  doc.descend? (Text.pieces '.' path.toList)

/-- The value at a path, unless it is null. -/
def present? (doc : Json) (path : String) : Option Json :=
  (doc.resolve? path).filter fun value => !value.isNull

end Json

end Listing
