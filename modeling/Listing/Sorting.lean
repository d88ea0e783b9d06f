import Listing.Fault
import Listing.Text.Blank
import Listing.Text.Split

namespace Listing

inductive SortDirection where
  | asc
  | desc
  deriving DecidableEq

namespace SortDirection

def name : SortDirection → String
  | .asc => "asc"
  | .desc => "desc"

/-- The direction that a text names, in capital or small letters from A to Z. -/
def parse? (s : String) : Option SortDirection :=
  let word := s.toList.map Char.toLower
  if word = ['a', 's', 'c'] then some .asc
  else if word = ['d', 'e', 's', 'c'] then some .desc
  else none

def parse (s : String) : Except Fault SortDirection :=
  match parse? s with
  | some direction => .ok direction
  | none => .error (.unknownDirection s)

end SortDirection

/-- A field to sort by, and which way. -/
structure SortSpec where
  field : String
  direction : SortDirection
  deriving DecidableEq

namespace SortSpec

def text (spec : SortSpec) : String := spec.field ++ ":" ++ spec.direction.name

/-- The field of a sort text, and the text after its first colon if there is one. -/
def parts (s : String) : String × Option String :=
  let cs := Text.trimmed s.toList
  match Text.cutFirst ':' cs with
  | some (field, direction) =>
    (String.ofList (Text.trimmed field), some (String.ofList (Text.trimmed direction)))
  | none => (String.ofList cs, none)

/-- Reads `field`, `field:asc` or `field:desc`; a direction that is unknown is ascending, and no
spec has an empty field. -/
def parse? (s : String) : Option SortSpec :=
  let (field, direction) := parts s
  if field = "" then none
  else some ⟨field, (direction.bind SortDirection.parse?).getD .asc⟩

/-- Reads a sort spec and refuses an unknown direction, and then an empty field. -/
def parse (s : String) : Except Fault SortSpec := do
  let (field, direction) := parts s
  let direction ← match direction with
    | some direction => SortDirection.parse direction
    | none => .ok .asc
  if field = "" then throw (.unknownDirection (Text.trim s))
  return ⟨field, direction⟩

/-- The specs of a comma-separated list; parts without a field are left out. -/
def parseList (s : String) : List SortSpec := (Text.split ',' s).filterMap parse?

end SortSpec

end Listing
