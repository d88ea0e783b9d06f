import Listing.Document
import Listing.State.Basic

namespace Listing

open Document Json

/-- A filter value is a text, a number, a truth value or a list of texts. -/
def FilterValue.read? : Written → Option FilterValue
  | .text content => content.map .text
  | .number value => value.map fun n => .number n.toDouble
  | .bool value => some (.bool value)
  | .array items => (items.mapM Written.text?).map .list
  | _ => none

/-- A filter with its key. -/
def State.readFilter? (member : Option String × Written) : Option (String × FilterValue) := do
  let key ← member.1
  return (key, ← FilterValue.read? member.2)

/-- The filters of a state: the members of an object, where a repeated key keeps its place and takes
its last value. -/
def State.readFilters? : Written → Option (OrderedMap FilterValue)
  | .object members =>
    (members.mapM State.readFilter?).map OrderedMap.ofList
  | _ => none

def DateRange.read? (node : Written) : Option DateRange := do
  let members ← record? ["field", "from", "to"] node
  return ⟨← optional members "field" text?, ← optional members "from" text?,
    ← optional members "to" text?⟩

def State.read? (node : Written) : Option State := do
  let members ← record? ["search", "filters", "sort", "dateRange"] node
  return {
    search := ← defaulted members "search" "" text?
    filters := ← defaulted members "filters" ∅ State.readFilters?
    sort := ← defaulted members "sort" "" text?
    dateRange := ← optional members "dateRange" DateRange.read? }

def FilterValue.json : FilterValue → Json
  | .text s => .text s
  | .number n => .number (.decimal n)
  | .bool b => .bool b
  | .list values => .array (values.map .text)

def DateRange.json (r : DateRange) : Json :=
  .object <|
    Json.textMember "field" r.field ++ Json.textMember "from" r.start ++
      Json.textMember "to" r.stop

/-- The document of a state, with the filters in their order. -/
def State.json (s : State) : Json :=
  .object <|
    [("search", .text s.search),
      ("filters", .object (s.filters.entries.map fun (key, value) => (key, value.json))),
      ("sort", .text s.sort)] ++
      match s.dateRange with
      | some r => [("dateRange", r.json)]
      | none => []

end Listing
