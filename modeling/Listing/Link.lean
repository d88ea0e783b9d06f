import Listing.FormEncoding
import Listing.State.Basic

namespace Listing

/-- What a link says about a state. -/
structure Patch where
  search : Option String
  sort : Option String
  filters : OrderedMap FilterValue
  dateRange : Option DateRange

/-- The state after a link: its filters replace all filters, and what it does not mention stays. -/
def Patch.applyTo (patch : Patch) (base : State) : State where
  search := patch.search.getD base.search
  filters := patch.filters
  sort := patch.sort.getD base.sort
  dateRange := patch.dateRange <|> base.dateRange

/-! States as the query of a link. -/

namespace Link

def searchName : String := "search"

def sortName : String := "sort"

def startName (field : String) : String := field ++ "_from"

def stopName (field : String) : String := field ++ "_to"

/-- A pair, unless its value is empty. -/
def pairOf (name value : String) : List (String × String) :=
  if value = "" then [] else [(name, value)]

def datePairs (range : Option (String × DateRange)) : List (String × String) :=
  match range with
  | none => []
  | some (field, range) =>
    pairOf (startName field) (range.lower?.getD "") ++
      pairOf (stopName field) (range.upper?.getD "")

/-- The pairs of a state, none of which has an empty value. -/
def pairs (s : State) : List (String × String) :=
  pairOf searchName s.search ++ pairOf sortName s.sort ++
    s.activeFilters.flatMap (fun (key, value) => pairOf key value.param) ++
      datePairs s.activeDateRange?

def write (s : State) : String := FormEncoding.encode (pairs s)

/-- The value of a filter of a field in a link. A list has the parts between commas that are not
blank. -/
def readValue? (f : Field) (raw : String) : Option FilterValue :=
  if f.type = .multiselect ∨ f.operator = .isIn then
    let items := ((Text.split ',' raw).map Text.trim).filter (· ≠ "")
    if items.isEmpty then none else some (.list items)
  else
    match f.type with
    | .number =>
      if f.operator.isRanged then some (.text raw)
      else ((Double.parse? (Text.trim raw)).filter fun n => !n.isNaN).map .number
    | .boolean =>
      some (if raw = "true" then .bool true else if raw = "false" then .bool false else .text raw)
    | _ => some (.text raw)

/-- The value of a name: that of its first pair, unless it is empty. -/
def valueOf? (pairs : List (String × String)) (name : String) : Option String :=
  (pairs.lookup name).filter (· ≠ "")

/-- The names under which a link can give filters of a field. -/
def readableKeys (schema : Schema) (f : Field) : List String :=
  [f.key, schema.rangeSuffixes.keyFor f.key .min, schema.rangeSuffixes.keyFor f.key .max]

/-- The filters that pairs give, in the order of the fields. A key that two fields can read belongs
to the first that gives it a value. -/
def readFilters (schema : Schema) (pairs : List (String × String)) : OrderedMap FilterValue :=
  let given := schema.filterFields.flatMap fun f =>
    (readableKeys schema f).filterMap fun key =>
      ((valueOf? pairs key).bind (readValue? f)).map fun value => (key, value)
  given.foldl (fun filters (key, value) => filters.insertNew key value) ∅

/-- The date range of the first field that has a bound. -/
def readDateRange? (schema : Schema) (pairs : List (String × String)) : Option DateRange :=
  schema.dateRangeFields.findSome? fun f =>
    let start := valueOf? pairs (startName f.key)
    let stop := valueOf? pairs (stopName f.key)
    if start.isSome || stop.isSome then some (.ofTexts f.key start stop) else none

def readPairs (schema : Schema) (pairs : List (String × String)) : Patch where
  search := valueOf? pairs searchName
  sort := valueOf? pairs sortName
  filters := readFilters schema pairs
  dateRange := readDateRange? schema pairs

/-- Reads a query, with or without the question mark before it. -/
def read (schema : Schema) (query : String) : Patch :=
  let query := match query.toList with
    | '?' :: rest => String.ofList rest
    | _ => query
  readPairs schema (FormEncoding.decode query)

/-- The state that a query stands for: what it says, over the initial state. -/
def restore (schema : Schema) (query : String) : State :=
  (read schema query).applyTo (.initial schema)

end Link

end Listing
