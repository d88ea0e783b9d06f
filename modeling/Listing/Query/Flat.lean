import Listing.Query.CompactDate
import Listing.Query.Params
import Listing.State.Basic

namespace Listing

/-! Queries with one parameter for every filter, in which the two bounds of a field make one range
and dates are written in digits. -/

namespace FlatQuery

def searchEmissions (schema : Schema) (search : String) : List (String × Param) :=
  if search = "" then [] else schema.searchFields.map fun f => (f.key, .text search)

/-- The range that the bounds of a field make. -/
def pairedRange (schema : Schema) (filters : OrderedMap FilterValue) (base : String) : Range :=
  let half (bound : RangeBound) : Option FilterValue :=
    (filters.get? (schema.rangeSuffixes.keyFor base bound)).filter fun value => !value.isEmpty
  .ofValues (half .min) (half .max)

/-- The emission of a filter. A key that names a bound emits the range of its field, an unknown key
nothing, and a number field without ranges only what is a number. -/
def filterEmission? (schema : Schema) (filters : OrderedMap FilterValue) (key : String)
    (value : FilterValue) : Option (String × Param) :=
  match schema.pairedKey? key with
  | some pair => some (pair.base, .text (pairedRange schema filters pair.base).encode)
  | none =>
    match schema.field? key with
    | none => none
    | some f =>
      if f.type = .number ∧ f.operator.isRanged = false then
        value.number?.map fun n => (key, .number n)
      else some (key, .ofFilter value)

/-- The emission of a date range, from the start of its first day to the end of its last. -/
def dateEmissions (range : Option (String × DateRange)) : List (String × Param) :=
  match range with
  | none => []
  | some (field, range) =>
    let start := (range.lower?.bind fun date => compactDate? date "000000").getD ""
    let stop := (range.upper?.bind fun date => compactDate? date "235959").getD ""
    if start = "" ∧ stop = "" then [] else [(field, .text (start ++ ":" ++ stop))]

def emissions (schema : Schema) (s : State) : List (String × Param) :=
  searchEmissions schema s.search ++
    s.activeFilters.filterMap (fun (key, value) => filterEmission? schema s.filters key value) ++
      dateEmissions s.activeDateRange? ++ Params.sortEmissions s.sort

def compile (schema : Schema) (s : State) : Params := .ofEmissions (emissions schema s)

end FlatQuery

end Listing
