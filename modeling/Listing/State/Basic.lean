import Listing.FilterValue
import Listing.OrderedMap
import Listing.Schema.Basic

namespace Listing

/-- Limits on the dates of a field. A part that is an empty text says no more than a missing one. -/
structure DateRange where
  field : Option String
  start : Option String
  stop : Option String
  deriving DecidableEq

namespace DateRange

/-- The limits on a field, in which an empty bound counts as missing. -/
def ofTexts (field : String) (start stop : Option String) : DateRange :=
  ⟨some field, start.filter (· ≠ ""), stop.filter (· ≠ "")⟩

def lower? (r : DateRange) : Option String := r.start.filter (· ≠ "")

def upper? (r : DateRange) : Option String := r.stop.filter (· ≠ "")

def hasBounds (r : DateRange) : Bool := r.lower?.isSome || r.upper?.isSome

/-- The field that is limited, if one is named and there is a bound. -/
def activeField? (r : DateRange) : Option String := r.field.filter fun f => f ≠ "" && r.hasBounds

end DateRange

/-- What a user has chosen on a listing. -/
structure State where
  search : String
  filters : OrderedMap FilterValue
  sort : String
  dateRange : Option DateRange

namespace State

def empty : State := ⟨"", ∅, "", none⟩

/-- The state before any choice: only the first sort order that is offered. -/
def initial (schema : Schema) : State := { empty with sort := schema.defaultSort?.getD "" }

def withSearch (s : State) (search : String) : State := { s with search := search }

/-- Sets a filter; an empty value takes it away. -/
def withFilter (s : State) (key : String) (value : FilterValue) : State :=
  { s with filters := if value.isEmpty then s.filters.erase key else s.filters.insert key value }

def withoutFilter (s : State) (key : String) : State := { s with filters := s.filters.erase key }

def withSort (s : State) (sort : String) : State := { s with sort := sort }

/-- Sets the date range; one without bounds takes it away. -/
def withDateRange (s : State) (range : Option DateRange) : State :=
  { s with dateRange := range.filter DateRange.hasBounds }

/-- Takes away every choice but the sort order. -/
def cleared (s : State) : State := { empty with sort := s.sort }

/-- The date range with the field it limits, if it limits one. -/
def activeDateRange? (s : State) : Option (String × DateRange) := do
  let range ← s.dateRange
  let field ← range.activeField?
  return (field, range)

/-- The filters that are not empty, in their order. -/
def activeFilters (s : State) : List (String × FilterValue) :=
  s.filters.entries.filter fun (_, value) => !value.isEmpty

def hasActiveFilters (s : State) : Bool :=
  s.search ≠ "" || !s.activeFilters.isEmpty || s.activeDateRange?.isSome

/-- Equality of states, for which the order of the filters does not matter. -/
def same (a b : State) : Bool :=
  a.search = b.search && a.filters.sameBy FilterValue.same b.filters && a.sort = b.sort &&
    a.dateRange = b.dateRange

end State

/-- Refuses a state whose date range names a field that is not declared for date ranges. -/
def Schema.check (schema : Schema) (s : State) : Except Fault Unit :=
  match (s.dateRange.bind DateRange.field).filter (· ≠ "") with
  | some field =>
    if (schema.dateRangeField? field).isSome then .ok () else .error (.unknownDateRangeField field)
  | none => .ok ()

end Listing
