import Listing.Query.Params
import Listing.State.Basic

namespace Listing

/-! Queries with the operator written after the key, and one parameter for every filter. -/

namespace SuffixedQuery

def standardSeparator : String := "__"

/-- The name of the parameter of a key under an operator; equality is not written. -/
def paramName (separator key : String) (op : Operator) : String :=
  if op = .eq then key else key ++ separator ++ op.name

def searchEmissions (separator : String) (schema : Schema) (search : String) :
    List (String × Param) :=
  if search = "" then []
  else schema.searchFields.map fun f => (paramName separator f.key .like, .text search)

/-- What a filter compares: the key, type and operator of its field, else of the bound it names. -/
def target? (schema : Schema) (key : String) : Option (String × FieldType × Operator) :=
  match schema.field? key with
  | some f => some (key, f.type, f.operator)
  | none => (schema.pairedKey? key).map fun pair => (pair.base, pair.type, pair.bound.operator)

/-- The value of a parameter. Ranges and lists stay texts; a number field has no value for what is
not a number. -/
def paramValue? (type : FieldType) (op : Operator) (value : FilterValue) : Option Param :=
  if op.isRanged || op == .isIn then some (.text value.param)
  else if type = .number then value.number?.map .number
  else some (.ofFilter value)

def filterEmission? (separator : String) (schema : Schema) (key : String) (value : FilterValue) :
    Option (String × Param) := do
  let (base, type, op) ← target? schema key
  let param ← paramValue? type op value
  return (paramName separator base op, param)

/-- The emissions of a date range, with the dates as they were given. -/
def dateEmissions (separator : String) (range : Option (String × DateRange)) :
    List (String × Param) :=
  match range with
  | none => []
  | some (field, range) =>
    (range.lower?.map fun date => (paramName separator field .gte, Param.text date)).toList ++
      (range.upper?.map fun date => (paramName separator field .lte, Param.text date)).toList

def emissions (separator : String) (schema : Schema) (s : State) : List (String × Param) :=
  searchEmissions separator schema s.search ++
    s.activeFilters.filterMap (fun (key, value) => filterEmission? separator schema key value) ++
      dateEmissions separator s.activeDateRange? ++ Params.sortEmissions s.sort

def compile (separator : String) (schema : Schema) (s : State) : Params :=
  .ofEmissions (emissions separator schema s)

end SuffixedQuery

end Listing
