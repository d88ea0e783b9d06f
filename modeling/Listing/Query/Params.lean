import Listing.FilterValue
import Listing.Json.Basic
import Listing.OrderedMap

namespace Listing

/-- The value of a query parameter. -/
inductive Param where
  | text (value : String)
  | number (value : Double)
  deriving DecidableEq

namespace Param

def ofFilter : FilterValue → Param
  | .number n => .number n
  | other => .text other.param

def display : Param → String
  | .text s => s
  | .number n => n.display

def json : Param → Json
  | .text s => .text s
  | .number n => .number (.decimal n)

/-- Equality of values, with numbers compared as numbers. -/
def same : Param → Param → Bool
  | .text a, .text b => a = b
  | .number a, .number b => a.same b
  | _, _ => false

end Param

/-- The parameters of a query in their order. -/
abbrev Params := OrderedMap Param

namespace Params

/-- The parameters that a row of emissions leaves: each name stands where it was first emitted and
has the value that was emitted last. -/
def ofEmissions (emissions : List (String × Param)) : Params := OrderedMap.ofList emissions

/-- Equality of parameters, for which their order does not matter. -/
def same (a b : Params) : Bool := a.sameBy Param.same b

def pairs (params : Params) : List (String × String) :=
  params.entries.map fun (name, value) => (name, value.display)

def json (params : Params) : Json :=
  .object (params.entries.map fun (name, value) => (name, value.json))

/-- The parameter of the sort order. -/
def sortName : String := "sort"

/-- The emission of the sort order, if there is one. -/
def sortEmissions (sort : String) : List (String × Param) :=
  if sort = "" then [] else [(sortName, .text sort)]

end Params

end Listing
