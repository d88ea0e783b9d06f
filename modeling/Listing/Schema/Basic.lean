import Listing.Field
import Listing.Item.Test
import Listing.Sorting
import Listing.Text.Split

namespace Listing

/-- A choice that a field offers. -/
structure FieldOption where
  value : String
  label : String
  deriving DecidableEq

/-- A field that can be searched or filtered. -/
structure Field where
  key : String
  label : Option String
  type : FieldType
  declaredOperator : Option Operator
  options : List FieldOption
  placeholder : Option String
  deriving DecidableEq

namespace Field

def ofKey (key : String) (type : FieldType) : Field := ⟨key, none, type, none, [], none⟩

/-- The operator in effect: the declared one, else equality. -/
def operator (f : Field) : Operator := f.declaredOperator.getD .eq

end Field

/-- A sort order that is offered. -/
structure SortOption where
  value : String
  label : String
  deriving DecidableEq

def SortOption.specs (option : SortOption) : List SortSpec := SortSpec.parseList option.value

/-- A field whose dates can be limited. -/
structure DateRangeField where
  key : String
  label : Option String
  deriving DecidableEq

inductive RangeBound where
  | min
  | max
  deriving DecidableEq

/-- The operator that a bound stands for. -/
def RangeBound.operator : RangeBound → Operator
  | .min => .gte
  | .max => .lte

/-- The endings that make the key of a bound from the key of a field. -/
structure RangeSuffixes where
  min : String
  max : String
  deriving DecidableEq

namespace RangeSuffixes

def standard : RangeSuffixes := ⟨"_min", "_max"⟩

/-- The field and the bound that a key names, with the ending of the lower bound tried first. No
field has an empty key. -/
def split? (suffixes : RangeSuffixes) (key : String) : Option (String × RangeBound) :=
  let cs := key.toList
  let found := match Text.dropEnding? suffixes.min.toList cs with
    | some base => some (String.ofList base, RangeBound.min)
    | none => (Text.dropEnding? suffixes.max.toList cs).map fun base =>
      (String.ofList base, RangeBound.max)
  found.filter fun (base, _) => base ≠ ""

def keyFor (suffixes : RangeSuffixes) (base : String) : RangeBound → String
  | .min => base ++ suffixes.min
  | .max => base ++ suffixes.max

end RangeSuffixes

/-- A key that names a bound of a field. -/
structure PairedKey where
  base : String
  bound : RangeBound
  type : FieldType
  deriving DecidableEq

/-- What a listing can be searched, filtered and sorted by. -/
structure Schema where
  searchFields : List Field
  filterFields : List Field
  sortOptions : List SortOption
  dateRangeFields : List DateRangeField
  rangeSuffixes : RangeSuffixes
  deriving DecidableEq

namespace Schema

def empty : Schema := ⟨[], [], [], [], .standard⟩

def field? (schema : Schema) (key : String) : Option Field :=
  schema.filterFields.find? fun f => f.key = key

theorem mem_of_field? {schema : Schema} {key : String} {f : Field}
    (h : schema.field? key = some f) : f ∈ schema.filterFields ∧ f.key = key :=
  ⟨List.mem_of_find?_eq_some h, by simpa using List.find?_some h⟩

def dateRangeField? (schema : Schema) (key : String) : Option DateRangeField :=
  schema.dateRangeFields.find? fun f => f.key = key

/-- The sort order that is offered first. -/
def defaultSort? (schema : Schema) : Option String := schema.sortOptions.head?.map SortOption.value

/-- The bound that a key names, if the field it belongs to or the key itself is declared. The type
is that of the field it belongs to, else that of the key. -/
def pairedKey? (schema : Schema) (key : String) : Option PairedKey := do
  let (base, bound) ← schema.rangeSuffixes.split? key
  let field ← schema.field? base <|> schema.field? key
  return ⟨base, bound, field.type⟩

/-- The test that a filter makes, if its key is known. A key that names a bound tests the field it
belongs to. -/
def test? (schema : Schema) (key : String) (value : FilterValue) : Option Test :=
  match schema.pairedKey? key with
  | some pair => some ⟨pair.base, pair.bound.operator, pair.type, value⟩
  | none => (schema.field? key).map fun f => ⟨f.key, f.operator, f.type, value⟩

end Schema

end Listing
