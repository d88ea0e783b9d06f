import Listing.Document
import Listing.Schema.Basic

namespace Listing

open Document

section Reading

variable {ν : Type} {m : Type → Type} [Monad m] [MonadExcept Unit m] [Document ν m]

def FieldOption.read? (node : ν) : m FieldOption := do
  let members ← record? ["value", "label"] node
  return ⟨← required members "value" text?, ← required members "label" text?⟩

def FieldType.read? (node : ν) : m FieldType := do given (FieldType.ofName? (← name? node))

def Operator.read? (node : ν) : m Operator := do given (Operator.ofName? (← name? node))

def Field.read? (node : ν) : m Field := do
  let members ← record? ["key", "label", "type", "operator", "options", "placeholder"] node
  return {
    key := ← required members "key" text?
    label := ← optional members "label" text?
    type := ← defaulted members "type" .string FieldType.read?
    declaredOperator := ← optional members "operator" Operator.read?
    options := ← defaulted members "options" [] (list? FieldOption.read?)
    placeholder := ← optional members "placeholder" text? }

def SortOption.read? (node : ν) : m SortOption := do
  let members ← record? ["value", "label"] node
  return ⟨← required members "value" text?, ← required members "label" text?⟩

def DateRangeField.read? (node : ν) : m DateRangeField := do
  let members ← record? ["key", "label"] node
  return ⟨← required members "key" text?, ← optional members "label" text?⟩

def RangeSuffixes.read? (node : ν) : m RangeSuffixes := do
  let members ← record? ["min", "max"] node
  return ⟨← required members "min" text?, ← required members "max" text?⟩

def Schema.read? (node : ν) : m Schema := do
  let members ← record?
    ["searchFields", "filterFields", "sortOptions", "dateRangeFields", "rangeSuffixes"] node
  return {
    searchFields := ← defaulted members "searchFields" [] (list? Field.read?)
    filterFields := ← defaulted members "filterFields" [] (list? Field.read?)
    sortOptions := ← defaulted members "sortOptions" [] (list? SortOption.read?)
    dateRangeFields := ← defaulted members "dateRangeFields" [] (list? DateRangeField.read?)
    rangeSuffixes := ← defaulted members "rangeSuffixes" .standard RangeSuffixes.read? }

end Reading

def FieldOption.json (option : FieldOption) : Json :=
  .object [("value", .text option.value), ("label", .text option.label)]

def Field.json (f : Field) : Json :=
  .object <|
    [("key", .text f.key)] ++ Json.textMember "label" f.label ++ [("type", .text f.type.name)] ++
      Json.textMember "operator" (f.declaredOperator.map Operator.name) ++
      (if f.options.isEmpty then [] else [("options", .array (f.options.map FieldOption.json))]) ++
      Json.textMember "placeholder" f.placeholder

def SortOption.json (option : SortOption) : Json :=
  .object [("value", .text option.value), ("label", .text option.label)]

def DateRangeField.json (f : DateRangeField) : Json :=
  .object (("key", .text f.key) :: Json.textMember "label" f.label)

def RangeSuffixes.json (suffixes : RangeSuffixes) : Json :=
  .object [("min", .text suffixes.min), ("max", .text suffixes.max)]

/-- The document of a schema, which leaves out what is missing. -/
def Schema.json (schema : Schema) : Json :=
  .object [("searchFields", .array (schema.searchFields.map Field.json)),
    ("filterFields", .array (schema.filterFields.map Field.json)),
    ("sortOptions", .array (schema.sortOptions.map SortOption.json)),
    ("dateRangeFields", .array (schema.dateRangeFields.map DateRangeField.json)),
    ("rangeSuffixes", schema.rangeSuffixes.json)]

end Listing
