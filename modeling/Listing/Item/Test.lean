import Listing.Field
import Listing.Item.Path
import Listing.Item.Reading
import Listing.Range
import Listing.Text.Lower

namespace Listing

/-- Compares an item with a filter as the type of the field asks: by number, by instant, or by the
texts that stand for them. Nothing follows where one side has no reading. -/
def compareItem? (type : FieldType) (item : Json) (filter : FilterValue) : Option Ordering :=
  match type with
  | .number => do (← item.number?).compare? (← filter.number?)
  | .date | .datetime => do return (← item.instant?).compare (← filter.instant?)
  | _ => some (compare item.display filter.param)

/-- Equality without any conversion between kinds of values. -/
def strictlyEqual : Json → FilterValue → Bool
  | .text a, .text b => a = b
  | .number a, .number b => a.toDouble.same b
  | .bool a, .bool b => a = b
  | .array items, .list values => items.map Json.text? = values.map some
  | _, _ => false

/-- Whether the texts of both sides in small letters pass a test. -/
def matchesText (test : List Char → List Char → Bool) (item : Json) (filter : FilterValue) : Bool :=
  test (Text.lowered filter.param.toList) (Text.lowered item.display.toList)

/-- Whether an item lies between both bounds of a filter; a filter without two bounds holds
nothing. -/
def isBetween (type : FieldType) (item : Json) (filter : FilterValue) : Bool :=
  match Range.parse? filter.param with
  | some ⟨some min, some max⟩ =>
    (compareItem? type item (.text min)).any Ordering.isGE &&
      (compareItem? type item (.text max)).any Ordering.isLE
  | _ => false

/-- Whether a value that is not null passes a filter. -/
def Operator.accepts (op : Operator) (type : FieldType) (filter : FilterValue) (item : Json) :
    Bool :=
  match op with
  | .eq => strictlyEqual item filter
  | .like => matchesText Text.occurs item filter
  | .startsWith => matchesText List.isPrefixOf item filter
  | .endsWith => matchesText List.isSuffixOf item filter
  | .isIn =>
    match filter with
    | .list values => values.any fun value => item.text? = some value
    | scalar => strictlyEqual item scalar
  | .gt => (compareItem? type item filter).any Ordering.isGT
  | .gte => (compareItem? type item filter).any Ordering.isGE
  | .lt => (compareItem? type item filter).any Ordering.isLT
  | .lte => (compareItem? type item filter).any Ordering.isLE
  | .between | .range => isBetween type item filter

/-- Whether the value of an item passes a filter; a missing value and null never do. -/
def Operator.test (op : Operator) (type : FieldType) (filter : FilterValue) (item : Option Json) :
    Bool :=
  (item.filter fun value => !value.isNull).any (op.accepts type filter)

/-- A filter as a test on documents. -/
structure Test where
  path : String
  operator : Operator
  type : FieldType
  value : FilterValue

def Test.passes (t : Test) (doc : Json) : Bool :=
  t.operator.test t.type t.value (doc.resolve? t.path)

end Listing
