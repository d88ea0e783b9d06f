namespace Listing

/-- Why a schema, a state or a name is refused. -/
inductive Fault where
  | unavailable
  | unreadable
  | duplicateField (key : String)
  | invalidSortOption (value : String)
  | incompatibleOperator (key operator type : String)
  | unknownDateRangeField (field : String)
  | unknownOperator (name : String)
  | unknownFieldType (name : String)
  | unknownDirection (name : String)
  deriving DecidableEq

namespace Fault

def code : Fault → String
  | .unavailable => "CONFIG_IO_ERROR"
  | .unreadable => "CONFIG_FORMAT_ERROR"
  | .duplicateField _ => "DUPLICATE_FIELD"
  | .invalidSortOption _ => "INVALID_SORT_OPTION"
  | .incompatibleOperator _ _ _ => "INCOMPATIBLE_OPERATOR"
  | .unknownDateRangeField _ => "UNKNOWN_DATE_RANGE_FIELD"
  | .unknownOperator _ => "UNKNOWN_OPERATOR"
  | .unknownFieldType _ => "UNKNOWN_FIELD_TYPE"
  | .unknownDirection _ => "INVALID_SORT_DIRECTION"

/-- What is said of a fault. A text that cannot be had or read has its code only. -/
def message? : Fault → Option String
  | .unavailable | .unreadable => none
  | .duplicateField key => some ("Filter field '" ++ key ++ "' is declared more than once")
  | .invalidSortOption value =>
    some ("Invalid sort option '" ++ value ++ "': expected 'field:asc' or 'field:desc'")
  | .incompatibleOperator key operator type =>
    some ("Operator '" ++ operator ++ "' is not compatible with " ++ type ++ " field '" ++ key ++
      "'")
  | .unknownDateRangeField field =>
    some ("Date range field '" ++ field ++ "' is not declared in dateRangeFields")
  | .unknownOperator name => some ("Unknown operator: " ++ name)
  | .unknownFieldType name => some ("Unknown field type: " ++ name)
  | .unknownDirection name => some ("Unknown sort direction: " ++ name)

end Fault

end Listing
