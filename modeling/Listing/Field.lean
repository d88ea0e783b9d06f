namespace Listing

/-- What the values of a field are. -/
inductive FieldType where
  | string
  | number
  | boolean
  | date
  | datetime
  | select
  | multiselect
  deriving DecidableEq

namespace FieldType

def all : List FieldType := [.string, .number, .boolean, .date, .datetime, .select, .multiselect]

def name : FieldType → String
  | .string => "string"
  | .number => "number"
  | .boolean => "boolean"
  | .date => "date"
  | .datetime => "datetime"
  | .select => "select"
  | .multiselect => "multiselect"

def ofName? (s : String) : Option FieldType := all.find? fun type => type.name = s

theorem ofName?_name (type : FieldType) : ofName? type.name = some type := by
  cases type <;> decide

/-- Whether values are texts or chosen from a list of texts. -/
def isTextual : FieldType → Bool
  | .string | .select | .multiselect => true
  | _ => false

/-- Whether values are days or points in time. -/
def isTemporal : FieldType → Bool
  | .date | .datetime => true
  | _ => false

end FieldType

/-- How the value of an item is tested against the value of a filter. -/
inductive Operator where
  | eq
  | like
  | startsWith
  | endsWith
  | isIn
  | gte
  | lte
  | gt
  | lt
  | between
  | range
  deriving DecidableEq

namespace Operator

def all : List Operator :=
  [.eq, .like, .startsWith, .endsWith, .isIn, .gte, .lte, .gt, .lt, .between, .range]

def name : Operator → String
  | .eq => "eq"
  | .like => "like"
  | .startsWith => "startsWith"
  | .endsWith => "endsWith"
  | .isIn => "in"
  | .gte => "gte"
  | .lte => "lte"
  | .gt => "gt"
  | .lt => "lt"
  | .between => "between"
  | .range => "range"

def ofName? (s : String) : Option Operator := all.find? fun op => op.name = s

theorem ofName?_name (op : Operator) : ofName? op.name = some op := by
  cases op <;> decide

/-- Whether the operator looks for a text inside a text. -/
def isTextMatch : Operator → Bool
  | .like | .startsWith | .endsWith => true
  | _ => false

/-- Whether the operator takes a pair of bounds. -/
def isRanged : Operator → Bool
  | .between | .range => true
  | _ => false

/-- Text operators go with textual fields and ranged ones with all but boolean fields; the others go
with every field. -/
def isCompatible (op : Operator) (type : FieldType) : Bool :=
  if op.isTextMatch then type.isTextual
  else if op.isRanged then type != .boolean
  else true

end Operator

end Listing
