import Listing.Json.Basic

namespace Listing

namespace Json

/-- A document as it was written: members keep their order and repetitions. A quoted text with a
lone surrogate and a number too large for a double are well-formed, but stand for no value. -/
inductive Written where
  | null
  | bool (value : Bool)
  | number (value : Option Numeral)
  | text (content : Option String)
  | array (items : List Written)
  | object (members : List (Option String × Written))

mutual

/-- The document as it would be written. -/
def written : Json → Written
  | .null => .null
  | .bool value => .bool value
  | .number value => .number (some value)
  | .text value => .text (some value)
  | .array items => .array (writtenItems items)
  | .object members => .object (writtenMembers members)

def writtenItems : List Json → List Written
  | [] => []
  | item :: rest => item.written :: writtenItems rest

def writtenMembers : List (String × Json) → List (Option String × Written)
  | [] => []
  | (key, value) :: rest => (some key, value.written) :: writtenMembers rest

end

namespace Written

mutual

/-- The document that was written, if all of it stands for a value. -/
def value? : Written → Option Json
  | .null => some .null
  | .bool value => some (.bool value)
  | .number value => value.map .number
  | .text content => content.map .text
  | .array items => (valueItems? items).map .array
  | .object members => (valueMembers? members).map ofMembers

def valueItems? : List Written → Option (List Json)
  | [] => some []
  | item :: rest => do return (← item.value?) :: (← valueItems? rest)

def valueMembers? : List (Option String × Written) → Option (List (String × Json))
  | [] => some []
  | (key, value) :: rest => do
    let key ← key
    let value ← value.value?
    return (key, value) :: (← valueMembers? rest)

end

end Written

end Json

end Listing
