import Listing.Double.Rounding

namespace Listing

/-- A number of a document: an integer, or a double. -/
inductive Numeral where
  | integer (n : Int)
  | decimal (d : Double)
  deriving DecidableEq

/-- The nearest double. -/
def Numeral.toDouble : Numeral → Double
  | .integer n => .ofInt n
  | .decimal d => d

/-- A document. The members of an object are pairs of a key and a value. -/
inductive Json where
  | null
  | bool (value : Bool)
  | number (value : Numeral)
  | text (value : String)
  | array (items : List Json)
  | object (members : List (String × Json))

namespace Json

def isNull : Json → Bool
  | .null => true
  | _ => false

/-- The content of a text. -/
def text? : Json → Option String
  | .text s => some s
  | _ => none

/-- Puts a member at its place among members sorted by key; a member of that key is replaced. -/
def insertMember (key : String) (value : Json) : List (String × Json) → List (String × Json)
  | [] => [(key, value)]
  | (k, v) :: rest =>
    match compare key k with
    | .lt => (key, value) :: (k, v) :: rest
    | .eq => (key, value) :: rest
    | .gt => (k, v) :: insertMember key value rest

/-- The object of some members, sorted by key, in which the last value of a key counts. -/
def ofMembers (members : List (String × Json)) : Json :=
  .object (members.foldl (fun sorted (k, v) => insertMember k v sorted) [])

/-- A text as a member of an object, or no member if there is no text. -/
def textMember (key : String) (value : Option String) : List (String × Json) :=
  match value with
  | some s => [(key, .text s)]
  | none => []

end Json

end Listing
