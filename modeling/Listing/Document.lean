import Listing.Json.Written

namespace Listing

/-- A node of a document from which records can be read, by readings in `m` that may fail.

`record? names node` gives the members of a record whose members are called `names` in this order;
`follow node` is the node that a reference stands for, or the node itself; `absent` says that such a
node stands for no value where one is optional. -/
class Document (ν : Type) (m : outParam (Type → Type)) where
  follow : ν → m ν
  record? : List String → ν → m (List (String × ν))
  items? : ν → m (List ν)
  text? : ν → m String
  name? : ν → m String
  absent : ν → m Bool

namespace Document

variable {ν α : Type} {m : Type → Type}

/-- The members of a record that are known by name, if none of them is given twice. -/
def knownMembers? (names : List String) (members : List (String × ν)) :
    Option (List (String × ν)) :=
  let known := members.filter fun (key, _) => key ∈ names
  if (known.map Prod.fst).Nodup then some known else none

/-- A value that has to be there. -/
def given [Monad m] [MonadExcept Unit m] : Option α → m α
  | some a => pure a
  | none => throw ()

/-- A member that has to be there. -/
def required [Monad m] [MonadExcept Unit m] (members : List (String × ν)) (key : String)
    (read : ν → m α) : m α := do
  read (← given (members.lookup key))

/-- A member that takes a value of its own when it is not there. -/
def defaulted [Monad m] (members : List (String × ν)) (key : String) (default : α)
    (read : ν → m α) : m α :=
  match members.lookup key with
  | some node => read node
  | none => pure default

/-- A member that may be missing or stand for no value. -/
def optional [Monad m] [Document ν m] (members : List (String × ν)) (key : String)
    (read : ν → m α) : m (Option α) :=
  match members.lookup key with
  | some node => do
    let node ← follow node
    if ← absent node then return none else return some (← read node)
  | none => pure none

/-- All items of a list. -/
def list? [Monad m] [Document ν m] (read : ν → m α) (node : ν) : m (List α) := do
  (← items? node).mapM read

end Document

namespace Json.Written

/-- A member whose key can be read. -/
def keyed? (member : Option String × Written) : Option (String × Written) :=
  member.1.map fun key => (key, member.2)

/-- The members of a record: those of an object, or the items of an array in the order of the names,
of which the last ones may be left out. -/
def record? (names : List String) : Written → Option (List (String × Written))
  | .object members =>
    (members.mapM keyed?).bind (Document.knownMembers? names)
  | .array items => if items.length ≤ names.length then some (names.zip items) else none
  | _ => none

def items? : Written → Option (List Written)
  | .array items => some items
  | _ => none

def text? : Written → Option String
  | .text content => content
  | _ => none

/-- A name is a text, or the only key of an object whose value is null. -/
def name? : Written → Option String
  | .text content => content
  | .object [(key, .null)] => key
  | _ => none

def isNull : Written → Bool
  | .null => true
  | _ => false

instance : Document Written Option where
  follow := some
  record? := record?
  items? := items?
  text? := text?
  name? := name?
  absent node := some node.isNull

end Json.Written

end Listing
