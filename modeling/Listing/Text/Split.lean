namespace Listing

namespace Text

/-- The pieces between the separators of a text, one more than it has separators. -/
def pieces (sep : Char) : List Char → List (List Char)
  | [] => [[]]
  | c :: rest =>
    match pieces sep rest with
    | [] => [[c]]
    | piece :: others => if c = sep then [] :: piece :: others else (c :: piece) :: others

/-- The texts with a separator between any two. -/
def joined (sep : Char) : List (List Char) → List Char
  | [] => []
  | [piece] => piece
  | piece :: next :: others => piece ++ sep :: joined sep (next :: others)

/-- The ways to cut a text at one of its first `count` separators, in their order. -/
def cuts (sep : Char) : Nat → List Char → List (List Char × List Char)
  | 0, _ => []
  | _, [] => []
  | count + 1, c :: rest =>
    if c = sep then
      ([], rest) :: (cuts sep count rest).map fun (before, after) => (c :: before, after)
    else (cuts sep (count + 1) rest).map fun (before, after) => (c :: before, after)

/-- What stands before and after the first separator. -/
def cutFirst (sep : Char) : List Char → Option (List Char × List Char)
  | [] => none
  | c :: rest =>
    if c = sep then some ([], rest)
    else (cutFirst sep rest).map fun (before, after) => (c :: before, after)

/-- Whether a text stands somewhere inside another. -/
def occurs (needle : List Char) : List Char → Bool
  | [] => needle.isEmpty
  | c :: rest => needle.isPrefixOf (c :: rest) || occurs needle rest

/-- What is left of a text when an ending is taken off. -/
def dropEnding? (ending text : List Char) : Option (List Char) :=
  if ending.isSuffixOf text then some (text.take (text.length - ending.length)) else none

def split (sep : Char) (s : String) : List String := (pieces sep s.toList).map String.ofList

def join (sep : Char) (parts : List String) : String :=
  String.ofList (joined sep (parts.map String.toList))

end Text

end Listing
