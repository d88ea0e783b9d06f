import Listing.Text.Digit

namespace Listing

/-- The characters that fill exactly `n` bytes at the head of a text, if some do. -/
def takeBytes (n : Nat) : List Char → Option (List Char)
  | [] => if n = 0 then some [] else none
  | c :: rest =>
    if n = 0 then some []
    else if c.utf8Size ≤ n then (takeBytes (n - c.utf8Size) rest).map (c :: ·)
    else none

/-- The first eight bytes of the digits of a date, and a time of day after them. -/
def compactDate? (date time : String) : Option String :=
  (takeBytes 8 (date.toList.filter Text.isDecimalDigit)).map fun day =>
    String.ofList day ++ time

end Listing
