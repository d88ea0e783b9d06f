import Listing.Double.Shortest
import Listing.Text.Digit

namespace Listing

/-- How a finite double is written. `tieAway` says whether the larger of two equally near shortest
decimals is taken, `pointZero` whether integral values keep a `.0`, and `positional` for which
exponents of the first digit no exponent is written. -/
structure NumberStyle where
  tieAway : Bool
  pointZero : Bool
  positional : Int → Bool

namespace Decimal

/-- The digits with a decimal point and without an exponent. -/
def positionalText (pointZero : Bool) (d : Decimal) : String :=
  let digits := Nat.toDigits 10 d.digits
  let point := (digits.length : Int) + d.exponent
  String.ofList <|
    if 0 ≤ d.exponent then
      digits ++ List.replicate d.exponent.toNat '0' ++ (if pointZero then ['.', '0'] else [])
    else if 0 < point then digits.take point.toNat ++ '.' :: digits.drop point.toNat
    else '0' :: '.' :: (List.replicate (-point).toNat '0' ++ digits)

/-- One digit before the point, and a signed exponent. -/
def exponentText (d : Decimal) : String :=
  let digits := Nat.toDigits 10 d.digits
  let leading := (digits.length : Int) + d.exponent - 1
  let rest := digits.drop 1
  String.ofList <|
    digits.take 1 ++ (if rest.isEmpty then [] else '.' :: rest) ++
      'e' :: (if leading < 0 then '-' else '+') :: Nat.toDigits 10 leading.natAbs

/-- The decimal in a style. -/
def text (style : NumberStyle) (d : Decimal) : String :=
  if style.positional ((digitCount d.digits : Int) + d.exponent - 1) then
    d.positionalText style.pointZero
  else d.exponentText

end Decimal

namespace Double

def text (style : NumberStyle) : Double → String
  | .nan => "NaN"
  | .ranked negative rank =>
    (if negative then "-" else "") ++
      if rank.val < top then (Decimal.shortest style.tieAway rank.val).text style else "inf"

/-- Plain numbers never use an exponent and keep no `.0`. -/
def plain : NumberStyle := ⟨true, false, fun _ => true⟩

/-- Integral values below `10 ^ 15` are written as integers, so that negative zero is `0`; all
others are written plainly. -/
def display (d : Double) : String :=
  match d with
  | .ranked _ rank =>
    if d.isIntegral && weight rank.val < Nat.pow 10 15 * unit then toString d.toInt64
    else text plain d
  | .nan => text plain d

/-- The leading sign of a text, and what follows it. -/
def splitSign : List Char → Bool × List Char
  | '-' :: rest => (true, rest)
  | '+' :: rest => (false, rest)
  | rest => (false, rest)

/-- The exponent at the end of a number: nothing, or `e` with an optional sign and digits. -/
def readExponent : List Char → Option Int
  | [] => some 0
  | c :: rest =>
    if c = 'e' ∨ c = 'E' then
      let (negative, digits) := splitSign rest
      if digits.isEmpty || !digits.all Char.isDigit then none
      else some (if negative then -(Text.digitsValue digits : Int) else Text.digitsValue digits)
    else none

/-- An unsigned decimal: digits around an optional point, at least one, and an optional exponent. -/
def readDecimal (cs : List Char) : Option Decimal :=
  let whole := cs.takeWhile Char.isDigit
  let rest := cs.dropWhile Char.isDigit
  let (fraction, rest) := match rest with
    | '.' :: tail => (tail.takeWhile Char.isDigit, tail.dropWhile Char.isDigit)
    | _ => ([], rest)
  if whole.isEmpty && fraction.isEmpty then none
  else (readExponent rest).map fun e => ⟨Text.digitsValue (whole ++ fraction), e - fraction.length⟩

/-- Reads a number written with an optional sign, as `inf`, `infinity` or `nan` in any case, or as a
decimal; too large a decimal is infinite. -/
def parse? (s : String) : Option Double :=
  let (negative, body) := splitSign s.toList
  let word := body.map Char.toLower
  if word = ['n', 'a', 'n'] then some .nan
  else if word = ['i', 'n', 'f'] ∨ word = ['i', 'n', 'f', 'i', 'n', 'i', 't', 'y'] then
    some (.infinity negative)
  else (readDecimal body).map (Decimal.toDouble negative)

end Double

end Listing
