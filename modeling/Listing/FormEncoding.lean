import Listing.Text.Split
import Listing.Text.Utf8

namespace Listing

/-! The form encoding of pairs of texts in a query. -/

namespace FormEncoding

/-- A byte that stands for itself: a letter or digit of ASCII, or one of `*`, `-`, `.` and `_`. -/
def isPlain (b : UInt8) : Bool :=
  let c := Char.ofNat b.toNat
  b < 0x80 && (c.isAlphanum || c = '*' || c = '-' || c = '.' || c = '_')

def encodeByte (b : UInt8) : List Char :=
  if isPlain b then [Char.ofNat b.toNat]
  else if b = 0x20 then ['+']
  else ['%', (Nat.digitChar (b.toNat / 16)).toUpper, (Nat.digitChar (b.toNat % 16)).toUpper]

def encodeText (s : String) : List Char := (Text.encodeUtf8 s.toList).flatMap encodeByte

def encode (pairs : List (String × String)) : String :=
  String.ofList <|
    Text.joined '&' (pairs.map fun (key, value) => encodeText key ++ '=' :: encodeText value)

def hexValue? (b : UInt8) : Option Nat :=
  let n := b.toNat
  if 0x30 ≤ n ∧ n ≤ 0x39 then some (n - 0x30)
  else if 0x41 ≤ n ∧ n ≤ 0x46 then some (n - 0x41 + 10)
  else if 0x61 ≤ n ∧ n ≤ 0x66 then some (n - 0x61 + 10)
  else none

/-- The bytes that an encoded text stands for: a plus is a space, a percent sign with two
hexadecimal digits is the byte they name, and everything else is itself. -/
def decodeBytes : List UInt8 → List UInt8
  | [] => []
  | b :: rest =>
    if b = 0x2B then 0x20 :: decodeBytes rest
    else if b = 0x25 then
      match rest with
      | high :: low :: tail =>
        match hexValue? high, hexValue? low with
        | some h, some l => UInt8.ofNat (h * 16 + l) :: decodeBytes tail
        | _, _ => b :: decodeBytes (high :: low :: tail)
      | short => b :: decodeBytes short
    else b :: decodeBytes rest

def decodeText (cs : List Char) : String :=
  String.ofList (Text.decodeUtf8Lossy (decodeBytes (Text.encodeUtf8 cs)))

/-- The pairs of a query. Empty pieces are left out, and a piece without an equals sign is a key
with an empty value. -/
def decode (query : String) : List (String × String) :=
  let pieces := (Text.pieces '&' query.toList).filter fun piece => !piece.isEmpty
  pieces.map fun piece =>
    let (key, value) := (Text.cutFirst '=' piece).getD (piece, [])
    (decodeText key, decodeText value)

end FormEncoding

end Listing
