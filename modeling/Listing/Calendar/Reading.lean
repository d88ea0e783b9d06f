import Listing.Calendar.Date
import Listing.Calendar.Instant
import Listing.Text.Blank
import Listing.Text.Digit

namespace Listing

namespace Calendar

/-- The number in the digits at the head of a text, at least `least` and at most `most` of them. -/
def readDigits (least most : Nat) (cs : List Char) : Option (Nat × List Char) :=
  let digits := (cs.take most).takeWhile Char.isDigit
  if digits.length < least then none
  else some (Text.digitsValue digits, cs.drop digits.length)

/-- A number of one or two digits after any blanks. -/
def readPart (cs : List Char) : Option (Nat × List Char) := readDigits 1 2 (Text.trimStart cs)

/-- A year after any blanks: up to four digits, or a sign and any number of them. -/
def readYear (cs : List Char) : Option (Int × List Char) :=
  match Text.trimStart cs with
  | '-' :: rest => (readDigits 1 rest.length rest).map fun (n, rest) => (-(n : Int), rest)
  | '+' :: rest => (readDigits 1 rest.length rest).map fun (n, rest) => ((n : Int), rest)
  | rest => (readDigits 1 4 rest).map fun (n, rest) => ((n : Int), rest)

def expect (c : Char) : List Char → Option (List Char)
  | [] => none
  | d :: rest => if d = c then some rest else none

/-- The nanoseconds in the digits after a point, of which the first nine count. -/
def readNanos (cs : List Char) : Option (Nat × List Char) :=
  let digits := cs.takeWhile Char.isDigit
  let kept := digits.take 9
  if digits.isEmpty then none
  else some (Text.digitsValue kept * Nat.pow 10 (9 - kept.length), cs.dropWhile Char.isDigit)

/-- An optional fraction of a second. -/
def readFraction : List Char → Option (Nat × List Char)
  | '.' :: rest => readNanos rest
  | rest => some (0, rest)

/-- A time of day as it is written. -/
structure Clock where
  hour : Nat
  minute : Nat
  second : Nat
  nanos : Nat

/-- The instant of a date and a time of day in UTC, if both exist. A second 60 is a leap second, in
any minute. -/
def instantOf? (date : Date) (clock : Clock) : Option Instant :=
  if date.isValid && clock.hour < 24 && clock.minute < 60 && clock.second ≤ 60 then
    some ⟨date.dayNumber * 86400 +
        (clock.hour * 3600 + clock.minute * 60 + min clock.second 59 : Nat),
      clock.nanos + if clock.second = 60 then 1000000000 else 0⟩
  else none

def readDate (cs : List Char) : Option (Date × List Char) := do
  let (year, cs) ← readYear cs
  let cs ← expect '-' cs
  let (month, cs) ← readPart cs
  let cs ← expect '-' cs
  let (day, cs) ← readPart cs
  return (⟨year, month, day⟩, cs)

/-- Hours and minutes, and with `seconds` also seconds with an optional fraction. -/
def readClock (seconds : Bool) (cs : List Char) : Option (Clock × List Char) := do
  let (hour, cs) ← readPart cs
  let cs ← expect ':' cs
  let (minute, cs) ← readPart cs
  if seconds then
    let cs ← expect ':' cs
    let (second, cs) ← readPart cs
    let (nanos, cs) ← readFraction cs
    return (⟨hour, minute, second, nanos⟩, cs)
  else
    return (⟨hour, minute, 0, 0⟩, cs)

/-- What stands between a date and a time: a letter `T`, or blanks, of which there may be none. -/
inductive Gap where
  | letter
  | blanks
  deriving DecidableEq

def Gap.read : Gap → List Char → Option (List Char)
  | .letter, cs => expect 'T' cs
  | .blanks, cs => some (Text.trimStart cs)

/-- A date and a time without an offset, read as UTC. -/
def readLocal (gap : Gap) (seconds : Bool) (cs : List Char) : Option Instant := do
  let (date, cs) ← readDate cs
  let cs ← gap.read cs
  let (clock, rest) ← readClock seconds cs
  if rest.isEmpty then instantOf? date clock else none

/-- A date alone, read as its midnight. -/
def readDay (cs : List Char) : Option Instant := do
  let (date, rest) ← readDate cs
  if rest.isEmpty then instantOf? date ⟨0, 0, 0, 0⟩ else none

/-- The offset at the end of an RFC 3339 text in seconds: `Z`, or a sign with hours and minutes that
make less than a day. -/
def readOffset (cs : List Char) : Option Int := do
  match cs with
  | ['Z'] | ['z'] => return 0
  | c :: cs =>
    let negative ←
      if c = '+' then some false else if c = '-' ∨ c = '\u2212' then some true else none
    let (hours, cs) ← readDigits 2 2 cs
    let cs ← expect ':' cs
    let (minutes, rest) ← readDigits 2 2 cs
    let offset : Nat := hours * 3600 + minutes * 60
    if rest.isEmpty && minutes < 60 && offset < 86400 then
      return if negative then -(offset : Int) else offset
    else none
  | [] => none

/-- A date and a time with an offset in the form of RFC 3339, with `T`, `t` or one space between. -/
def readRfc3339 (cs : List Char) : Option Instant := do
  let (year, cs) ← readDigits 4 4 cs
  let cs ← expect '-' cs
  let (month, cs) ← readDigits 2 2 cs
  let cs ← expect '-' cs
  let (day, cs) ← readDigits 2 2 cs
  let cs ← expect 'T' cs <|> expect 't' cs <|> expect ' ' cs
  let (hour, cs) ← readDigits 2 2 cs
  let cs ← expect ':' cs
  let (minute, cs) ← readDigits 2 2 cs
  let cs ← expect ':' cs
  let (second, cs) ← readDigits 2 2 cs
  let (nanos, cs) ← readFraction cs
  let offset ← readOffset cs
  let t ← instantOf? ⟨year, month, day⟩ ⟨hour, minute, second, nanos⟩
  return ⟨t.seconds - offset, t.nanos⟩

/-- The readers of dates in the order in which they are tried. -/
def readers : List (List Char → Option Instant) :=
  [readRfc3339, readLocal .letter true, readLocal .letter false, readLocal .blanks true,
    readLocal .blanks false, readDay]

/-- The instant that a text names, without regard to blanks around it. -/
def Instant.parse? (s : String) : Option Instant :=
  let cs := Text.trimmed s.toList
  readers.findSome? fun reader => reader cs

end Calendar

end Listing
