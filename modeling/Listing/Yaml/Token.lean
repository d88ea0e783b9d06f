import Listing.Text.Utf8
import Listing.Yaml.Scalar

namespace Listing

namespace Yaml

/-- The parts of a text. A block collection starts with its first entry and ends where the
indentation falls back. -/
inductive Token where
  | version (major minor : Nat)
  | handle (name : String) (start : List UInt8)
  | documentStart
  | documentEnd
  | blockSequence
  | blockMapping
  | blockEnd
  | flowSequence
  | flowSequenceEnd
  | flowMapping
  | flowMappingEnd
  | entry
  | flowEntry
  | key
  | value
  | alias (name : String)
  | anchor (name : String)
  | tag (handle : String) (rest : List UInt8)
  | scalar (plain : Bool) (content : String)
  deriving DecidableEq

/-- A place where a token may turn out to start a key: how many tokens came before it, and whether
it can be nothing else. -/
structure PossibleKey where
  before : Nat
  required : Bool
  line : Nat
  column : Nat
  bytes : Nat

/-- How far a text has been divided. `columns` holds the columns of the open block collections, the
innermost first, and `keys` the possible key of every flow collection around the innermost one and
of the block around them. -/
structure Lexer where
  cursor : Cursor
  tokens : Array Token
  columns : List Nat
  possible : Option PossibleKey
  keys : List (Option PossibleKey)
  keyAllowed : Bool

namespace Lexer

def ofChars (cs : List Char) : Lexer := ⟨⟨cs, 0, 0, 0⟩, #[], [], none, [], true⟩

def inFlow (s : Lexer) : Bool := !s.keys.isEmpty

/-- The least column of what belongs to the innermost block collection. -/
def leastColumn (s : Lexer) : Nat :=
  match s.columns with
  | [] => 0
  | column :: _ => column + 1

def push (s : Lexer) (t : Token) : Lexer := { s with tokens := s.tokens.push t }

/-- Pushes a token of `n` characters. -/
def pushSkip (s : Lexer) (t : Token) (n : Nat) : Lexer :=
  { s with tokens := s.tokens.push t, cursor := s.cursor.skip n }

/-- Goes on to the next token over blanks, comments and line breaks. A tab counts as a blank only
where no key can start, and a byte order mark only at the start of a line. A new line outside of
flow collections can start a key. -/
def skipGap (s : Lexer) : Lexer :=
  match _h : s.cursor.rest with
  | [] => s
  | c :: _ =>
    if c = ' ' || (c = '\t' && (s.inFlow || !s.keyAllowed)) ||
        (c = '\uFEFF' && s.cursor.column = 0) then
      skipGap { s with cursor := s.cursor.next }
    else if c = '#' then
      skipGap { s with cursor := s.cursor.next.skipWhile fun ch => !isBreak ch }
    else if isBreak c then
      skipGap { s with cursor := s.cursor.next, keyAllowed := s.keyAllowed || !s.inFlow }
    else s
termination_by s.cursor.rest.length
decreasing_by
  all_goals
    simp only [Cursor.skipWhile, Cursor.length_rest_skip, Cursor.rest_next, _h, List.tail_cons,
      List.length_cons]
    omega

/-- Whether it is too late for a colon: a key stands on one line with its colon, at most 1024 bytes
before it. -/
def isStale (s : Lexer) (k : PossibleKey) : Bool :=
  k.line < s.cursor.line || k.bytes + 1024 < s.cursor.bytes

/-- Forgets the possible key, which may not be required. -/
def dropKey? (s : Lexer) : Option Lexer :=
  if s.possible.any PossibleKey.required then none else some { s with possible := none }

/-- Notes that the token that starts here may be a key. -/
def saveKey? (s : Lexer) : Option Lexer :=
  if s.keyAllowed then
    s.dropKey?.map fun s => { s with
      possible := some {
        before := s.tokens.size
        required := !s.inFlow && s.columns.head? = some s.cursor.column
        line := s.cursor.line
        column := s.cursor.column
        bytes := s.cursor.bytes } }
  else some s

/-- Closes the block collections that stand right of a column, or all of them. -/
def closeBlocks (s : Lexer) (column : Option Nat) : Lexer :=
  if s.inFlow then s
  else
    let closed := s.columns.takeWhile fun c => column.all (· < c)
    { s with
      columns := s.columns.drop closed.length
      tokens := s.tokens ++ Array.replicate closed.length .blockEnd }

/-- Puts a token where `before` tokens come before it. -/
def insertToken (s : Lexer) (before : Nat) (t : Token) : Lexer :=
  { s with tokens := s.tokens.insertIdxIfInBounds before t }

/-- Opens a block collection at a column that stands right of the one around it. -/
def openBlock (s : Lexer) (before column : Nat) (t : Token) : Lexer :=
  if s.inFlow || s.columns.head?.any (column ≤ ·) then s
  else { s.insertToken before t with columns := column :: s.columns }

/-- Opens a block collection where the next token stands. -/
def openHere (s : Lexer) (t : Token) : Lexer := s.openBlock s.tokens.size s.cursor.column t

def openFlow? (s : Lexer) (t : Token) : Option Lexer :=
  s.saveKey?.map fun s =>
    { s.pushSkip t 1 with possible := none, keys := s.possible :: s.keys, keyAllowed := true }

def closeFlow? (s : Lexer) (t : Token) : Option Lexer :=
  s.dropKey?.map fun s => { s.pushSkip t 1 with
    possible := s.keys.head?.getD s.possible
    keys := s.keys.drop 1
    keyAllowed := false }

def flowEntry? (s : Lexer) : Option Lexer :=
  s.dropKey?.map fun s => { s.pushSkip .flowEntry 1 with keyAllowed := true }

/-- An entry of a block sequence; in a flow collection it is left for the parser to refuse. -/
def entry? (s : Lexer) : Option Lexer :=
  if !s.inFlow && !s.keyAllowed then none
  else (s.openHere .blockSequence).dropKey?.map fun s =>
    { s.pushSkip .entry 1 with keyAllowed := true }

/-- A question mark before a key. -/
def key? (s : Lexer) : Option Lexer :=
  if !s.inFlow && !s.keyAllowed then none
  else (s.openHere .blockMapping).dropKey?.map fun s =>
    { s.pushSkip .key 1 with keyAllowed := !s.inFlow }

/-- A colon before a value. The possible key becomes a key, and may open a mapping; one that is
stale is none, and may not be required. -/
def value? (s : Lexer) : Option Lexer :=
  if s.possible.any fun k => k.required && s.isStale k then none
  else
    match s.possible.filter fun k => !s.isStale k with
    | some k =>
      let s := (s.insertToken k.before .key).openBlock k.before k.column .blockMapping
      some { s.pushSkip .value 1 with possible := none, keyAllowed := false }
    | none =>
      if !s.inFlow && !s.keyAllowed then none
      else
        let s := s.openHere .blockMapping
        some { s.pushSkip .value 1 with possible := none, keyAllowed := !s.inFlow }

/-- A token that may be a key, read from the place where it starts. -/
def content? (s : Lexer) (read : Cursor → Option (Token × Cursor)) : Option Lexer := do
  let s ← s.saveKey?
  let (t, cursor) ← read s.cursor
  return { s.push t with cursor := cursor, keyAllowed := false }

def isNameChar (c : Char) : Bool := c.isAlphanum || c = '_' || c = '-'

/-- The name of an anchor or an alias. -/
def name? (make : String → Token) (c : Cursor) : Option (Token × Cursor) :=
  let name := c.next.rest.takeWhile isNameChar
  let after := c.next.skip name.length
  if name.isEmpty || !(endsWord after.rest ||
      after.rest.head?.any fun d => ['?', ':', ',', ']', '}', '%', '@', '\x60'].contains d) then
    none
  else some (make (String.ofList name), after)

/-- A character of a tag; the last three only inside angle brackets. -/
def isTagChar (enclosed : Bool) (c : Char) : Bool :=
  isNameChar c || [';', '/', '?', ':', '@', '&', '=', '+', '$', '.', '!', '~', '*', '\'', '(', ')',
    '%'].contains c || (enclosed && [',', '[', ']'].contains c)

/-- How many bytes go on with a character after its first byte. -/
def followers? (b : Nat) : Option Nat :=
  if b < 0x80 then some 0
  else if b < 0xC0 then none
  else if b < 0xE0 then some 1
  else if b < 0xF0 then some 2
  else if b < 0xF8 then some 3
  else none

/-- The bytes of a tag, in which a percent sign stands before two hexadecimal digits. All bytes of a
character are written like that, of which `missing` are still to come. -/
def tagBytes? (missing : Nat) : List Char → Option (List UInt8)
  | [] => if missing = 0 then some [] else none
  | '%' :: a :: b :: rest => do
    let byte := (← hexDigit? a) * 16 + (← hexDigit? b)
    let missing ←
      if missing = 0 then followers? byte
      else if 0x80 ≤ byte ∧ byte < 0xC0 then some (missing - 1)
      else none
    return UInt8.ofNat byte :: (← tagBytes? missing rest)
  | c :: rest =>
    if c = '%' ∨ missing ≠ 0 then none
    else (tagBytes? 0 rest).map (Text.encodeUtf8 [c] ++ ·)

/-- The bytes of the rest of a tag, which a zero byte ends, and how long it is written. -/
def tagRest? (enclosed : Bool) (cs : List Char) : Option (List UInt8 × Nat) := do
  let written := cs.takeWhile (isTagChar enclosed)
  let bytes ← tagBytes? 0 written
  return (bytes.takeWhile (· ≠ 0), written.length)

def loneTag : List UInt8 := Text.encodeUtf8 ['!']

/-- A tag: in angle brackets, after a handle between exclamation marks, or after one exclamation
mark, which may stand alone. -/
def tag? (inFlow : Bool) (c : Cursor) : Option (Token × Cursor) := do
  let (t, after) ←
    if c.next.rest.head? = some '<' then do
      let (bytes, size) ← tagRest? true (c.rest.drop 2)
      let stop := c.skip (size + 2)
      if size = 0 || stop.rest.head? ≠ some '>' then none else some (Token.tag "" bytes, stop.next)
    else do
      let name := c.next.rest.takeWhile isNameChar
      let after := c.next.skip name.length
      if after.rest.head? = some '!' then do
        let (bytes, size) ← tagRest? false after.next.rest
        let handle := String.ofList ('!' :: name ++ ['!'])
        if size = 0 then none else some (Token.tag handle bytes, after.next.skip size)
      else do
        let (bytes, size) ← tagRest? false c.next.rest
        let t := if bytes.isEmpty then Token.tag "" loneTag else Token.tag "!" bytes
        some (t, c.next.skip size)
  if endsWord after.rest || (inFlow && after.rest.head? = some ',') then some (t, after) else none

/-- The version of a document: two numbers around a point. -/
def version? (c : Cursor) : Option (Token × Cursor) :=
  let major := c.rest.takeWhile Char.isDigit
  let point := c.skip major.length
  let minor := point.next.rest.takeWhile Char.isDigit
  if major.isEmpty || minor.isEmpty || point.rest.head? ≠ some '.' || 9 < major.length ||
      9 < minor.length then none
  else
    let value (cs : List Char) : Nat := cs.foldl (fun n d => n * 10 + (d.toNat - '0'.toNat)) 0
    some (.version (value major) (value minor), point.next.skip minor.length)

/-- A handle for tags, and what it stands for. -/
def handle? (c : Cursor) : Option (Token × Cursor) := do
  let name := c.next.rest.takeWhile isNameChar
  let after := c.next.skip name.length
  let closed := after.rest.head? = some '!'
  let handle := String.ofList ('!' :: name ++ if closed then ['!'] else [])
  let after := if closed then after.next else after
  if c.rest.head? ≠ some '!' || (!closed && !name.isEmpty) || !after.rest.head?.any isBlank then
    none
  else
    let place := after.skipWhile isBlank
    let (start, size) ← tagRest? true place.rest
    let stop := place.skip size
    if size = 0 || !endsWord stop.rest then none else some (.handle handle start, stop)

/-- A line that starts with a percent sign. -/
def directive? (s : Lexer) : Option Lexer := do
  let s ← (s.closeBlocks none).dropKey?
  let name := s.cursor.next.rest.takeWhile isNameChar
  let after := s.cursor.next.skip name.length
  if !endsWord after.rest then none
  else
    let place := after.skipWhile isBlank
    let (t, stop) ←
      if name = ['Y', 'A', 'M', 'L'] then version? place
      else if name = ['T', 'A', 'G'] then handle? place
      else none
    let stop := stop.skipWhile isBlank
    let stop := if stop.rest.head? = some '#' then stop.skipWhile fun ch => !isBreak ch else stop
    if stop.rest.head?.all isBreak then
      return { s.push t with cursor := stop.next, keyAllowed := false }
    else none

def documentMark? (s : Lexer) (t : Token) : Option Lexer :=
  (s.closeBlocks none).dropKey?.map fun s => { s.pushSkip t 3 with keyAllowed := false }

def block? (s : Lexer) (folds : Bool) : Option Lexer := do
  let s ← s.dropKey?
  let (content, cursor) ← blockScalar? folds s.leastColumn s.cursor.next
  return { s.push (.scalar false (String.ofList content)) with
    cursor := cursor
    keyAllowed := true }

def quoted? (s : Lexer) (single : Bool) : Option Lexer :=
  s.content? fun c =>
    (quotedScalar? single c.next).map fun (content, cursor) =>
      (.scalar false (String.ofList content), cursor)

def plain? (s : Lexer) : Option Lexer := do
  let s ← s.saveKey?
  let (content, cursor, broken) ← plainScalar? s.inFlow s.leastColumn [] s.cursor
  return { s.push (.scalar true (String.ofList content)) with
    cursor := cursor
    keyAllowed := broken }

/-- Whether a plain scalar can start with a character before some text. -/
def startsPlain (inFlow : Bool) (c : Char) (rest : List Char) : Bool :=
  if c = '-' then !rest.head?.any isBlank
  else if c = '?' || c = ':' then !inFlow && !endsWord rest
  else !([',', '[', ']', '{', '}', '#', '&', '*', '!', '|', '>', '\'', '"', '%', '@',
    '\x60'].contains c) && !isGap c

/-- Reads the token at a character. -/
def token? (s : Lexer) (c : Char) (rest : List Char) : Option Lexer :=
  if s.cursor.column = 0 ∧ c = '%' then s.directive?
  else if s.cursor.isAtMark '-' then s.documentMark? .documentStart
  else if s.cursor.isAtMark '.' then s.documentMark? .documentEnd
  else if c = '[' then s.openFlow? .flowSequence
  else if c = '{' then s.openFlow? .flowMapping
  else if c = ']' then s.closeFlow? .flowSequenceEnd
  else if c = '}' then s.closeFlow? .flowMappingEnd
  else if c = ',' then s.flowEntry?
  else if c = '-' && endsWord rest then s.entry?
  else if c = '?' && (s.inFlow || endsWord rest) then s.key?
  else if c = ':' && (s.inFlow || endsWord rest) then s.value?
  else if c = '*' then s.content? (name? .alias)
  else if c = '&' then s.content? (name? .anchor)
  else if c = '!' then s.content? (tag? s.inFlow)
  else if c = '|' && !s.inFlow then s.block? false
  else if c = '>' && !s.inFlow then s.block? true
  else if c = '\'' then s.quoted? true
  else if c = '"' then s.quoted? false
  else if startsPlain s.inFlow c rest then s.plain?
  else none

/-- Reads tokens up to the end of the text. Every token takes a character. -/
def run? : Nat → Lexer → Option (List Token)
  | 0, _ => none
  | fuel + 1, s => do
    let s := s.skipGap
    let s := s.closeBlocks (some s.cursor.column)
    match s.cursor.rest with
    | [] =>
      let s ← (s.closeBlocks none).dropKey?
      return s.tokens.toList
    | c :: rest => run? fuel (← s.token? c rest)

end Lexer

def Token.ofText? (s : String) : Option (List Token) :=
  let cs := s.toList
  if cs.all isAllowed then Lexer.run? (cs.length + 2) (.ofChars (unified cs)) else none

end Yaml

end Listing
