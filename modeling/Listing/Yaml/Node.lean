import Listing.Document
import Listing.Yaml.Token

namespace Listing

namespace Yaml

/-- A node of a document. A scalar that was left out is plain and empty, and a tag is its bytes. An
anchor has a number, by which an alias names the last node that was given this number. -/
inductive Node where
  | scalar (tag : Option (List UInt8)) (plain : Bool) (content : String)
  | sequence (items : List Node)
  | mapping (members : List (Node × Node))
  | alias (number : Nat)
  | anchored (number : Nat) (node : Node)

namespace Node

def blank : Node := .scalar none true ""

/-- The tokens that are left, and the anchors so far with their numbers, each name once. -/
structure Rest where
  tokens : List Token
  anchors : List (String × Nat)

def Rest.skip (r : Rest) : Rest := { r with tokens := r.tokens.drop 1 }

/-- Whether one of some tokens follows. -/
def Rest.isAt (r : Rest) (ends : List Token) : Bool := r.tokens.head?.any fun t => ends.contains t

/-- The anchor and the tag before a node, in either order. -/
def properties (tokens : List Token) :
    Option String × Option (String × List UInt8) × List Token :=
  match tokens with
  | .anchor name :: .tag handle rest :: tokens => (some name, some (handle, rest), tokens)
  | .tag handle rest :: .anchor name :: tokens => (some name, some (handle, rest), tokens)
  | .anchor name :: tokens => (some name, none, tokens)
  | .tag handle rest :: tokens => (none, some (handle, rest), tokens)
  | tokens => (none, none, tokens)

/-- The handles for tags, and what they stand for. -/
abbrev Handles := List (String × List UInt8)

/-- The full form of a tag, whose handle has to be known. -/
def fullTag? (handles : Handles) :
    Option (String × List UInt8) → Option (Option (List UInt8))
  | none => some none
  | some (handle, rest) =>
    if handle = "" then some (some rest)
    else (handles.lookup handle).map fun start => some (start ++ rest)

mutual

/-- Reads a node. In a `block` block collections may start, and with `entries` also a sequence at
the column of the mapping around it. The number of an anchor is the number of names before it. -/
def read? (handles : Handles) (block entries : Bool) : Nat → Rest →
    Option (Node × Rest)
  | 0, _ => none
  | fuel + 1, r =>
    match r.tokens with
    | .alias name :: _ => (r.anchors.lookup name).map fun number => (.alias number, r.skip)
    | tokens => do
      let (anchor, tag, tokens) := properties tokens
      let tag ← fullTag? handles tag
      let named := anchor.isSome || tag.isSome
      match anchor with
      | none => readContent? handles block entries named tag fuel ⟨tokens, r.anchors⟩
      | some name =>
        let number := r.anchors.length
        let anchors := (name, number) :: r.anchors.filter fun (other, _) => other ≠ name
        let (node, r) ← readContent? handles block entries named tag fuel ⟨tokens, anchors⟩
        return (.anchored number node, r)

/-- Reads a node after its properties; a node with properties may be left out. -/
def readContent? (handles : Handles) (block entries named : Bool)
    (tag : Option (List UInt8)) : Nat → Rest → Option (Node × Rest)
  | 0, _ => none
  | fuel + 1, r =>
    match r.tokens with
    | .scalar plain content :: _ => some (.scalar tag plain content, r.skip)
    | .flowSequence :: _ =>
      (readFlowItems? handles true fuel r.skip).map fun (items, r) => (.sequence items, r)
    | .flowMapping :: _ =>
      (readFlowMembers? handles true fuel r.skip).map fun (members, r) => (.mapping members, r)
    | tokens =>
      if entries && tokens.head? = some .entry then
        (readEntries? handles fuel r).map fun (items, r) => (.sequence items, r)
      else if block && tokens.head? = some .blockSequence then
        (readBlockItems? handles fuel r.skip).map fun (items, r) => (.sequence items, r)
      else if block && tokens.head? = some .blockMapping then
        (readBlockMembers? handles fuel r.skip).map fun (members, r) => (.mapping members, r)
      else if named then some (.scalar tag true "", r)
      else none

/-- Reads a node, or a blank one where one of some tokens follows. -/
def readUnless? (handles : Handles) (block entries : Bool) (ends : List Token) :
    Nat → Rest → Option (Node × Rest)
  | 0, _ => none
  | fuel + 1, r =>
    if r.isAt ends then some (blank, r) else read? handles block entries fuel r

/-- Reads the value after a colon, or a blank one where there is no colon. -/
def readValue? (handles : Handles) (block : Bool) (ends : List Token) :
    Nat → Rest → Option (Node × Rest)
  | 0, _ => none
  | fuel + 1, r =>
    if r.isAt [.value] then readUnless? handles block block ends fuel r.skip else some (blank, r)

/-- Reads the entries of a sequence that stands at the column of the mapping around it. -/
def readEntries? (handles : Handles) : Nat → Rest → Option (List Node × Rest)
  | 0, _ => none
  | fuel + 1, r =>
    match r.tokens with
    | .entry :: _ => do
      let (item, r) ← readUnless? handles true false [.entry, .key, .value, .blockEnd] fuel r.skip
      let (items, r) ← readEntries? handles fuel r
      return (item :: items, r)
    | _ => some ([], r)

/-- Reads the entries of a block sequence up to its end. -/
def readBlockItems? (handles : Handles) : Nat → Rest → Option (List Node × Rest)
  | 0, _ => none
  | fuel + 1, r =>
    match r.tokens with
    | .entry :: _ => do
      let (item, r) ← readUnless? handles true false [.entry, .blockEnd] fuel r.skip
      let (items, r) ← readBlockItems? handles fuel r
      return (item :: items, r)
    | .blockEnd :: _ => some ([], r.skip)
    | _ => none

/-- Reads the members of a block mapping up to its end. -/
def readBlockMembers? (handles : Handles) :
    Nat → Rest → Option (List (Node × Node) × Rest)
  | 0, _ => none
  | fuel + 1, r =>
    match r.tokens with
    | .key :: _ => do
      let (key, r) ← readUnless? handles true true [.key, .value, .blockEnd] fuel r.skip
      let (value, r) ← readValue? handles true [.key, .value, .blockEnd] fuel r
      let (members, r) ← readBlockMembers? handles fuel r
      return ((key, value) :: members, r)
    | .blockEnd :: _ => some ([], r.skip)
    | _ => none

/-- Reads the items of a flow sequence up to its end; a pair is a mapping of one member. A comma
stands before every item but the first, and may stand before the end. -/
def readFlowItems? (handles : Handles) (first : Bool) :
    Nat → Rest → Option (List Node × Rest)
  | 0, _ => none
  | fuel + 1, r =>
    if r.isAt [.flowSequenceEnd] then some ([], r.skip)
    else if !first && !r.isAt [.flowEntry] then none
    else
      let r := if first then r else r.skip
      match r.tokens with
      | .flowSequenceEnd :: _ => some ([], r.skip)
      | .key :: _ => do
        let (key, r) ←
          if r.skip.isAt [.value, .flowEntry, .flowSequenceEnd] then some (blank, r.skip.skip)
          else read? handles false false fuel r.skip
        let (value, r) ← readValue? handles false [.flowEntry, .flowSequenceEnd] fuel r
        let (items, r) ← readFlowItems? handles false fuel r
        return (.mapping [(key, value)] :: items, r)
      | _ => do
        let (item, r) ← read? handles false false fuel r
        let (items, r) ← readFlowItems? handles false fuel r
        return (item :: items, r)

/-- Reads the members of a flow mapping up to its end; a member without a colon has a blank value.
-/
def readFlowMembers? (handles : Handles) (first : Bool) :
    Nat → Rest → Option (List (Node × Node) × Rest)
  | 0, _ => none
  | fuel + 1, r =>
    if r.isAt [.flowMappingEnd] then some ([], r.skip)
    else if !first && !r.isAt [.flowEntry] then none
    else
      let r := if first then r else r.skip
      match r.tokens with
      | .flowMappingEnd :: _ => some ([], r.skip)
      | .key :: _ => do
        let (key, r) ←
          readUnless? handles false false [.value, .flowEntry, .flowMappingEnd] fuel r.skip
        let (value, r) ← readValue? handles false [.flowEntry, .flowMappingEnd] fuel r
        let (members, r) ← readFlowMembers? handles false fuel r
        return ((key, value) :: members, r)
      | _ => do
        let (key, r) ← read? handles false false fuel r
        let (members, r) ← readFlowMembers? handles false fuel r
        return ((key, blank) :: members, r)

end

/-- The handles that every document knows. -/
def standardHandles : Handles :=
  [("!", Text.encodeUtf8 ['!']), ("!!", Text.encodeUtf8 "tag:yaml.org,2002:".toList)]

/-- The handles that the lines before a document declare, and the tokens after its start. Such lines
need a start, a version has to be 1.1 or 1.2 and stands once, and so does every handle. -/
def header? (versioned : Bool) (handles : Handles) :
    List Token → Option (Handles × List Token)
  | .version major minor :: rest =>
    if versioned || major ≠ 1 || (minor ≠ 1 && minor ≠ 2) then none
    else header? true handles rest
  | .handle name start :: rest =>
    if (handles.lookup name).isSome then none else header? versioned ((name, start) :: handles) rest
  | .documentStart :: rest => some (handles, rest)
  | _ => none

/-- Whether nothing stands between the start of a document and what follows. -/
def isBlankDocument : List Token → Bool
  | [] | .version _ _ :: _ | .handle _ _ :: _ | .documentStart :: _ | .documentEnd :: _ => true
  | _ => false

/-- The node of the only document of some tokens. Where there is no document, it is blank. -/
def ofTokens? (tokens : List Token) : Option Node := do
  let marked := match tokens with
    | .version _ _ :: _ | .handle _ _ :: _ | .documentStart :: _ => true
    | _ => false
  if tokens.isEmpty then return blank
  let (handles, tokens) ← if marked then header? false [] tokens else some ([], tokens)
  let (node, rest) ←
    if marked && isBlankDocument tokens then some (blank, tokens)
    else
      (read? (handles ++ standardHandles) true false (4 * tokens.length + 8) ⟨tokens, []⟩).map
        fun (node, r) => (node, r.tokens)
  if (rest.dropWhile (· = .documentEnd)).isEmpty then return node else none

/-- The node of the only document of a text. -/
def parse? (s : String) : Option Node := (Token.ofText? s).bind ofTokens?

mutual

/-- Puts the anchored nodes of a node before others, the last one first. -/
def anchorsOnto (others : List (Nat × Node)) : Node → List (Nat × Node)
  | .anchored number node => anchorsOnto ((number, node) :: others) node
  | .sequence items => itemAnchorsOnto others items
  | .mapping members => memberAnchorsOnto others members
  | _ => others

def itemAnchorsOnto (others : List (Nat × Node)) : List Node → List (Nat × Node)
  | [] => others
  | item :: rest => itemAnchorsOnto (anchorsOnto others item) rest

def memberAnchorsOnto (others : List (Nat × Node)) : List (Node × Node) → List (Nat × Node)
  | [] => others
  | (key, value) :: rest => memberAnchorsOnto (anchorsOnto (anchorsOnto others key) value) rest

end

mutual

/-- The number of scalars and aliases, and of the starts and ends of collections. -/
def size : Node → Nat
  | .scalar _ _ _ | .alias _ => 1
  | .sequence items => itemsSize items + 2
  | .mapping members => membersSize members + 2
  | .anchored _ node => size node

def itemsSize : List Node → Nat
  | [] => 0
  | item :: rest => size item + itemsSize rest

def membersSize : List (Node × Node) → Nat
  | [] => 0
  | (key, value) :: rest => size key + size value + membersSize rest

end

/-- The words that a plain scalar uses for no value. -/
def isNullWord (s : String) : Bool := s = "~" || s = "null" || s = "Null" || s = "NULL"

def nullTag : List UInt8 := Text.encodeUtf8 "tag:yaml.org,2002:null".toList

end Node

/-- A reading that may fail, and that may follow only so many aliases. -/
abbrev Reading := StateT Nat Option

/-- A node with the nodes that the aliases in it stand for. -/
structure Linked where
  anchors : List (Nat × Node)
  node : Node

namespace Linked

/-- The node that an alias stands for. -/
def follow (n : Linked) : Reading Linked := do
  match n.node with
  | .alias number =>
    let left ← get
    if left = 0 then failure
    set (left - 1)
    return { n with node := ← (n.anchors.lookup number).getM }
  | .anchored _ node => return { n with node := node }
  | _ => return n

def text? (n : Linked) : Reading String := do
  match (← n.follow).node with
  | .scalar _ _ content => return content
  | _ => failure

/-- The members of a record, whose keys are scalars. A blank node is a record without members. -/
def record? (names : List String) (n : Linked) : Reading (List (String × Linked)) := do
  match (← n.follow).node with
  | .mapping members =>
    let members ← members.mapM fun (key, value) =>
      return (← text? { n with node := key }, { n with node := value })
    (Document.knownMembers? names members).getM
  | .scalar _ true "" => return []
  | _ => failure

/-- The items of a list. A blank node is a list without items. -/
def items? (n : Linked) : Reading (List Linked) := do
  match (← n.follow).node with
  | .sequence items => return items.map fun item => { n with node := item }
  | .scalar _ true "" => return []
  | _ => failure

/-- The name in a tag that starts with an exclamation mark. -/
def tagName? (tag : List UInt8) : Option String :=
  if tag.head? = some 0x21 then Text.decodeUtf8? (tag.drop 1) else none

/-- A name is a scalar, or it stands in the tag of one that has no value. -/
def name? (n : Linked) : Reading String := do
  match (← n.follow).node with
  | .scalar tag plain content =>
    match tag.bind tagName? with
    | some name =>
      if plain && (content = "" || Node.isNullWord content) then return name else failure
    | none => return content
  | _ => failure

/-- A plain scalar stands for no value if it is blank or a word for no value, unless it has a tag of
its own. One with the tag for no value has to be such a word. -/
def isAbsent (n : Linked) : Reading Bool :=
  match n.node with
  | .scalar none true content => return content = "" || Node.isNullWord content
  | .scalar (some tag) true content =>
    if tag ≠ Node.nullTag then return false
    else if Node.isNullWord content then return true
    else failure
  | _ => return false

instance : Document Linked Reading where
  follow := follow
  record? := record?
  items? := items?
  text? := text?
  name? := name?
  absent := isAbsent

end Linked

/-- Reads from the root of a document, following a hundred times as many aliases as the document is
large, and no more. -/
def Node.interpret? {α : Type} (root : Node) (read : Linked → Reading α) : Option α :=
  (read ⟨root.anchorsOnto [], root⟩).run' (100 * root.size)

end Yaml

end Listing
