import Listing.Yaml.Cursor

namespace Listing

namespace Yaml

/-- The blanks and line breaks between two words of a scalar. -/
structure Gap where
  blanks : List Char
  breaks : List Char

namespace Gap

/-- The gap in a row of blanks and breaks; blanks count only where there is no break. -/
def of (cs : List Char) : Gap :=
  let breaks := cs.filter isBreak
  ⟨if breaks.isEmpty then cs else [], breaks⟩

/-- What a gap leaves in the content: its blanks, or for one line break a space, or for several all
but the first. -/
def folded (g : Gap) : List Char :=
  match g.breaks with
  | [] => g.blanks
  | first :: more => if first = '\n' then (if more.isEmpty then [' '] else more) else first :: more

end Gap

/-- Whether one of the lines after the first has a tab before a column. -/
def hasTabBefore (column : Nat) (cs : List Char) : Bool :=
  let lines := cs.foldr
    (fun c lines => if isBreak c then [] :: lines else
      match lines with
      | [] => [[c]]
      | line :: more => (c :: line) :: more) [[]]
  lines.tail.any fun line => (line.take column).contains '\t'

/-- The word of a plain scalar at the head of a text. A colon ends it before a gap, and in a flow
collection it must not stand before an indicator, of which most end the word themselves. -/
def plainWord? (flow : Bool) : List Char → Option (List Char)
  | [] => some []
  | c :: rest =>
    if isGap c then some []
    else if flow && c = ':' &&
        rest.head?.any (fun d => [',', '?', '[', ']', '{', '}'].contains d) then none
    else if (c = ':' && endsWord rest) || (flow && [',', '[', ']', '{', '}'].contains c) then
      some []
    else (plainWord? flow rest).map (c :: ·)

/-- The content of a plain scalar, the place after it and after any gap, and whether that gap has a
line break. Outside of flow collections the scalar ends on a line that starts before the column
`indent`. -/
def plainScalar? (flow : Bool) (indent : Nat) (gap : List Char) (c : Cursor) :
    Option (List Char × Cursor × Bool) :=
  if c.isAtAnyMark || c.rest.head? = some '#' then some ([], c, gap.any isBreak)
  else do
    let word ← plainWord? flow c.rest
    let after := c.skip word.length
    let content := if word.isEmpty then [] else (Gap.of gap).folded ++ word
    let between := after.rest.takeWhile isGap
    let broken := if word.isEmpty then gap.any isBreak else false
    if between = [] then return (content, after, broken)
    else if hasTabBefore indent between then none
    else
      let later := after.skip between.length
      if flow || indent ≤ later.column then
        let (more, stop, broken) ← plainScalar? flow indent between later
        return (content ++ more, stop, broken)
      else return (content, later, true)
termination_by c.rest.length
decreasing_by
  have hb := List.length_pos_iff.mpr ‹between ≠ []›
  have hp : between.length ≤ after.rest.length := (List.takeWhile_prefix isGap).length_le
  have ha : after.rest.length = c.rest.length - word.length := c.length_rest_skip _
  refine Nat.lt_of_le_of_lt (Nat.le_of_eq (after.length_rest_skip between.length)) ?_
  omega

/-- A word inside single quotes, in which two quotes stand for one, and how long it is written. -/
def singleWord : List Char → List Char × Nat
  | '\'' :: '\'' :: rest =>
    let (word, size) := singleWord rest
    ('\'' :: word, size + 2)
  | [] => ([], 0)
  | c :: rest =>
    if c = '\'' || isGap c then ([], 0)
    else
      let (word, size) := singleWord rest
      (c :: word, size + 1)

/-- The character that a letter after a backslash stands for. -/
def escaped? (c : Char) : Option Char :=
  match c with
  | '0' => some (Char.ofNat 0)
  | 'a' => some (Char.ofNat 7)
  | 'b' => some (Char.ofNat 8)
  | 't' | '\t' => some '\t'
  | 'n' => some '\n'
  | 'v' => some (Char.ofNat 11)
  | 'f' => some (Char.ofNat 12)
  | 'r' => some '\r'
  | 'e' => some (Char.ofNat 27)
  | ' ' => some ' '
  | '"' => some '"'
  | '/' => some '/'
  | '\\' => some '\\'
  | 'N' => some '\u0085'
  | '_' => some '\u00A0'
  | 'L' => some '\u2028'
  | 'P' => some '\u2029'
  | _ => none

def hexDigit? (c : Char) : Option Nat :=
  if c.isDigit then some (c.toNat - '0'.toNat)
  else if 'a' ≤ c ∧ c ≤ 'f' then some (c.toNat - 'a'.toNat + 10)
  else if 'A' ≤ c ∧ c ≤ 'F' then some (c.toNat - 'A'.toNat + 10)
  else none

/-- The character whose code is given by hexadecimal digits. -/
def hexChar? (digits : List Char) : Option Char := do
  let values ← digits.mapM hexDigit?
  let code := values.foldl (fun n d => n * 16 + d) 0
  if (0xD800 ≤ code ∧ code < 0xE000) ∨ 0x10FFFF < code then none else some (Char.ofNat code)

/-- How many hexadecimal digits follow a letter after a backslash. -/
def hexLength? (c : Char) : Option Nat :=
  match c with
  | 'x' => some 2
  | 'u' => some 4
  | 'U' => some 8
  | _ => none

/-- A word inside double quotes with its escapes, how long it is written, and whether it ends with
an escaped line break. -/
def doubleWord? : List Char → Option (List Char × Nat × Bool)
  | [] => some ([], 0, false)
  | c :: rest =>
    if c = '"' || isGap c then some ([], 0, false)
    else if c = '\\' then
      match rest with
      | [] => none
      | d :: rest =>
        if isBreak d then some ([], 2, true)
        else
          match hexLength? d with
          | some n =>
            if rest.length < n then none
            else do
              let ch ← hexChar? (rest.take n)
              let (word, size, joined) ← doubleWord? (rest.drop n)
              return (ch :: word, size + n + 2, joined)
          | none => do
            let ch ← escaped? d
            let (word, size, joined) ← doubleWord? rest
            return (ch :: word, size + 2, joined)
    else do
      let (word, size, joined) ← doubleWord? rest
      return (c :: word, size + 1, joined)
termination_by cs => cs.length
decreasing_by all_goals (simp only [List.length_cons, List.length_drop]; omega)

/-- The content of a quoted scalar after its opening quote, and the place after the closing one. A
text that goes on with neither a word nor a gap is at its end. -/
def quotedScalar? (single : Bool) (c : Cursor) : Option (List Char × Cursor) :=
  if c.isAtAnyMark ∨ c.rest = [] then none
  else do
    let (word, size, joined) ←
      if single then
        let (word, size) := singleWord c.rest
        some (word, size, false)
      else doubleWord? c.rest
    let after := c.skip size
    if after.rest.head? = some (if single then '\'' else '"') then return (word, after.next)
    else
      let between := after.rest.takeWhile isGap
      let gap := if joined then between.filter isBreak else (Gap.of between).folded
      if size = 0 ∧ between = [] then none
      else
        let (more, stop) ← quotedScalar? single (after.skip between.length)
        return (word ++ gap ++ more, stop)
termination_by c.rest.length
decreasing_by
  have hc := List.length_pos_iff.mpr (not_or.mp ‹¬(c.isAtAnyMark ∨ c.rest = [])›).2
  have ha : after.rest.length = c.rest.length - size := c.length_rest_skip _
  refine Nat.lt_of_le_of_lt (Nat.le_of_eq (after.length_rest_skip between.length)) ?_
  by_cases hs : size = 0
  · have hb := List.length_pos_iff.mpr fun hb => ‹¬(size = 0 ∧ between = [])› ⟨hs, hb⟩
    omega
  · omega

/-- What becomes of the line breaks at the end of a block scalar. -/
inductive Chomping where
  | strip
  | clip
  | keep
  deriving DecidableEq

/-- The indentation and the line breaks before a line of a block scalar that is not empty: the
breaks, the largest indentation among them, and the place. With `indent` zero any indentation is
taken. -/
def blockBreaks? (indent widest : Nat) (c : Cursor) : Option (List Char × Nat × Cursor) :=
  let spaces := (c.rest.takeWhile (· = ' ')).length
  let start := c.skip (if indent = 0 then spaces else min spaces (indent - c.column))
  let widest := max widest start.column
  if (indent = 0 || start.column < indent) && start.rest.head? = some '\t' then none
  else
    match _h : start.rest with
    | ch :: _ =>
      if isBreak ch then do
        let (breaks, widest, stop) ← blockBreaks? indent widest start.next
        return (ch :: breaks, widest, stop)
      else some ([], widest, start)
    | [] => some ([], widest, start)
termination_by c.rest.length
decreasing_by
  have hs : start.rest.length = c.rest.length - _ := c.length_rest_skip _
  refine Nat.lt_of_le_of_lt (Nat.le_of_eq (congrArg List.length start.rest_next)) ?_
  simp only [_h, List.length_cons, List.tail_cons] at hs ⊢
  omega

/-- The place after the breaks is no earlier than the one before them. -/
theorem length_rest_blockBreaks? {indent widest : Nat} {c : Cursor} {breaks : List Char} {w : Nat}
    {stop : Cursor} (h : blockBreaks? indent widest c = some (breaks, w, stop)) :
    stop.rest.length ≤ c.rest.length := by
  fun_induction blockBreaks? indent widest c generalizing breaks w stop
  case case1 => simp at h
  case case2 c _ start _ _ _ _ _ _ ih =>
    obtain ⟨⟨_, _, s⟩, hs, h⟩ := Option.bind_eq_some_iff.mp h
    obtain ⟨-, -, rfl⟩ : _ ∧ _ ∧ s = stop := by simpa using h
    have hn : start.next.rest.length = start.rest.length - 1 := by
      rw [Cursor.rest_next, List.length_tail]
    have hc : start.rest.length = c.rest.length - _ := c.length_rest_skip _
    have := ih hs
    omega
  case case3 | case4 =>
    cases h
    exact Nat.le_trans (Nat.le_of_eq (Cursor.length_rest_skip ..)) (Nat.sub_le ..)

/-- The lines of a block scalar that stand at the column `indent`. `lead` is the break that ends the
line before, `trail` the breaks of the empty lines after it, and `indented` says whether it began
with a blank. Folding turns a lone break between two lines that do not begin with blanks into a
space. -/
def blockLines? (folds : Bool) (chomping : Chomping) (indent : Nat) (lead trail : List Char)
    (indented : Bool) (c : Cursor) : Option (List Char × Cursor) :=
  match _h : c.rest with
  | first :: _ =>
    if c.column = indent then
      let joint :=
        if folds && lead = ['\n'] && !indented && !isBlank first then
          (if trail.isEmpty then [' '] else [])
        else lead
      let line := c.rest.takeWhile fun ch => !isBreak ch
      let after := c.skip line.length
      match _hb : blockBreaks? indent 0 after.next with
      | some (breaks, _, next) =>
        (blockLines? folds chomping indent (after.rest.take 1) breaks (isBlank first) next).map
          fun (more, stop) => (joint ++ trail ++ line ++ more, stop)
      | none => none
    else some (ending lead trail, c)
  | [] => some (ending lead trail, c)
termination_by c.rest.length
decreasing_by
  have hn := length_rest_blockBreaks? _hb
  have ha : after.rest.length = c.rest.length - line.length := c.length_rest_skip _
  have hc : c.rest.length ≠ 0 := by simp [_h]
  rw [Cursor.rest_next, List.length_tail] at hn
  omega
where
  ending (lead trail : List Char) : List Char :=
    match chomping with
    | .strip => []
    | .clip => lead
    | .keep => lead ++ trail

/-- The header of a block scalar: in either order how line breaks at its end are chomped and a digit
above zero for its indentation, of which both may be missing. -/
def blockHeader? (c : Cursor) : Option (Chomping × Nat × Cursor) :=
  let chomping? (ch : Char) : Option Chomping :=
    if ch = '+' then some .keep else if ch = '-' then some .strip else none
  let digit (c : Cursor) : Option (Nat × Cursor) :=
    match c.rest with
    | ch :: _ =>
      if ch = '0' then none
      else if ch.isDigit then some (ch.toNat - '0'.toNat, c.next)
      else some (0, c)
    | [] => some (0, c)
  match c.rest.head?.bind chomping? with
  | some chomping => (digit c.next).map fun (indent, c) => (chomping, indent, c)
  | none => (digit c).map fun (indent, c) =>
    match if indent = 0 then none else c.rest.head?.bind chomping? with
    | some chomping => (chomping, indent, c.next)
    | none => (.clip, indent, c)

/-- The content of a block scalar after its indicator, and the place after it. The content stands at
least at the column `least`, which is one past the column of the block around it. -/
def blockScalar? (folds : Bool) (least : Nat) (c : Cursor) : Option (List Char × Cursor) := do
  let (chomping, digit, c) ← blockHeader? c
  let c := c.skipWhile isBlank
  let c := if c.rest.head? = some '#' then c.skipWhile fun ch => !isBreak ch else c
  if !c.rest.head?.all isBreak then none
  else
    let given := if digit = 0 then 0 else least - 1 + digit
    let start := c.next
    let (breaks, widest, c) ← blockBreaks? given 0 start
    let indent := if given = 0 then max widest (max least 1) else given
    blockLines? folds chomping indent [] breaks false c

end Yaml

end Listing
