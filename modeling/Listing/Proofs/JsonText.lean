import Listing.Proofs.JsonNumbers

namespace Listing

namespace Json

section Quotes

variable {rest : List Char}

/-- The code unit of a character before those of what follows. -/
def withUnit (unit : Nat) : Option (List Nat × List Char) → Option (List Nat × List Char) :=
  Option.map fun (units, rest) => (unit :: units, rest)

theorem readUnits_letter {c : Char} {unit : Nat} (hc : c ≠ 'u')
    (hunit : escapedChar? c = some unit) :
    readUnits ('\\' :: c :: rest) = withUnit unit (readUnits rest) := by
  simp [readUnits.eq_def ('\\' :: c :: rest), hc, hunit, withUnit, Option.map_eq_bind]

theorem readUnits_hex {a b : Nat} (ha : a < 16) (hb : b < 16) :
    readUnits ('\\' :: 'u' :: '0' :: '0' :: a.digitChar :: b.digitChar :: rest) =
      withUnit (a * 16 + b) (readUnits rest) := by
  have hdigit : ∀ n < 16, hexValue? n.digitChar = some n := by decide
  have hzero : hexValue? '0' = some 0 := by decide
  rw [readUnits, hzero, hdigit a ha, hdigit b hb, withUnit, Option.map_eq_bind]
  simp only [Option.bind_eq_bind, Option.bind_some, Nat.zero_mul, Nat.zero_add]
  rfl

theorem readUnits_plain {c : Char} (hquote : c ≠ '"') (hslash : c ≠ '\\')
    (hcontrol : ¬c.toNat < 0x20) :
    readUnits (c :: rest) = withUnit c.toNat (readUnits rest) := by
  simp [readUnits.eq_def (c :: rest), hslash, hcontrol, withUnit]

theorem readUnits_escaped (c : Char) :
    readUnits (escaped c ++ rest) = withUnit c.toNat (readUnits rest) := by
  unfold escaped
  iterate 7
    split
    next h =>
      rw [h]
      exact readUnits_letter (by decide) rfl
  split
  next h =>
    have hcode : c.toNat / 16 * 16 + c.toNat % 16 = c.toNat := by omega
    exact (readUnits_hex (by omega) (by omega)).trans (by rw [hcode]; rfl)
  next h => exact readUnits_plain ‹_› ‹_› h

theorem joinUnits_codes (cs : List Char) : joinUnits (cs.map Char.toNat) = some cs := by
  induction cs with
  | nil => rfl
  | cons c cs ih =>
    have hvalid : c.toNat < 0xD800 ∨ 0xDFFF < c.toNat := c.valid.imp id And.left
    rw [List.map_cons, joinUnits.eq_def]
    simp only
    rw [if_neg (by omega), if_neg (by omega), ih, Option.map_some, Char.ofNat_toNat]

theorem readUnits_flatMap_escaped (cs : List Char) :
    readUnits (cs.flatMap escaped ++ '"' :: rest) = some (cs.map Char.toNat, rest) := by
  induction cs with
  | nil => rfl
  | cons c cs ih =>
    rw [List.flatMap_cons, List.append_assoc, readUnits_escaped, ih]
    rfl

/-- Quoted text is read as it was before it was quoted. -/
theorem readQuoted_escaped (s : String) (rest : List Char) :
    readQuoted (s.toList.flatMap escaped ++ '"' :: rest) = some (some s, rest) := by
  simp only [readQuoted, readUnits_flatMap_escaped, Option.map_some, joinUnits_codes,
    String.ofList_toList]

end Quotes

mutual

/-- What a document is read back as from its text. -/
def printed : Json → Written
  | .null => .null
  | .bool value => .bool value
  | .number value => value.printed
  | .text value => .text (some value)
  | .array items => .array (printedItems items)
  | .object members => .object (printedMembers members)

def printedItems : List Json → List Written
  | [] => []
  | item :: rest => item.printed :: printedItems rest

def printedMembers : List (String × Json) → List (Option String × Written)
  | [] => []
  | (key, value) :: rest => (some key, value.printed) :: printedMembers rest

end

section Values

variable {rest cs : List Char} {fuel : Nat}

theorem toList_intercalate (part next : String) (parts : List String) :
    (String.intercalate "," (part :: next :: parts)).toList =
      part.toList ++ ',' :: (String.intercalate "," (next :: parts)).toList := by
  simp [String.toList_intercalate]

/-- The items of an array with commas between them. -/
def itemsText (items : List Json) : List Char :=
  (String.intercalate "," (compactItems items)).toList

/-- The members of an object with commas between them. -/
def membersText (members : List (String × Json)) : List Char :=
  (String.intercalate "," (compactMembers members)).toList

theorem itemsText_one (item : Json) : itemsText [item] = item.compact.toList := by
  simp [itemsText, compactItems]

theorem itemsText_cons (item next : Json) (items : List Json) :
    itemsText (item :: next :: items) = item.compact.toList ++ ',' :: itemsText (next :: items) := by
  rw [itemsText, compactItems, compactItems, toList_intercalate, itemsText, compactItems]

theorem membersText_one (key : String) (value : Json) :
    membersText [(key, value)] = (quoted key).toList ++ ':' :: value.compact.toList := by
  simp [membersText, compactMembers]

theorem membersText_cons (key : String) (value : Json) (next : String × Json)
    (members : List (String × Json)) :
    membersText ((key, value) :: next :: members) =
      (quoted key).toList ++ ':' :: (value.compact.toList ++ ',' :: membersText (next :: members)) := by
  rw [membersText, compactMembers, compactMembers, toList_intercalate, membersText, compactMembers]
  simp

theorem toList_compact_array (items : List Json) :
    (array items).compact.toList = '[' :: (itemsText items ++ [']']) := by
  rw [compact, String.toList_append, String.toList_append]
  rfl

theorem toList_compact_object (members : List (String × Json)) :
    (object members).compact.toList = '{' :: (membersText members ++ ['}']) := by
  rw [compact, String.toList_append, String.toList_append]
  rfl

theorem skipGap_cons {c : Char} (hc : isGap c = false) : skipGap (c :: rest) = c :: rest := by
  rw [skipGap, List.dropWhile_cons_of_neg (by simp [hc])]

theorem endsNumber_cons {c : Char} (hdigit : c.isDigit = false)
    (hc : c ≠ '.' ∧ c ≠ 'e' ∧ c ≠ 'E') : EndsNumber (c :: rest) := by
  intro d hd
  obtain rfl : c = d := by simpa using hd
  exact ⟨hdigit, hc⟩

/-- The characters that a number begins with. -/
def OpensNumber (c : Char) : Prop := c.isDigit = true ∨ c = '-'

theorem OpensNumber.ne {c d : Char} (h : OpensNumber c) (hdigit : d.isDigit = false)
    (hsign : d ≠ '-') : c ≠ d := by
  rintro rfl
  exact h.elim (fun hc => absurd (hdigit.symm.trans hc) (by decide)) hsign

theorem OpensNumber.isGap {c : Char} (h : OpensNumber c) : isGap c = false := by
  have hspace := h.ne (d := ' ') rfl (by decide)
  have hline := h.ne (d := '\n') rfl (by decide)
  have htab := h.ne (d := '\t') rfl (by decide)
  have hreturn := h.ne (d := '\r') rfl (by decide)
  simp [Json.isGap, hspace, hline, htab, hreturn]

theorem exists_opensNumber (negative : Bool) (p : NumberParts) :
    ∃ c tail, Double.signText negative ++ p.chars = c :: tail ∧ OpensNumber c := by
  cases negative with
  | true => exact ⟨_, _, rfl, .inr rfl⟩
  | false =>
    obtain ⟨c, tail, hchars, hc⟩ := exists_chars_eq p
    exact ⟨c, tail, hchars, .inl hc⟩

/-- What begins like a number is read as a number and as nothing else. -/
theorem readValue_number {c : Char} (hc : OpensNumber c) :
    readValue (fuel + 1) (c :: cs) =
      (readNumber (c :: cs)).map fun (value, rest) => (.number value, rest) := by
  rw [readValue, skipGap_cons hc.isGap]
  split
  iterate 6
    next heq => exact absurd (List.cons.inj heq).1 (hc.ne rfl (by decide))
  rfl

theorem readValue_text (n : Numeral) (h : EndsNumber rest) :
    readValue (fuel + 1) (n.text.toList ++ rest) = some (n.printed, rest) := by
  rcases n.text_cases with ⟨htext, hprinted⟩ | ⟨negative, p, htext, hprinted⟩
  · rw [htext, hprinted]
    rfl
  · obtain ⟨c, tail, hchars, hc⟩ := exists_opensNumber negative p
    have hread := readNumber_chars negative p h
    rw [← List.append_assoc, hchars] at hread
    rw [htext, hprinted, hchars, List.cons_append, readValue_number hc, ← List.cons_append, hread,
      Option.map_some]

theorem readItems_last {item : Written} (h : readValue fuel cs = some (item, ']' :: rest)) :
    readItems (fuel + 1) cs = some ([item], rest) := by
  simp [readItems, h, skipGap_cons, isGap]

theorem readItems_next {item : Written} {items : List Written} {others : List Char}
    (h : readValue fuel cs = some (item, ',' :: others))
    (hitems : readItems fuel others = some (items, rest)) :
    readItems (fuel + 1) cs = some (item :: items, rest) := by
  simp [readItems, h, hitems, skipGap_cons, isGap]

theorem readMembers_last {key : String} {value : Written}
    (h : readValue fuel cs = some (value, '}' :: rest)) :
    readMembers (fuel + 1) ((quoted key).toList ++ ':' :: cs) =
      some ([(some key, value)], rest) := by
  have hkey := readQuoted_escaped key (':' :: cs)
  simp [readMembers, quoted, hkey, h, skipGap_cons, isGap]

theorem readMembers_next {key : String} {value : Written} {members : List (Option String × Written)}
    {others : List Char} (h : readValue fuel cs = some (value, ',' :: others))
    (hmembers : readMembers fuel others = some (members, rest)) :
    readMembers (fuel + 1) ((quoted key).toList ++ ':' :: cs) =
      some ((some key, value) :: members, rest) := by
  have hkey := readQuoted_escaped key (':' :: cs)
  simp [readMembers, quoted, hkey, h, hmembers, skipGap_cons, isGap]

/-- The text of a document begins with neither a blank nor a closing bracket. -/
theorem exists_compact_eq (j : Json) :
    ∃ c tail, j.compact.toList = c :: tail ∧ isGap c = false ∧ c ≠ ']' := by
  cases j with
  | null => exact ⟨_, _, rfl, rfl, by decide⟩
  | bool value => cases value <;> exact ⟨_, _, rfl, rfl, by decide⟩
  | number value =>
    rw [compact]
    rcases value.text_cases with ⟨htext, -⟩ | ⟨negative, p, htext, -⟩
    · exact ⟨_, _, by rw [htext]; rfl, rfl, by decide⟩
    · obtain ⟨c, tail, hchars, hc⟩ := exists_opensNumber negative p
      exact ⟨c, tail, htext.trans hchars, hc.isGap, hc.ne rfl (by decide)⟩
  | text value => exact ⟨'"', _, by rw [compact, quoted, String.toList_ofList]; rfl, rfl, by decide⟩
  | array items => exact ⟨'[', _, toList_compact_array items, rfl, by decide⟩
  | object members => exact ⟨'{', _, toList_compact_object members, rfl, by decide⟩

theorem exists_itemsText_eq (item : Json) (items : List Json) :
    ∃ c tail, itemsText (item :: items) = c :: tail ∧ isGap c = false ∧ c ≠ ']' := by
  obtain ⟨c, tail, hitem, hc⟩ := exists_compact_eq item
  cases items with
  | nil => exact ⟨c, tail, by rw [itemsText_one, hitem], hc⟩
  | cons next items =>
    exact ⟨c, tail ++ ',' :: itemsText (next :: items),
      by rw [itemsText_cons, hitem, List.cons_append], hc⟩

theorem exists_membersText_eq (member : String × Json) (members : List (String × Json)) :
    ∃ tail, membersText (member :: members) = '"' :: tail := by
  obtain ⟨key, value⟩ := member
  have hquoted : (quoted key).toList = '"' :: (key.toList.flatMap escaped ++ ['"']) := by
    rw [quoted, String.toList_ofList, List.cons_append]
  cases members with
  | nil => exact ⟨_, by rw [membersText_one, hquoted, List.cons_append]⟩
  | cons next members => exact ⟨_, by rw [membersText_cons, hquoted, List.cons_append]⟩

theorem readValue_quoted (s : String) :
    readValue (fuel + 1) ((quoted s).toList ++ rest) = some (.text (some s), rest) := by
  have hread := readQuoted_escaped s rest
  simp [readValue, quoted, hread, skipGap_cons, isGap]

theorem readValue_items {c : Char} {items : List Written} (hgap : isGap c = false) (hc : c ≠ ']')
    (h : readItems fuel (c :: cs) = some (items, rest)) :
    readValue (fuel + 1) ('[' :: c :: cs) = some (.array items, rest) := by
  simp [readValue, skipGap_cons, isGap, skipGap_cons hgap, hc, h]

theorem readValue_members {members : List (Option String × Written)}
    (h : readMembers fuel ('"' :: cs) = some (members, rest)) :
    readValue (fuel + 1) ('{' :: '"' :: cs) = some (.object members, rest) := by
  simp [readValue, skipGap_cons, isGap, h]

end Values

section Documents

variable {fuel : Nat} {items : List Json} {members : List (String × Json)} (rest : List Char)

/-- Whether a document is read from its text, and nothing behind it, for any fuel above the length. -/
def Readable (j : Json) : Prop :=
  ∀ (fuel : Nat) (rest : List Char), j.compact.toList.length < fuel → EndsNumber rest →
    readValue fuel (j.compact.toList ++ rest) = some (j.printed, rest)

theorem readItems_itemsText (h : ∀ item ∈ items, item.Readable) (hne : items ≠ [])
    (hfuel : (itemsText items).length + 1 < fuel) :
    readItems fuel (itemsText items ++ ']' :: rest) = some (printedItems items, rest) := by
  induction items generalizing fuel with
  | nil => exact absurd rfl hne
  | cons item items ih =>
    obtain ⟨fuel, rfl⟩ := Nat.exists_eq_succ_of_ne_zero (Nat.ne_of_gt (Nat.zero_lt_of_lt hfuel))
    have hread : item.Readable := h item List.mem_cons_self
    cases items with
    | nil =>
      rw [itemsText_one] at hfuel ⊢
      exact readItems_last (hread _ _ (by omega) (endsNumber_cons rfl (by decide)))
    | cons next items =>
      rw [itemsText_cons] at hfuel ⊢
      simp only [List.length_cons, List.length_append] at hfuel
      have hitems := ih (fun other hother => h other (List.mem_cons_of_mem _ hother))
        (List.cons_ne_nil _ _) (by omega : _ < fuel)
      rw [List.append_assoc, List.cons_append]
      exact readItems_next (hread _ _ (by omega) (endsNumber_cons rfl (by decide))) hitems

theorem readMembers_membersText (h : ∀ member ∈ members, member.2.Readable) (hne : members ≠ [])
    (hfuel : (membersText members).length + 1 < fuel) :
    readMembers fuel (membersText members ++ '}' :: rest) = some (printedMembers members, rest) := by
  induction members generalizing fuel with
  | nil => exact absurd rfl hne
  | cons member members ih =>
    obtain ⟨fuel, rfl⟩ := Nat.exists_eq_succ_of_ne_zero (Nat.ne_of_gt (Nat.zero_lt_of_lt hfuel))
    obtain ⟨key, value⟩ := member
    have hread : value.Readable := h (key, value) List.mem_cons_self
    cases members with
    | nil =>
      rw [membersText_one] at hfuel ⊢
      simp only [List.length_cons, List.length_append] at hfuel
      rw [List.append_assoc, List.cons_append]
      exact readMembers_last (hread _ _ (by omega) (endsNumber_cons rfl (by decide)))
    | cons next members =>
      rw [membersText_cons] at hfuel ⊢
      simp only [List.length_cons, List.length_append] at hfuel
      have hmembers := ih (fun other hother => h other (List.mem_cons_of_mem _ hother))
        (List.cons_ne_nil _ _) (by omega : _ < fuel)
      rw [List.append_assoc, List.cons_append, List.append_assoc, List.cons_append]
      exact readMembers_next (hread _ _ (by omega) (endsNumber_cons rfl (by decide))) hmembers

theorem readable_array (h : ∀ item ∈ items, item.Readable) : (array items).Readable := by
  intro fuel rest hfuel hend
  obtain ⟨fuel, rfl⟩ := Nat.exists_eq_succ_of_ne_zero (Nat.ne_of_gt (Nat.zero_lt_of_lt hfuel))
  rw [toList_compact_array] at hfuel ⊢
  simp only [List.length_cons, List.length_append, List.length_nil] at hfuel
  cases items with
  | nil => rfl
  | cons item items =>
    have hitems := readItems_itemsText rest h (List.cons_ne_nil _ _) (by omega : _ < fuel)
    obtain ⟨c, tail, htext, hgap, hc⟩ := exists_itemsText_eq item items
    rw [htext, List.cons_append] at hitems
    rw [htext, printed]
    simpa using readValue_items hgap hc hitems

theorem readable_object (h : ∀ member ∈ members, member.2.Readable) :
    (object members).Readable := by
  intro fuel rest hfuel hend
  obtain ⟨fuel, rfl⟩ := Nat.exists_eq_succ_of_ne_zero (Nat.ne_of_gt (Nat.zero_lt_of_lt hfuel))
  rw [toList_compact_object] at hfuel ⊢
  simp only [List.length_cons, List.length_append, List.length_nil] at hfuel
  cases members with
  | nil => rfl
  | cons member members =>
    have hmembers := readMembers_membersText rest h (List.cons_ne_nil _ _)
      (by omega : _ < fuel)
    obtain ⟨tail, htext⟩ := exists_membersText_eq member members
    rw [htext, List.cons_append] at hmembers
    rw [htext, printed]
    simpa using readValue_members hmembers

theorem readable_leaf (j : Json) (h : ∀ (fuel : Nat) (rest : List Char), EndsNumber rest →
    readValue (fuel + 1) (j.compact.toList ++ rest) = some (j.printed, rest)) : j.Readable := by
  intro fuel rest hfuel hend
  obtain ⟨fuel, rfl⟩ := Nat.exists_eq_succ_of_ne_zero (Nat.ne_of_gt (Nat.zero_lt_of_lt hfuel))
  exact h fuel rest hend

theorem readable_bool (value : Bool) : (bool value).Readable := by
  refine readable_leaf (bool value) fun fuel rest _ => ?_
  cases value <;> rfl

theorem readable : ∀ j : Json, j.Readable
  | .null => readable_leaf null fun _ _ _ => rfl
  | .bool value => readable_bool value
  | .number value => readable_leaf (number value) fun _ _ hend => readValue_text value hend
  | .text value => readable_leaf (text value) fun _ _ _ => readValue_quoted value
  | .array items => readable_array fun item _ => item.readable
  | .object members => readable_object fun member _ => member.2.readable
termination_by j => sizeOf j
decreasing_by
  · have hlt := List.sizeOf_lt_of_mem ‹item ∈ items›
    rw [array.sizeOf_spec]
    omega
  · have hlt := List.sizeOf_lt_of_mem ‹member ∈ members›
    rw [Prod.mk.sizeOf_spec] at hlt
    rw [object.sizeOf_spec]
    omega

end Documents

/-- The text of any document is a document, with the numbers that a text can hold. -/
theorem Written.parse?_compact (j : Json) : Written.parse? j.compact = some j.printed := by
  have hend : EndsNumber [] := by intro c hc; cases hc
  have hread := j.readable _ [] (Nat.lt_succ_self _) hend
  rw [List.append_nil] at hread
  rw [Written.parse?, ← String.length_toList, hread]
  rfl

end Json

end Listing
