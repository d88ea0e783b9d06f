import Listing.Query.CompactDate
import Listing.Text.Utf8

namespace Listing

namespace Text

theorem length_encodeUtf8_cons (c : Char) (cs : List Char) :
    (encodeUtf8 (c :: cs)).length = c.utf8Size + (encodeUtf8 cs).length := by
  simp [encodeUtf8]

theorem utf8Size_of_isDigit {c : Char} (h : c.isDigit = true) : c.utf8Size = 1 := by
  have hbounds : 48 ≤ c.toNat ∧ c.toNat ≤ 57 := Char.isDigit_iff_toNat.mp h
  have hsmall : c.val ≤ 127 := UInt32.le_iff_toNat_le.mpr (Nat.le_trans hbounds.2 (by decide))
  simp [Char.utf8Size, hsmall]

/-- Digits from 0 to 9 take one byte each. -/
theorem length_encodeUtf8_of_isDigit {cs : List Char} (h : ∀ c ∈ cs, c.isDigit = true) :
    (encodeUtf8 cs).length = cs.length := by
  induction cs with
  | nil => rfl
  | cons c cs ih =>
    rw [List.forall_mem_cons] at h
    rw [length_encodeUtf8_cons, utf8Size_of_isDigit h.1, ih h.2, List.length_cons, Nat.add_comm]

end Text

/-- What fills so many bytes is the beginning of the text that takes as many in UTF-8. -/
theorem takeBytes_eq_some_iff {n : Nat} {cs taken : List Char} :
    takeBytes n cs = some taken ↔ taken <+: cs ∧ (Text.encodeUtf8 taken).length = n := by
  induction cs generalizing n taken with
  | nil =>
    rw [takeBytes, List.prefix_nil]
    constructor
    · intro h
      split at h
      next hn =>
        cases h
        exact ⟨rfl, hn.symm⟩
      next => cases h
    · rintro ⟨rfl, hn⟩
      exact if_pos hn.symm
  | cons c cs ih =>
    have hc := Char.utf8Size_pos c
    rw [takeBytes, List.prefix_cons_iff]
    constructor
    · intro h
      split at h
      next hn =>
        cases h
        exact ⟨.inl rfl, hn.symm⟩
      next =>
        split at h
        next hle =>
          obtain ⟨rest, hrest, rfl⟩ := Option.map_eq_some_iff.mp h
          obtain ⟨hstart, hlength⟩ := ih.mp hrest
          refine ⟨.inr ⟨rest, rfl, hstart⟩, ?_⟩
          rw [Text.length_encodeUtf8_cons]
          omega
        next => cases h
    · rintro ⟨rfl | ⟨rest, rfl, hstart⟩, hlength⟩
      · exact if_pos hlength.symm
      · rw [Text.length_encodeUtf8_cons] at hlength
        have hrest : takeBytes (n - c.utf8Size) cs = some rest := ih.mpr ⟨hstart, by omega⟩
        rw [if_neg (by omega), if_pos (by omega), hrest, Option.map_some]

theorem takeBytes_append {ds : List Char} (h : ∀ c ∈ ds, c.isDigit = true) (rest : List Char) :
    takeBytes ds.length (ds ++ rest) = some ds :=
  takeBytes_eq_some_iff.mpr ⟨List.prefix_append ds rest, Text.length_encodeUtf8_of_isDigit h⟩

theorem takeBytes_eq_none {ds : List Char} (h : ∀ c ∈ ds, c.isDigit = true) {n : Nat}
    (hlength : ds.length < n) : takeBytes n ds = none := by
  rw [Option.eq_none_iff_forall_ne_some]
  intro taken htaken
  obtain ⟨hstart, hbytes⟩ := takeBytes_eq_some_iff.mp htaken
  rw [Text.length_encodeUtf8_of_isDigit fun c hc => h c (hstart.subset hc)] at hbytes
  have hle := hstart.length_le
  omega

/-- The digits of a text, of any script. -/
def Text.decimalDigits (s : String) : List Char := s.toList.filter isDecimalDigit

/-- The first eight digits of a date and a time of day after them, if it has as many. -/
def eightDigits? (date time : String) : Option String :=
  let digits := Text.decimalDigits date
  if 8 ≤ digits.length then some (String.ofList (digits.take 8) ++ time) else none

variable {date time out : String}

theorem compactDate?_eq_some_iff : compactDate? date time = some out ↔
    ∃ day, day <+: Text.decimalDigits date ∧ (Text.encodeUtf8 day).length = 8 ∧
      String.ofList day ++ time = out := by
  rw [compactDate?, Option.map_eq_some_iff]
  simp only [takeBytes_eq_some_iff, and_assoc]
  rfl

theorem eightDigits?_eq_some_iff : eightDigits? date time = some out ↔
    ∃ day, day <+: Text.decimalDigits date ∧ day.length = 8 ∧ String.ofList day ++ time = out := by
  dsimp only [eightDigits?]
  constructor
  · intro h
    split at h
    next hlength =>
      cases h
      exact ⟨_, List.take_prefix 8 _, List.length_take_of_le hlength, rfl⟩
    next => cases h
  · rintro ⟨day, hstart, hlength, rfl⟩
    have htake := List.prefix_iff_eq_take.mp hstart
    rw [hlength] at htake
    rw [if_pos (hlength ▸ hstart.length_le), ← htake]

/-- Eight bytes of the digits are eight digits exactly if no beginning of the digits has eight of
the one and not of the other. -/
theorem compactDate?_eq_iff : compactDate? date time = eightDigits? date time ↔
    ∀ day, day <+: Text.decimalDigits date →
      ((Text.encodeUtf8 day).length = 8 ↔ day.length = 8) := by
  constructor
  · intro h day hstart
    have hiff := congrArg (fun found => found = some (String.ofList day ++ time)) h
    simp only [compactDate?_eq_some_iff, eightDigits?_eq_some_iff, eq_iff_iff,
      String.append_left_inj, String.ofList_inj] at hiff
    constructor
    · intro hbytes
      obtain ⟨_, -, hlength, rfl⟩ := hiff.mp ⟨day, hstart, hbytes, rfl⟩
      exact hlength
    · intro hlength
      obtain ⟨_, -, hbytes, rfl⟩ := hiff.mpr ⟨day, hstart, hlength, rfl⟩
      exact hbytes
  · intro h
    ext out
    rw [compactDate?_eq_some_iff, eightDigits?_eq_some_iff]
    exact exists_congr fun day => and_congr_right fun hstart =>
      and_congr_left fun _ => h day hstart

/-- A date is cut after eight bytes of its digits and not after eight digits, which is the same for
digits from 0 to 9. -/
theorem compactDate?_cuts (date time : String) :
    (∀ out, compactDate? date time = some out ↔ ∃ day, day <+: Text.decimalDigits date ∧
      (Text.encodeUtf8 day).length = 8 ∧ String.ofList day ++ time = out) ∧
    (compactDate? date time = eightDigits? date time ↔ ∀ day, day <+: Text.decimalDigits date →
      ((Text.encodeUtf8 day).length = 8 ↔ day.length = 8)) ∧
    ((∀ c ∈ Text.decimalDigits date, c.isDigit = true) →
      compactDate? date time = eightDigits? date time) := by
  refine ⟨fun _ => compactDate?_eq_some_iff, compactDate?_eq_iff, fun hplain => ?_⟩
  rw [compactDate?_eq_iff]
  intro day hstart
  rw [Text.length_encodeUtf8_of_isDigit fun c hc => hplain c (hstart.subset hc)]

theorem compactDate?_cuts_january :
    (∀ c ∈ Text.decimalDigits "2024-01-31T10:30", c.isDigit = true) ∧
    compactDate? "2024-01-31T10:30" "235959" = some "20240131235959" := by
  have hplain : ∀ c ∈ Text.decimalDigits "2024-01-31T10:30", c.isDigit = true :=
    List.all_eq_true.mp (by decide +kernel)
  refine ⟨hplain, ?_⟩
  rw [(compactDate?_cuts _ _).2.2 hplain]
  decide +kernel

/-- Four digits of two bytes each are taken for a date, and eight of three bytes each are not. -/
theorem compactDate?_otherScripts :
    eightDigits? "\u0662\u0660\u0662\u0664" "000000" = none ∧
    compactDate? "\u0662\u0660\u0662\u0664" "000000" =
      some "\u0662\u0660\u0662\u0664000000" ∧
    eightDigits? "２０２４-０１-３１" "000000" = some "２０２４０１３１000000" ∧
    compactDate? "２０２４-０１-３１" "000000" = none := by
  refine ⟨?_, ?_, ?_, ?_⟩
  all_goals decide +kernel

end Listing
