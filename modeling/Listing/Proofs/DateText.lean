import Listing.Calendar.Reading
import Listing.Proofs.Split
import Listing.Proofs.Trimming

namespace Listing

namespace Calendar

/-- Whether a text has neither a colon nor a dash. -/
def IsPlain (cs : List Char) : Prop := ':' ∉ cs ∧ '-' ∉ cs

instance (cs : List Char) : Decidable (IsPlain cs) := inferInstanceAs (Decidable (_ ∧ _))

theorem IsPlain.append {cs ds : List Char} (h : IsPlain cs) (h' : IsPlain ds) :
    IsPlain (cs ++ ds) :=
  ⟨by simp [h.1, h'.1], by simp [h.2, h'.2]⟩

theorem isPlain_of_isDigit {cs : List Char} (h : ∀ c ∈ cs, c.isDigit = true) : IsPlain cs :=
  ⟨fun hc => absurd (h _ hc) (by decide), fun hc => absurd (h _ hc) (by decide)⟩

theorem isPlain_of_isBlank {cs : List Char} (h : ∀ c ∈ cs, Text.isBlank c = true) : IsPlain cs :=
  ⟨fun hc => absurd (h _ hc) (by decide), fun hc => absurd (h _ hc) (by decide)⟩

/-- Whether a text has only blanks, digits and points, as a part of a time of day does. -/
def IsPart (cs : List Char) : Prop :=
  ∀ c ∈ cs, Text.isBlank c = true ∨ c.isDigit = true ∨ c = '.'

theorem IsPart.append {cs ds : List Char} (h : IsPart cs) (h' : IsPart ds) : IsPart (cs ++ ds) :=
  List.forall_mem_append.mpr ⟨h, h'⟩

theorem IsPart.isPlain {cs : List Char} (h : IsPart cs) : IsPlain cs :=
  ⟨fun hc => absurd (h _ hc) (by decide), fun hc => absurd (h _ hc) (by decide)⟩

/-- Whether a text has digits and nothing else. -/
def IsNumber (cs : List Char) : Prop := cs ≠ [] ∧ ∀ c ∈ cs, c.isDigit = true

variable {cs rest : List Char}

theorem eq_of_expect {c : Char} (h : expect c cs = some rest) : cs = c :: rest := by
  cases cs with
  | nil => cases h
  | cons d tail =>
    rw [expect] at h
    split at h
    next hd => rw [hd, Option.some.inj h]
    next => cases h

/-- Digits are read at the head of a text, and where fewer of them are read than could be no other
follows. -/
theorem digits_of_readDigits {least most n : Nat} (h : readDigits least most cs = some (n, rest)) :
    ∃ digits, cs = digits ++ rest ∧ (∀ c ∈ digits, c.isDigit = true) ∧
      n = Text.digitsValue digits ∧ least ≤ digits.length ∧ digits.length ≤ most ∧
        (digits.length < most → ∀ c ∈ rest.head?, c.isDigit = false) := by
  dsimp only [readDigits] at h
  split at h
  next => cases h
  next hleast =>
    cases h
    have hprefix := (List.takeWhile_prefix Char.isDigit).trans (List.take_prefix most cs)
    have hlength := (List.takeWhile_prefix (p := Char.isDigit) (l := cs.take most)).length_le
    refine ⟨(cs.take most).takeWhile Char.isDigit, (List.prefix_iff_eq_append.mp hprefix).symm,
      fun c hc => List.mem_takeWhile_imp hc, rfl, Nat.le_of_not_lt hleast,
      hlength.trans (List.length_take_le most cs), ?_⟩
    intro hfew c hc
    rw [← List.take_takeWhile] at hfew hc
    rw [List.length_take] at hfew
    have hdrop : cs.drop (cs.takeWhile Char.isDigit).length = cs.dropWhile Char.isDigit :=
      (congrArg (List.drop _) List.takeWhile_append_dropWhile.symm).trans List.drop_left
    have hnot := List.head?_dropWhile_not Char.isDigit cs
    rw [List.take_of_length_le (by omega), hdrop] at hc
    rwa [Option.mem_def.mp hc] at hnot

theorem eq_of_readDigits {least most n : Nat} (h : readDigits least most cs = some (n, rest)) :
    ∃ digits, cs = digits ++ rest ∧ IsPlain digits := by
  obtain ⟨digits, hcs, hdigits, -⟩ := digits_of_readDigits h
  exact ⟨digits, hcs, isPlain_of_isDigit hdigits⟩

/-- A part of a date is digits after blanks. -/
theorem number_of_readPart {n : Nat} (h : readPart cs = some (n, rest)) :
    ∃ blanks digits, cs = blanks ++ (digits ++ rest) ∧ (∀ c ∈ blanks, Text.isBlank c = true) ∧
      IsNumber digits ∧ n = Text.digitsValue digits ∧ digits.length ≤ 2 ∧
        (digits.length < 2 → ∀ c ∈ rest.head?, c.isDigit = false) := by
  obtain ⟨blanks, hcs, hblanks⟩ := Text.exists_blanks cs
  obtain ⟨digits, hdigits, hall, hn, hleast, hmost, hend⟩ := digits_of_readDigits h
  exact ⟨blanks, digits, by rw [← hdigits, ← hcs], hblanks,
    ⟨List.ne_nil_of_length_pos hleast, hall⟩, hn, hmost, hend⟩

theorem eq_of_readPart {n : Nat} (h : readPart cs = some (n, rest)) :
    ∃ part, cs = part ++ rest ∧ IsPart part := by
  obtain ⟨blanks, digits, hcs, hblanks, hdigits, -⟩ := number_of_readPart h
  refine ⟨blanks ++ digits, by rw [hcs, List.append_assoc], ?_⟩
  exact List.forall_mem_append.mpr
    ⟨fun c hc => .inl (hblanks c hc), fun c hc => .inr (.inl (hdigits.2 c hc))⟩

/-- A year is digits after blanks and a sign. -/
theorem number_of_readYear {n : Int} (h : readYear cs = some (n, rest)) :
    ∃ lead digits, cs = lead ++ (digits ++ rest) ∧
      (∀ c ∈ lead, Text.isBlank c = true ∨ c = '-' ∨ c = '+') ∧ IsNumber digits ∧
        n.natAbs = Text.digitsValue digits := by
  obtain ⟨blanks, hcs, hblanks⟩ := Text.exists_blanks cs
  have hyear : ∀ {most m : Nat} {tail : List Char} (sign : List Char),
      Text.trimStart cs = sign ++ tail → (∀ c ∈ sign, c = '-' ∨ c = '+') →
        readDigits 1 most tail = some (m, rest) →
          ∃ lead digits, cs = lead ++ (digits ++ rest) ∧
            (∀ c ∈ lead, Text.isBlank c = true ∨ c = '-' ∨ c = '+') ∧ IsNumber digits ∧
              m = Text.digitsValue digits := by
    intro most m tail sign htrim hsign hread
    obtain ⟨digits, hdigits, hall, hm, hleast, -⟩ := digits_of_readDigits hread
    refine ⟨blanks ++ sign, digits, ?_, ?_, ⟨List.ne_nil_of_length_pos hleast, hall⟩, hm⟩
    · rw [List.append_assoc, ← hdigits, ← htrim, ← hcs]
    · exact List.forall_mem_append.mpr
        ⟨fun c hc => .inl (hblanks c hc), fun c hc => .inr (hsign c hc)⟩
  unfold readYear at h
  split at h
  next tail htrim =>
    obtain ⟨_, hread, heq⟩ := Option.map_eq_some_iff.mp h
    cases heq
    simpa using hyear ['-'] htrim (by simp) hread
  next tail htrim =>
    obtain ⟨_, hread, heq⟩ := Option.map_eq_some_iff.mp h
    cases heq
    exact hyear ['+'] htrim (by simp) hread
  next =>
    obtain ⟨_, hread, heq⟩ := Option.map_eq_some_iff.mp h
    cases heq
    exact hyear [] rfl (by simp) hread

theorem readDigits_of_le {least least' most n : Nat} (hle : least' ≤ least)
    (h : readDigits least most cs = some (n, rest)) :
    readDigits least' most cs = some (n, rest) := by
  dsimp only [readDigits] at h ⊢
  split at h
  next => cases h
  next hleast =>
    rw [if_neg (by omega)]
    exact h

theorem exists_digit_of_readDigits {least most n : Nat} (hleast : 0 < least)
    (h : readDigits least most cs = some (n, rest)) :
    ∃ c tail, cs = c :: tail ∧ c.isDigit = true := by
  obtain ⟨digits, rfl, hdigits, -, hlength, -⟩ := digits_of_readDigits h
  obtain ⟨c, digits, rfl⟩ := List.exists_cons_of_length_pos (Nat.lt_of_lt_of_le hleast hlength)
  exact ⟨c, digits ++ rest, rfl, hdigits c List.mem_cons_self⟩

/-- Two digits are also read where one is enough and blanks may stand before them. -/
theorem readPart_of_readDigits {n : Nat} (h : readDigits 2 2 cs = some (n, rest)) :
    readPart cs = some (n, rest) := by
  obtain ⟨c, tail, rfl, hc⟩ := exists_digit_of_readDigits (by decide) h
  rw [readPart, Text.trimStart_cons (Text.isBlank_of_isDigit hc)]
  exact readDigits_of_le (by decide) h

theorem readYear_of_readDigits {n : Nat} (h : readDigits 4 4 cs = some (n, rest)) :
    readYear cs = some ((n : Int), rest) := by
  obtain ⟨c, tail, rfl, hc⟩ := exists_digit_of_readDigits (by decide) h
  have hread := readDigits_of_le (show 1 ≤ 4 by decide) h
  unfold readYear
  rw [Text.trimStart_cons (Text.isBlank_of_isDigit hc)]
  split
  next heq =>
    cases heq
    exact absurd hc (by decide)
  next heq =>
    cases heq
    exact absurd hc (by decide)
  next => rw [hread, Option.map_some]

theorem eq_of_readFraction {n : Nat} (h : readFraction cs = some (n, rest)) :
    ∃ fraction, cs = fraction ++ rest ∧ IsPart fraction := by
  unfold readFraction at h
  split at h
  next tail =>
    dsimp only [readNanos] at h
    split at h
    next => cases h
    next =>
      cases h
      refine ⟨'.' :: tail.takeWhile Char.isDigit, ?_, ?_⟩
      · rw [List.cons_append, List.takeWhile_append_dropWhile]
      · exact List.forall_mem_cons.mpr
          ⟨.inr (.inr rfl), fun c hc => .inr (.inl (List.mem_takeWhile_imp hc))⟩
  next =>
    cases h
    exact ⟨[], rfl, by simp [IsPart]⟩

/-- A date as it is written: numbers with dashes between them, the first one after blanks and a sign
and the others after blanks. -/
structure WrittenDate where
  lead : List Char
  year : List Char
  monthBlanks : List Char
  month : List Char
  dayBlanks : List Char
  day : List Char
  isLead : ∀ c ∈ lead, Text.isBlank c = true ∨ c = '-' ∨ c = '+'
  areBlank : ∀ c ∈ monthBlanks ++ dayBlanks, Text.isBlank c = true
  areNumbers : IsNumber year ∧ IsNumber month ∧ IsNumber day
  areShort : month.length ≤ 2 ∧ day.length ≤ 2

namespace WrittenDate

def text (w : WrittenDate) : List Char :=
  w.lead ++ (w.year ++ '-' :: (w.monthBlanks ++ (w.month ++ '-' :: (w.dayBlanks ++ w.day))))

/-- Whether a date has the numbers that are written, apart from the sign of its year. -/
def Names (w : WrittenDate) (date : Date) : Prop :=
  date.year.natAbs = Text.digitsValue w.year ∧ date.month = Text.digitsValue w.month ∧
    date.day = Text.digitsValue w.day

end WrittenDate

/-- Where a day is read with one digit no other follows. -/
theorem written_of_readDate {date : Date} (h : readDate cs = some (date, rest)) :
    ∃ w : WrittenDate, cs = w.text ++ rest ∧ w.Names date ∧
      (w.day.length < 2 → ∀ c ∈ rest.head?, c.isDigit = false) := by
  obtain ⟨⟨year, cs₁⟩, hyear, h⟩ := Option.bind_eq_some_iff.mp h
  obtain ⟨cs₂, hdash, h⟩ := Option.bind_eq_some_iff.mp h
  obtain ⟨⟨month, cs₃⟩, hmonth, h⟩ := Option.bind_eq_some_iff.mp h
  obtain ⟨cs₄, hdash', h⟩ := Option.bind_eq_some_iff.mp h
  obtain ⟨⟨day, cs₅⟩, hday, h⟩ := Option.bind_eq_some_iff.mp h
  cases h
  obtain ⟨lead, y, rfl, hlead, hy, hy'⟩ := number_of_readYear hyear
  obtain rfl := eq_of_expect hdash
  obtain ⟨blanks, m, rfl, hblanks, hm, hm', hshort, -⟩ := number_of_readPart hmonth
  obtain rfl := eq_of_expect hdash'
  obtain ⟨blanks', d, rfl, hblanks', hd, hd', hshort', hend⟩ := number_of_readPart hday
  refine ⟨⟨lead, y, blanks, m, blanks', d, hlead, List.forall_mem_append.mpr ⟨hblanks, hblanks'⟩,
    ⟨hy, hm, hd⟩, hshort, hshort'⟩, ?_, ⟨hy', hm', hd'⟩, hend⟩
  simp [WrittenDate.text]

/-- A date stands before the first colon and has two dashes. -/
theorem eq_of_readDate {date : Date} (h : readDate cs = some (date, rest)) :
    ∃ used, cs = used ++ rest ∧ ':' ∉ used ∧ 2 ≤ used.count '-' := by
  obtain ⟨w, hcs, -⟩ := written_of_readDate h
  obtain ⟨hyear, hmonth, hday⟩ := w.areNumbers
  obtain ⟨hblanks, hblanks'⟩ := List.forall_mem_append.mp w.areBlank
  have hlead : ':' ∉ w.lead := fun hc => absurd (w.isLead _ hc) (by decide)
  refine ⟨w.text, hcs, ?_, ?_⟩
  · simp [WrittenDate.text, hlead, (isPlain_of_isDigit hyear.2).1, (isPlain_of_isDigit hmonth.2).1,
      (isPlain_of_isDigit hday.2).1, (isPlain_of_isBlank hblanks).1,
      (isPlain_of_isBlank hblanks').1]
  · simp only [WrittenDate.text, List.count_append, List.count_cons_self]
    omega

/-- Hours, minutes and seconds are divided by colons. -/
theorem eq_of_readClock {seconds : Bool} {clock : Clock}
    (h : readClock seconds cs = some (clock, rest)) :
    ∃ hour minute, IsPart hour ∧ IsPart minute ∧ (cs = hour ++ ':' :: (minute ++ rest) ∨
      ∃ second, IsPart second ∧ cs = hour ++ ':' :: (minute ++ ':' :: (second ++ rest))) := by
  obtain ⟨⟨hour, cs₁⟩, hhour, h₁⟩ := Option.bind_eq_some_iff.mp h
  obtain ⟨cs₂, hcolon, h₂⟩ := Option.bind_eq_some_iff.mp h₁
  obtain ⟨⟨minute, cs₃⟩, hminute, h₃⟩ := Option.bind_eq_some_iff.mp h₂
  obtain ⟨hr, rfl, hhr⟩ := eq_of_readPart hhour
  obtain rfl := eq_of_expect hcolon
  obtain ⟨mi, rfl, hmi⟩ := eq_of_readPart hminute
  refine ⟨hr, mi, hhr, hmi, ?_⟩
  cases seconds with
  | false =>
    cases h₃
    exact .inl rfl
  | true =>
    obtain ⟨cs₄, hcolon', h₄⟩ := Option.bind_eq_some_iff.mp h₃
    obtain ⟨⟨second, cs₅⟩, hsecond, h₅⟩ := Option.bind_eq_some_iff.mp h₄
    obtain ⟨⟨nanos, cs₆⟩, hnanos, h₆⟩ := Option.bind_eq_some_iff.mp h₅
    cases h₆
    obtain rfl := eq_of_expect hcolon'
    obtain ⟨se, rfl, hse⟩ := eq_of_readPart hsecond
    obtain ⟨fr, rfl, hfr⟩ := eq_of_readFraction hnanos
    exact .inr ⟨se ++ fr, hse.append hfr, by simp⟩

/-- Whether a text has the colons and dashes of an offset: at most one dash before its only colon,
and none after it. -/
def IsZone (cs : List Char) : Prop :=
  IsPlain cs ∨ ∃ hours minutes, cs = hours ++ ':' :: minutes ∧ ':' ∉ hours ∧
    hours.count '-' ≤ 1 ∧ IsPlain minutes

theorem isZone_of_readOffset {offset : Int} (h : readOffset cs = some offset) : IsZone cs := by
  unfold readOffset at h
  split at h
  next => exact .inl (by decide)
  next => exact .inl (by decide)
  next c tail _ _ =>
    dsimp only at h
    have hc : c ≠ ':' := by
      rintro rfl
      cases h
    have hparts : ∃ hours cs₁ cs₂ minutes, readDigits 2 2 tail = some (hours, cs₁) ∧
        expect ':' cs₁ = some cs₂ ∧ readDigits 2 2 cs₂ = some (minutes, []) := by
      cases hhours : readDigits 2 2 tail with
      | none => simp [hhours] at h
      | some x =>
        cases hcolon : expect ':' x.2 with
        | none => simp [hhours, hcolon] at h
        | some cs₂ =>
          cases hminutes : readDigits 2 2 cs₂ with
          | none => simp [hhours, hcolon, hminutes] at h
          | some y =>
            obtain ⟨minutes, _ | _⟩ := y
            · exact ⟨x.1, x.2, cs₂, minutes, rfl, hcolon, hminutes⟩
            · simp [hhours, hcolon, hminutes] at h
    obtain ⟨hours, cs₁, cs₂, minutes, hhours, hcolon, hminutes⟩ := hparts
    obtain ⟨hs, rfl, hhs⟩ := eq_of_readDigits hhours
    obtain rfl := eq_of_expect hcolon
    obtain ⟨ms, rfl, hms⟩ := eq_of_readDigits hminutes
    refine .inr ⟨c :: hs, ms, by simp, by simp [hc.symm, hhs.1], ?_, hms⟩
    rw [List.count_cons, List.count_eq_zero_of_not_mem hhs.2]
    split <;> omega
  next => cases h

/-- Whether a text has the colons and dashes of a date: two dashes or more before its first colon,
at most three colons, and after each of them at most one dash before the next. -/
def IsDateLike (cs : List Char) : Prop :=
  ∃ head tails, Text.pieces ':' cs = head :: tails ∧ 2 ≤ head.count '-' ∧ tails.length ≤ 3 ∧
    ∀ t ∈ tails, t.count '-' ≤ 1

theorem isDateLike_append {head : List Char} (hcolon : ':' ∉ head) (hdashes : 2 ≤ head.count '-')
    {tails : List (List Char)} (htails : Text.pieces ':' rest = tails) (hlength : tails.length ≤ 3)
    (h : ∀ t ∈ tails, t.count '-' ≤ 1) : IsDateLike (head ++ ':' :: rest) :=
  ⟨head, tails, by rw [Text.pieces_append_sep hcolon, htails], hdashes, hlength, h⟩

theorem IsPlain.count_le {cs : List Char} (h : IsPlain cs) : cs.count '-' ≤ 1 := by
  rw [List.count_eq_zero_of_not_mem h.2]
  omega

/-- A text without an offset is a date, a gap, and a time of day that ends it. -/
theorem exists_of_readLocal {gap : Gap} {seconds : Bool} {t : Instant}
    (h : readLocal gap seconds cs = some t) : ∃ date rest tail clock,
      readDate cs = some (date, rest) ∧ gap.read rest = some tail ∧
        readClock seconds tail = some (clock, []) ∧ instantOf? date clock = some t := by
  obtain ⟨⟨date, rest⟩, hdate, h₁⟩ := Option.bind_eq_some_iff.mp h
  obtain ⟨tail, hgap, h₂⟩ := Option.bind_eq_some_iff.mp h₁
  obtain ⟨⟨clock, after⟩, hclock, h₃⟩ := Option.bind_eq_some_iff.mp h₂
  cases after with
  | cons => cases h₃
  | nil => exact ⟨date, rest, tail, clock, hdate, hgap, hclock, h₃⟩

/-- A date without an offset has a letter or blanks between it and its time of day. -/
theorem parts_of_readLocal {gap : Gap} {seconds : Bool} {t : Instant}
    (h : readLocal gap seconds cs = some t) : ∃ date clock between tail,
      readDate cs = some (date, between ++ tail) ∧
      (∀ c ∈ between, Text.isBlank c = true ∨ c = 'T') ∧
      readClock seconds tail = some (clock, []) ∧ instantOf? date clock = some t := by
  obtain ⟨date, rest, tail, clock, hdate, hgap, hclock, ht⟩ := exists_of_readLocal h
  cases gap with
  | letter =>
    obtain rfl := eq_of_expect hgap
    exact ⟨date, clock, ['T'], tail, hdate, by simp, hclock, ht⟩
  | blanks =>
    cases hgap
    obtain ⟨blanks, hrest, hblanks⟩ := Text.exists_blanks rest
    refine ⟨date, clock, blanks, Text.trimStart rest, ?_, fun c hc => .inl (hblanks c hc),
      hclock, ht⟩
    rw [← hrest, hdate]

/-- Behind a part of a time of day an offset has at most one colon. -/
theorem IsZone.pieces_append {part zone : List Char} (hpart : IsPlain part) (hzone : IsZone zone) :
    (Text.pieces ':' (part ++ zone)).length ≤ 2 ∧
      ∀ t ∈ Text.pieces ':' (part ++ zone), t.count '-' ≤ 1 := by
  rcases hzone with hplain | ⟨hours, minutes, rfl, hcolon, hdash, hplain⟩
  · rw [Text.pieces_of_not_mem (hpart.append hplain).1]
    exact ⟨by simp, List.forall_mem_singleton.mpr (hpart.append hplain).count_le⟩
  · have hhours : ':' ∉ part ++ hours := by simp [hpart.1, hcolon]
    have hcount : (part ++ hours).count '-' ≤ 1 := by
      rwa [List.count_append, List.count_eq_zero_of_not_mem hpart.2, Nat.zero_add]
    rw [← List.append_assoc, Text.pieces_append_sep hhours, Text.pieces_of_not_mem hplain.1]
    exact ⟨by simp,
      List.forall_mem_cons.mpr ⟨hcount, List.forall_mem_singleton.mpr hplain.count_le⟩⟩

/-- A date, a time of day and an offset have the colons and dashes of a date. -/
theorem isDateLike_of_parts {date : Date} {clock : Clock} {seconds : Bool}
    {between tail zone : List Char} (hdate : readDate cs = some (date, between ++ tail))
    (hbetween : IsPlain between) (hclock : readClock seconds tail = some (clock, zone))
    (hzone : IsZone zone) : IsDateLike cs := by
  obtain ⟨day, rfl, hcolon, hdashes⟩ := eq_of_readDate hdate
  obtain ⟨hour, minute, hhour, hminute, heq⟩ := eq_of_readClock hclock
  have hhead : ':' ∉ day ++ (between ++ hour) := by simp [hcolon, hbetween.1, hhour.isPlain.1]
  have hcount : 2 ≤ (day ++ (between ++ hour)).count '-' := by
    rw [List.count_append]
    omega
  rcases heq with rfl | ⟨second, hsecond, rfl⟩
  · obtain ⟨hlength, hfew⟩ := hzone.pieces_append hminute.isPlain
    have hlike := isDateLike_append hhead hcount rfl (by omega) hfew
    simpa using hlike
  · obtain ⟨hlength, hfew⟩ := hzone.pieces_append hsecond.isPlain
    have hpieces := Text.pieces_append_sep hminute.isPlain.1 (second ++ zone)
    have hlike := isDateLike_append hhead hcount hpieces (Nat.succ_le_succ hlength)
      (List.forall_mem_cons.mpr ⟨hminute.isPlain.count_le, hfew⟩)
    simpa using hlike

theorem isDateLike_of_readLocal {gap : Gap} {seconds : Bool} {t : Instant}
    (h : readLocal gap seconds cs = some t) : IsDateLike cs := by
  obtain ⟨_, _, between, tail, hdate, hgap, hclock, -⟩ := parts_of_readLocal h
  have hbetween : IsPlain between :=
    ⟨fun hc => absurd (hgap _ hc) (by decide), fun hc => absurd (hgap _ hc) (by decide)⟩
  exact isDateLike_of_parts hdate hbetween hclock (.inl (by decide))

/-- A day is a date and nothing else. -/
theorem date_of_readDay {t : Instant} (h : readDay cs = some t) :
    ∃ date, readDate cs = some (date, []) ∧ instantOf? date ⟨0, 0, 0, 0⟩ = some t := by
  obtain ⟨⟨date, rest⟩, hdate, h⟩ := Option.bind_eq_some_iff.mp h
  cases rest with
  | nil => exact ⟨date, hdate, h⟩
  | cons => cases h

theorem isDateLike_of_readDay {t : Instant} (h : readDay cs = some t) : IsDateLike cs := by
  obtain ⟨_, hdate, -⟩ := date_of_readDay h
  obtain ⟨date, rfl, hcolon, hdashes⟩ := eq_of_readDate hdate
  rw [List.append_nil]
  exact ⟨date, [], Text.pieces_of_not_mem hcolon, hdashes, by simp, by simp⟩

/-- A text with an offset is a date and a time of day with seconds, and the offset after them. -/
theorem parts_of_readRfc3339 {t : Instant} (h : readRfc3339 cs = some t) :
    ∃ date gap tail clock zone, readDate cs = some (date, gap :: tail) ∧
      (gap = 'T' ∨ gap = 't' ∨ gap = ' ') ∧ readClock true tail = some (clock, zone) ∧
        (readOffset zone).isSome := by
  obtain ⟨⟨year, cs₁⟩, hyear, h₁⟩ := Option.bind_eq_some_iff.mp h
  obtain ⟨cs₂, hdash, h₂⟩ := Option.bind_eq_some_iff.mp h₁
  obtain ⟨⟨month, cs₃⟩, hmonth, h₃⟩ := Option.bind_eq_some_iff.mp h₂
  obtain ⟨cs₄, hdash', h₄⟩ := Option.bind_eq_some_iff.mp h₃
  obtain ⟨⟨day, cs₅⟩, hday, h₅⟩ := Option.bind_eq_some_iff.mp h₄
  obtain ⟨cs₆, hgap, h₆⟩ := Option.bind_eq_some_iff.mp h₅
  obtain ⟨⟨hour, cs₇⟩, hhour, h₇⟩ := Option.bind_eq_some_iff.mp h₆
  obtain ⟨cs₈, hcolon, h₈⟩ := Option.bind_eq_some_iff.mp h₇
  obtain ⟨⟨minute, cs₉⟩, hminute, h₉⟩ := Option.bind_eq_some_iff.mp h₈
  obtain ⟨cs₁₀, hcolon', h₁₀⟩ := Option.bind_eq_some_iff.mp h₉
  obtain ⟨⟨second, cs₁₁⟩, hsecond, h₁₁⟩ := Option.bind_eq_some_iff.mp h₁₀
  obtain ⟨⟨nanos, zone⟩, hnanos, h₁₂⟩ := Option.bind_eq_some_iff.mp h₁₁
  obtain ⟨offset, hoffset, -⟩ := Option.bind_eq_some_iff.mp h₁₂
  have hbetween : ∃ gap, cs₅ = gap :: cs₆ ∧ (gap = 'T' ∨ gap = 't' ∨ gap = ' ') := by
    simp only [Option.orElse_eq_orElse, Option.orElse_eq_or, Option.or_eq_some_iff] at hgap
    rcases hgap with hgap | ⟨-, hgap | ⟨-, hgap⟩⟩
    · exact ⟨'T', eq_of_expect hgap, .inl rfl⟩
    · exact ⟨'t', eq_of_expect hgap, .inr (.inl rfl)⟩
    · exact ⟨' ', eq_of_expect hgap, .inr (.inr rfl)⟩
  obtain ⟨gap, rfl, hletter⟩ := hbetween
  refine ⟨⟨year, month, day⟩, gap, cs₆, ⟨hour, minute, second, nanos⟩, zone, ?_, hletter, ?_,
    Option.isSome_of_eq_some hoffset⟩
  · simp [readDate, readYear_of_readDigits hyear, hdash, readPart_of_readDigits hmonth, hdash',
      readPart_of_readDigits hday]
  · simp [readClock, readPart_of_readDigits hhour, hcolon, readPart_of_readDigits hminute,
      hcolon', readPart_of_readDigits hsecond, hnanos]

theorem isDateLike_of_readRfc3339 {t : Instant} (h : readRfc3339 cs = some t) : IsDateLike cs := by
  obtain ⟨_, gap, tail, _, zone, hdate, hgap, hclock, hzone⟩ := parts_of_readRfc3339 h
  obtain ⟨offset, hoffset⟩ := Option.isSome_iff_exists.mp hzone
  have hbetween : IsPlain [gap] := by
    rcases hgap with rfl | rfl | rfl <;> decide
  exact isDateLike_of_parts hdate hbetween hclock (isZone_of_readOffset hoffset)

/-- Whatever reader of dates reads a text, it has the colons and dashes of a date. -/
theorem isDateLike_of_readers {reader : List Char → Option Instant} (hreader : reader ∈ readers)
    {t : Instant} (h : reader cs = some t) : IsDateLike cs := by
  simp only [readers, List.mem_cons, List.not_mem_nil, or_false] at hreader
  rcases hreader with rfl | rfl | rfl | rfl | rfl | rfl
  · exact isDateLike_of_readRfc3339 h
  · exact isDateLike_of_readLocal h
  · exact isDateLike_of_readLocal h
  · exact isDateLike_of_readLocal h
  · exact isDateLike_of_readLocal h
  · exact isDateLike_of_readDay h

theorem isDateLike_of_parse? {s : String} {t : Instant} (h : Instant.parse? s = some t) :
    IsDateLike (Text.trimmed s.toList) := by
  obtain ⟨reader, hreader, hread⟩ := List.exists_of_findSome?_eq_some h
  exact isDateLike_of_readers hreader hread

end Calendar

end Listing
