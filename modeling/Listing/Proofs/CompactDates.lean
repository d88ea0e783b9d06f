import Listing.Proofs.CalendarDays
import Listing.Proofs.DateDigits
import Listing.Proofs.DateRanges
import Listing.Proofs.PairedRanges

namespace Listing

namespace Text

theorem isDecimalDigit_of_isDigit {c : Char} (h : c.isDigit = true) : isDecimalDigit c = true := by
  have hbounds : 48 ≤ c.toNat ∧ c.toNat ≤ 57 := Char.isDigit_iff_toNat.mp h
  simp [isDecimalDigit, digitRuns, hbounds]

theorem isDecimalDigit_of_isBlank {c : Char} (h : isBlank c = true) : isDecimalDigit c = false := by
  simp only [isBlank, Bool.or_eq_true, Bool.and_eq_true, decide_eq_true_eq, beq_iff_eq] at h
  rw [Bool.eq_false_iff]
  intro hdigit
  simp only [isDecimalDigit, digitRuns, List.any_cons, List.any_nil, Bool.or_eq_true,
    Bool.and_eq_true, decide_eq_true_eq, Bool.false_eq_true, or_false] at hdigit
  omega

theorem isDigit_eq_false {c : Char} (h : isDecimalDigit c = false) : c.isDigit = false := by
  rw [Bool.eq_false_iff]
  intro hdigit
  rw [isDecimalDigit_of_isDigit hdigit] at h
  cases h

/-- Whether a text has no digit of any script. -/
def IsBare (cs : List Char) : Prop := ∀ c ∈ cs, isDecimalDigit c = false

/-- Whether the digits of a text are all from 0 to 9. -/
def HasPlainDigits (cs : List Char) : Prop := ∀ c ∈ cs, isDecimalDigit c = true → c.isDigit = true

theorem IsBare.hasPlainDigits {cs : List Char} (h : IsBare cs) : HasPlainDigits cs := by
  intro c hc hdigit
  rw [h c hc] at hdigit
  cases hdigit

theorem HasPlainDigits.append {cs ds : List Char} (h : HasPlainDigits cs) (h' : HasPlainDigits ds) :
    HasPlainDigits (cs ++ ds) := fun c hc => (List.mem_append.mp hc).elim (h c) (h' c)

theorem isBare_of_isBlank {cs : List Char} (h : ∀ c ∈ cs, isBlank c = true) : IsBare cs :=
  fun c hc => isDecimalDigit_of_isBlank (h c hc)

theorem IsBare.append {cs ds : List Char} (h : IsBare cs) (h' : IsBare ds) : IsBare (cs ++ ds) :=
  fun c hc => (List.mem_append.mp hc).elim (h c) (h' c)

theorem filter_of_isBare {cs : List Char} (h : IsBare cs) : cs.filter isDecimalDigit = [] :=
  List.filter_eq_nil_iff.mpr fun c hc => by simp [h c hc]

theorem filter_of_isDigit {cs : List Char} (h : ∀ c ∈ cs, c.isDigit = true) :
    cs.filter isDecimalDigit = cs :=
  List.filter_eq_self.mpr fun c hc => isDecimalDigit_of_isDigit (h c hc)

/-- The first row of digits in a text, and what follows it. -/
def nextDigits (cs : List Char) : List Char × List Char :=
  (cs.dropWhile fun c => !c.isDigit).span Char.isDigit

theorem nextDigits_append {lead number : List Char} (hlead : IsBare lead)
    (hnumber : Calendar.IsNumber number) (rest : List Char) :
    nextDigits (lead ++ (number ++ rest)) =
      (number ++ rest.takeWhile Char.isDigit, rest.dropWhile Char.isDigit) := by
  obtain ⟨hne, hdigits⟩ := hnumber
  obtain ⟨d, ds, rfl⟩ := List.exists_cons_of_ne_nil hne
  have hdrop : (lead ++ (d :: ds ++ rest)).dropWhile (fun c => !c.isDigit) = d :: ds ++ rest := by
    rw [List.dropWhile_append_of_pos fun c hc => by simp [isDigit_eq_false (hlead c hc)],
      List.cons_append, List.dropWhile_cons_of_neg (by simp [hdigits d List.mem_cons_self])]
  rw [nextDigits, hdrop, List.span_eq_takeWhile_dropWhile, List.takeWhile_append_of_pos hdigits,
    List.dropWhile_append_of_pos hdigits]

/-- A number in front of a dash is a row of digits by itself. -/
theorem nextDigits_dash {lead number : List Char} (hlead : IsBare lead)
    (hnumber : Calendar.IsNumber number) (rest : List Char) :
    nextDigits (lead ++ (number ++ '-' :: rest)) = (number, '-' :: rest) := by
  rw [nextDigits_append hlead hnumber]
  change (number ++ [], '-' :: rest) = _
  rw [List.append_nil]

/-- The last digits of a number, as many as are asked for. -/
def lastDigits : Nat → Nat → List Char
  | 0, _ => []
  | width + 1, n => lastDigits width (n / 10) ++ [Char.ofNat ('0'.toNat + n % 10)]

theorem lastDigits_digitsValue {ds : List Char} (h : ∀ c ∈ ds, c.isDigit = true) :
    lastDigits ds.length (digitsValue ds) = ds := by
  induction ds using List.reverseRecOn with
  | nil => rfl
  | append_singleton ds c ih =>
    rw [List.forall_mem_append, List.forall_mem_singleton] at h
    have hbounds : 48 ≤ c.toNat ∧ c.toNat ≤ 57 := Char.isDigit_iff_toNat.mp h.2
    have hvalue : digitsValue (ds ++ [c]) = 10 * digitsValue ds + (c.toNat - 48) := by
      simp [digitsValue]
    have hdiv : (10 * digitsValue ds + (c.toNat - 48)) / 10 = digitsValue ds := by omega
    have hmod : 48 + (10 * digitsValue ds + (c.toNat - 48)) % 10 = c.toNat := by omega
    rw [List.length_append, List.length_singleton, lastDigits, hvalue, hdiv, ih h.1]
    change ds ++ [Char.ofNat (48 + _)] = _
    rw [hmod, Char.ofNat_toNat]

end Text

open Calendar (Date Instant WrittenDate IsNumber IsPart)

/-- The digits of a date, four for its year and two each for its month and its day. -/
def Calendar.Date.digits (d : Date) : String :=
  String.ofList
    (Text.lastDigits 4 d.year.toNat ++ (Text.lastDigits 2 d.month ++ Text.lastDigits 2 d.day))

/-- Whether a text begins with the numbers of a date in full, four digits and twice two. -/
def isFullDate (text : String) : Bool :=
  let (year, rest) := Text.nextDigits text.toList
  let (month, rest) := Text.nextDigits rest
  let (day, _) := Text.nextDigits rest
  year.length == 4 && month.length == 2 && 2 ≤ day.length

namespace Calendar

theorem Instant.day_endOfDay (t : Instant) : t.endOfDay.day = t.day := by
  simp only [Instant.endOfDay, Instant.day]
  omega

theorem IsPart.hasPlainDigits {cs : List Char} (h : IsPart cs) : Text.HasPlainDigits cs := by
  intro c hc hdigit
  rcases h c hc with hblank | hplain | rfl
  · rw [Text.isDecimalDigit_of_isBlank hblank] at hdigit
    cases hdigit
  · exact hplain
  · exact absurd hdigit (by decide)

theorem hasPlainDigits_of_readClock {seconds : Bool} {clock : Clock} {cs : List Char}
    (h : readClock seconds cs = some (clock, [])) : Text.HasPlainDigits cs := by
  have hcolon : Text.HasPlainDigits [':'] := fun c hc hdigit => by
    rw [List.mem_singleton.mp hc] at hdigit
    exact absurd hdigit (by decide)
  obtain ⟨hour, minute, hhour, hminute, rfl | ⟨second, hsecond, rfl⟩⟩ := eq_of_readClock h
  · have hdigits := hhour.hasPlainDigits.append (hcolon.append hminute.hasPlainDigits)
    simpa using hdigits
  · have hdigits := hhour.hasPlainDigits.append (hcolon.append
      (hminute.hasPlainDigits.append (hcolon.append hsecond.hasPlainDigits)))
    simpa using hdigits

/-- A text that is read without an offset is a date and what has no digits but those from 0 to 9. -/
theorem exists_written_of_parse? {text : String} {t : Instant} (h : Instant.parse? text = some t)
    (hlocal : readRfc3339 (Text.trimmed text.toList) = none) :
    ∃ (date : Date) (w : WrittenDate) (rest : List Char), date.IsOf t ∧
      Text.trimmed text.toList = w.text ++ rest ∧ w.Names date ∧
      (w.day.length < 2 → ∀ c ∈ rest.head?, c.isDigit = false) ∧ Text.HasPlainDigits rest := by
  have hof : ∀ {gap : Gap} {seconds : Bool},
      readLocal gap seconds (Text.trimmed text.toList) = some t →
        ∃ (date : Date) (w : WrittenDate) (rest : List Char), date.IsOf t ∧
          Text.trimmed text.toList = w.text ++ rest ∧ w.Names date ∧
          (w.day.length < 2 → ∀ c ∈ rest.head?, c.isDigit = false) ∧
            Text.HasPlainDigits rest := by
    intro gap seconds hread
    obtain ⟨date, clock, between, tail, hdate, hbetween, hclock, ht⟩ := parts_of_readLocal hread
    obtain ⟨w, hw, hnames, hend⟩ := written_of_readDate hdate
    refine ⟨date, w, between ++ tail, isOf_of_instantOf? ht, hw, hnames, hend,
      Text.IsBare.hasPlainDigits ?_ |>.append (hasPlainDigits_of_readClock hclock)⟩
    intro c hc
    rcases hbetween c hc with hblank | rfl
    · exact Text.isDecimalDigit_of_isBlank hblank
    · decide
  obtain ⟨reader, hreader, hread⟩ := List.exists_of_findSome?_eq_some h
  simp only [readers, List.mem_cons, List.not_mem_nil, or_false] at hreader
  rcases hreader with rfl | rfl | rfl | rfl | rfl | rfl
  · rw [hlocal] at hread
    cases hread
  · exact hof hread
  · exact hof hread
  · exact hof hread
  · exact hof hread
  · obtain ⟨date, hdate, ht⟩ := date_of_readDay hread
    obtain ⟨w, hw, hnames, hend⟩ := written_of_readDate hdate
    exact ⟨date, w, [], isOf_of_instantOf? ht, hw, hnames, hend,
      fun _ hc => absurd hc List.not_mem_nil⟩

namespace WrittenDate

variable {w : WrittenDate} {before rest : List Char}

theorem isBare_lead (w : WrittenDate) : Text.IsBare w.lead := by
  intro c hc
  rcases w.isLead c hc with hblank | rfl | rfl
  · exact Text.isDecimalDigit_of_isBlank hblank
  · decide
  · decide

theorem isBare_dash {blanks : List Char} (h : ∀ c ∈ blanks, Text.isBlank c = true) :
    Text.IsBare ('-' :: blanks) :=
  List.forall_mem_cons.mpr ⟨by decide, Text.isBare_of_isBlank h⟩

/-- The digits of a text are those of the date and of what follows it. -/
theorem filter_append (hbefore : Text.IsBare before) :
    (before ++ (w.text ++ rest)).filter Text.isDecimalDigit =
      w.year ++ (w.month ++ w.day) ++ rest.filter Text.isDecimalDigit := by
  obtain ⟨hyear, hmonth, hday⟩ := w.areNumbers
  obtain ⟨hblanks, hblanks'⟩ := List.forall_mem_append.mp w.areBlank
  have heq : before ++ (w.text ++ rest) = before ++ (w.lead ++ (w.year ++
      (('-' :: w.monthBlanks) ++ (w.month ++ (('-' :: w.dayBlanks) ++ (w.day ++ rest)))))) := by
    simp [text]
  rw [heq]
  simp only [List.filter_append, Text.filter_of_isBare hbefore,
    Text.filter_of_isBare w.isBare_lead, Text.filter_of_isBare (isBare_dash hblanks),
    Text.filter_of_isBare (isBare_dash hblanks'), Text.filter_of_isDigit hyear.2,
    Text.filter_of_isDigit hmonth.2, Text.filter_of_isDigit hday.2, List.nil_append,
    List.append_assoc]

/-- Only a day with two digits begins a row of two digits or more. -/
theorem two_le_length_row (hend : w.day.length < 2 → ∀ c ∈ rest.head?, c.isDigit = false) :
    2 ≤ (w.day ++ rest.takeWhile Char.isDigit).length ↔ w.day.length = 2 := by
  have hpos := List.length_pos_iff.mpr w.areNumbers.2.2.1
  have hshort := w.areShort.2
  rw [List.length_append]
  by_cases hone : w.day.length < 2
  · have hstop : rest.takeWhile Char.isDigit = [] := by
      cases rest with
      | nil => rfl
      | cons c rest => rw [List.takeWhile_cons_of_neg (by simp [hend hone c rfl])]
    rw [hstop, List.length_nil]
    omega
  · omega

/-- A date is in full if its numbers have four digits and twice two. -/
theorem isFullDate_iff {raw : String} (hraw : raw.toList = before ++ (w.text ++ rest))
    (hbefore : Text.IsBare before)
    (hend : w.day.length < 2 → ∀ c ∈ rest.head?, c.isDigit = false) :
    isFullDate raw = true ↔ w.year.length = 4 ∧ w.month.length = 2 ∧ w.day.length = 2 := by
  obtain ⟨hyear, hmonth, hday⟩ := w.areNumbers
  obtain ⟨hblanks, hblanks'⟩ := List.forall_mem_append.mp w.areBlank
  have hfirst := Text.nextDigits_dash (hbefore.append w.isBare_lead) hyear
    (w.monthBlanks ++ (w.month ++ '-' :: (w.dayBlanks ++ (w.day ++ rest))))
  have hsecond := Text.nextDigits_dash (isBare_dash hblanks) hmonth (w.dayBlanks ++ (w.day ++ rest))
  have hthird := Text.nextDigits_append (isBare_dash hblanks') hday rest
  have heq : raw.toList = before ++ w.lead ++ (w.year ++ '-' :: (w.monthBlanks ++
      (w.month ++ '-' :: (w.dayBlanks ++ (w.day ++ rest))))) := by
    rw [hraw]
    simp [text]
  rw [isFullDate, heq, hfirst]
  dsimp only
  rw [← List.cons_append, hsecond]
  dsimp only
  rw [← List.cons_append, hthird]
  simp only [Bool.and_eq_true, beq_iff_eq, decide_eq_true_eq, two_le_length_row hend, and_assoc]

/-- The digits of a date are those it is written with in full. -/
theorem toList_digits {date : Date} (hnames : w.Names date) (hyear : 0 ≤ date.year)
    (hfull : w.year.length = 4 ∧ w.month.length = 2 ∧ w.day.length = 2) :
    date.digits = String.ofList (w.year ++ (w.month ++ w.day)) := by
  obtain ⟨hy, hm, hd⟩ := hnames
  obtain ⟨hfour, htwo, htwo'⟩ := hfull
  have hvalue : date.year.toNat = Text.digitsValue w.year := by omega
  have hdigits := Text.lastDigits_digitsValue w.areNumbers.1.2
  have hdigits' := Text.lastDigits_digitsValue w.areNumbers.2.1.2
  have hdigits'' := Text.lastDigits_digitsValue w.areNumbers.2.2.2
  rw [hfour] at hdigits
  rw [htwo] at hdigits'
  rw [htwo'] at hdigits''
  rw [Date.digits, hvalue, hm, hd, hdigits, hdigits', hdigits'']

end WrittenDate

end Calendar

/-- Whether a text is read without an offset, on a date in one of the years from 0 to 9999. -/
structure NamesDate (text : String) (date : Date) : Prop where
  read : ∃ t, Instant.parse? text = some t ∧ date.IsOf t
  floating : Calendar.readRfc3339 (Text.trimmed text.toList) = none
  year : 0 ≤ date.year ∧ date.year ≤ 9999

namespace NamesDate

variable {text : String} {date : Date}

/-- The text of a date is the date as it is written, between what has no digits of other scripts. -/
theorem exists_written (h : NamesDate text date) :
    ∃ (w : WrittenDate) (before rest : List Char), text.toList = before ++ (w.text ++ rest) ∧
      Text.IsBare before ∧ w.Names date ∧
      (w.day.length < 2 → ∀ c ∈ rest.head?, c.isDigit = false) ∧ Text.HasPlainDigits rest := by
  obtain ⟨t, ht, hof⟩ := h.read
  obtain ⟨date', w, rest, hof', hw, hnames, hend, hplain⟩ :=
    Calendar.exists_written_of_parse? ht h.floating
  obtain rfl := hof.unique hof'
  obtain ⟨before, after, htext, hbefore, hafter⟩ := Text.exists_trimmed text.toList
  have hbare := Text.isBare_of_isBlank hafter
  refine ⟨w, before, rest ++ after, ?_, Text.isBare_of_isBlank hbefore, hnames, ?_,
    hplain.append hbare.hasPlainDigits⟩
  · rw [htext, hw]
    simp
  · intro hone c hc
    cases rest with
    | cons d rest => exact hend hone c hc
    | nil => exact Text.isDigit_eq_false (hbare c (List.mem_of_mem_head? hc))

/-- A date in full is written with its own digits. -/
theorem compactDate?_eq (h : NamesDate text date) (hfull : isFullDate text = true)
    (time : String) : compactDate? text time = some (date.digits ++ time) := by
  obtain ⟨w, before, rest, htext, hbefore, hnames, hend, -⟩ := h.exists_written
  have hlengths := (Calendar.WrittenDate.isFullDate_iff htext hbefore hend).mp hfull
  obtain ⟨hyear, hmonth, hday⟩ := w.areNumbers
  have hrow : ∀ c ∈ w.year ++ (w.month ++ w.day), c.isDigit = true :=
    List.forall_mem_append.mpr ⟨hyear.2, List.forall_mem_append.mpr ⟨hmonth.2, hday.2⟩⟩
  have height : (w.year ++ (w.month ++ w.day)).length = 8 := by
    simp [hlengths]
  have htake := takeBytes_append hrow (rest.filter Text.isDecimalDigit)
  rw [height] at htake
  rw [compactDate?, htext, Calendar.WrittenDate.filter_append hbefore, htake, Option.map_some,
    Calendar.WrittenDate.toList_digits hnames h.year.1 hlengths]

theorem compactDate?_eq_none (h : NamesDate text date)
    (hfew : text.toList.countP Text.isDecimalDigit < 8) (time : String) :
    compactDate? text time = none := by
  obtain ⟨w, before, rest, htext, hbefore, -, -, hplain⟩ := h.exists_written
  obtain ⟨hyear, hmonth, hday⟩ := w.areNumbers
  have hdigits : ∀ c ∈ text.toList.filter Text.isDecimalDigit, c.isDigit = true := by
    rw [htext, Calendar.WrittenDate.filter_append hbefore]
    simp only [List.forall_mem_append]
    refine ⟨⟨hyear.2, hmonth.2, hday.2⟩, fun c hc => ?_⟩
    obtain ⟨hmem, hdigit⟩ := List.mem_filter.mp hc
    exact hplain c hmem hdigit
  rw [List.countP_eq_length_filter] at hfew
  rw [compactDate?, takeBytes_eq_none hdigits hfew, Option.map_none]

end NamesDate

/-- Whether a text is what a bound becomes in the digits of a date range: nothing if the bound is
missing or has fewer than eight digits, and its own digits with a time of day if it is in full. -/
structure IsCompact (bound : Option String) (time half : String) : Prop where
  missing : bound = none → half = ""
  full : ∀ text ∈ bound, ∀ date, NamesDate text date → isFullDate text = true →
    half = date.digits ++ time
  few : ∀ text ∈ bound, ∀ date, NamesDate text date →
    text.toList.countP Text.isDecimalDigit < 8 → half = ""

theorem isCompact_getD (bound : Option String) (time : String) :
    IsCompact bound time ((bound.bind fun text => compactDate? text time).getD "") := by
  refine ⟨?_, ?_, ?_⟩
  · rintro rfl
    rfl
  · rintro text rfl date h hfull
    rw [Option.bind_some, h.compactDate?_eq hfull, Option.getD_some]
  · rintro text rfl date h hfew
    rw [Option.bind_some, h.compactDate?_eq_none hfew, Option.getD_none]

namespace FlatQuery

variable {schema : Schema} {s : State} {field : String} {range : DateRange}

/-- No sort order takes the place of the date range, unless the field has the name of one. -/
theorem get?_compile_date {p : Param} (h : dateEmissions s.activeDateRange? = [(field, p)])
    (hsort : field = Params.sortName → s.sort = "") : (compile schema s).get? field = some p := by
  have hlast : ((compiler schema).last s.activeDateRange? s.sort).reverse.lookup field =
      some p := by
    change ((dateEmissions s.activeDateRange? ++ Params.sortEmissions s.sort).reverse.lookup
      field) = _
    rw [h, Params.sortEmissions]
    split
    next => simp
    next hne =>
      have hfield : (field == Params.sortName) = false :=
        beq_false_of_ne fun hfield => hne (hsort hfield)
      simp [List.lookup, hfield]
  rw [compile_eq, Compiler.get?_compile, hlast]
  rfl

/-- A date in full is written with its own digits and one with fewer than eight digits not at all. So
a date range with a bound in full is written with the digits of all bounds in full, which name the
days that limit the items. -/
theorem compile_fullDates :
    (∀ text date, NamesDate text date →
      (isFullDate text = true → ∀ time, compactDate? text time = some (date.digits ++ time)) ∧
      (text.toList.countP Text.isDecimalDigit < 8 → ∀ time, compactDate? text time = none)) ∧
    ∀ (schema : Schema) (s : State) (field : String) (range : DateRange),
      s.activeDateRange? = some (field, range) →
      (∃ text ∈ range.bounds, ∃ date, NamesDate text date ∧ isFullDate text = true) →
      ∃ start stop, IsCompact range.lower? "000000" start ∧ IsCompact range.upper? "235959" stop ∧
        dateEmissions s.activeDateRange? = [(field, .text (start ++ ":" ++ stop))] ∧
        ((field = Params.sortName → s.sort = "") →
          (compile schema s).get? field = some (.text (start ++ ":" ++ stop))) ∧
        (∀ text ∈ range.lower?, ∀ date, NamesDate text date →
          range.first?.map Instant.day = some date.dayNumber) ∧
        ∀ text ∈ range.upper?, ∀ date, NamesDate text date →
          range.last?.map (fun stop => stop.endOfDay.day) = some date.dayNumber := by
  refine ⟨fun text date h => ⟨h.compactDate?_eq, h.compactDate?_eq_none⟩, ?_⟩
  rintro schema s field range active ⟨text, htext, date, hnames, hfull⟩
  have hstart := isCompact_getD range.lower? "000000"
  have hstop := isCompact_getD range.upper? "235959"
  have hnonempty : ∀ time : String, time ≠ "" → date.digits ++ time ≠ "" := by
    intro time htime heq
    exact htime (String.append_eq_empty_iff.mp heq).2
  have hemission : dateEmissions s.activeDateRange? = [(field, .text
      ((range.lower?.bind fun text => compactDate? text "000000").getD "" ++ ":" ++
        (range.upper?.bind fun text => compactDate? text "235959").getD ""))] := by
    rw [active, dateEmissions]
    refine if_neg fun hempty => ?_
    rcases List.mem_append.mp htext with hlower | hupper
    · have hhalf := hstart.full text (Option.mem_toList.mp hlower) date hnames hfull
      exact hnonempty "000000" (by decide) (hhalf.symm.trans hempty.1)
    · have hhalf := hstop.full text (Option.mem_toList.mp hupper) date hnames hfull
      exact hnonempty "235959" (by decide) (hhalf.symm.trans hempty.2)
  refine ⟨_, _, hstart, hstop, hemission, get?_compile_date hemission, ?_, ?_⟩
  · intro text htext date hnames
    obtain ⟨t, ht, hof⟩ := hnames.read
    rw [DateRange.first?, Option.mem_def.mp htext, Option.bind_some, ht, Option.map_some, hof.2]
  · intro text htext date hnames
    obtain ⟨t, ht, hof⟩ := hnames.read
    rw [DateRange.last?, Option.mem_def.mp htext, Option.bind_some, ht, Option.map_some,
      t.day_endOfDay, hof.2]

/-- A day in June that is written short. -/
theorem namesDate_short : NamesDate "2024-6-5" ⟨2024, 6, 5⟩ :=
  ⟨⟨⟨1717545600, 0⟩, by decide +kernel, by decide +kernel⟩, by decide +kernel, by decide⟩

theorem namesDate_full : NamesDate " 2024-06-05T10:30" ⟨2024, 6, 5⟩ :=
  ⟨⟨⟨1717583400, 0⟩, by decide +kernel, by decide +kernel⟩, by decide +kernel, by decide⟩

/-- The first days of June, from a bound with its time to one that is written short. -/
def juneRange : DateRange := ⟨some "seen", some " 2024-06-05T10:30", some "2024-6-5"⟩

def juneState : State := State.empty.withDateRange (some juneRange)

def shortRange : DateRange := ⟨some "seen", some "2024-6-5", none⟩

def shortState : State := State.empty.withDateRange (some shortRange)

/-- A range that limits the items is not written if its bounds are short. -/
theorem compile_shortDate : NamesDate "2024-6-5" ⟨2024, 6, 5⟩ ∧
    compactDate? "2024-6-5" "000000" = none ∧
    shortState.activeDateRange? = some ("seen", shortRange) ∧ shortRange.IsReadable ∧
    (compile .empty shortState).entries = [] := by
  refine ⟨namesDate_short, ?_, ?_, ?_, ?_⟩
  all_goals decide +kernel

theorem compile_fullDates_june : NamesDate " 2024-06-05T10:30" ⟨2024, 6, 5⟩ ∧
    isFullDate " 2024-06-05T10:30" = true ∧ NamesDate "2024-6-5" ⟨2024, 6, 5⟩ ∧
    "2024-6-5".toList.countP Text.isDecimalDigit < 8 ∧
    juneState.activeDateRange? = some ("seen", juneRange) ∧
    compactDate? " 2024-06-05T10:30" "12" = some "2024060512" ∧
    compactDate? "2024-6-5" "12" = none ∧
    (compile .empty juneState).get? "seen" = some (.text "20240605000000:") := by
  have hfull : isFullDate " 2024-06-05T10:30" = true := by decide +kernel
  have hfew : "2024-6-5".toList.countP Text.isDecimalDigit < 8 := by decide +kernel
  have active : juneState.activeDateRange? = some ("seen", juneRange) := by decide
  obtain ⟨hdigits, hrange⟩ := compile_fullDates
  obtain ⟨start, stop, hstart, hstop, -, hget, -⟩ := hrange .empty juneState "seen" juneRange active
    ⟨" 2024-06-05T10:30", .head _, _, namesDate_full, hfull⟩
  have hlower := hstart.full _ rfl _ namesDate_full hfull
  have hupper := hstop.few _ rfl _ namesDate_short hfew
  refine ⟨namesDate_full, hfull, namesDate_short, hfew, active, ?_, ?_, ?_⟩
  · rw [(hdigits _ _ namesDate_full).1 hfull]
    decide +kernel
  · exact (hdigits _ _ namesDate_short).2 hfew "12"
  · rw [hget (fun h => absurd h (by decide)), hlower, hupper]
    decide +kernel

end FlatQuery

end Listing
