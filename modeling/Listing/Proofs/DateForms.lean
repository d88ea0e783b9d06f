import Listing.Proofs.DateText

namespace Listing

/-- Where of any two items one gives nothing, what is found first is all that is found. -/
theorem findSome?_eq_some_iff_of_pairwise {α β : Type} {xs : List α} {p : α → Option β} {y : β}
    (h : xs.Pairwise fun a b => p a = none ∨ p b = none) :
    xs.findSome? p = some y ↔ ∃ x ∈ xs, p x = some y := by
  refine ⟨List.exists_of_findSome?_eq_some, ?_⟩
  rintro ⟨x, hx, hy⟩
  induction h with
  | nil => cases hx
  | cons hfirst hrest ih =>
    rw [List.findSome?_cons]
    rcases List.mem_cons.mp hx with rfl | hx
    · rw [hy]
    · rcases hfirst x hx with hnone | hnone
      · rw [hnone]
        exact ih hx
      · rw [hnone] at hy
        cases hy

namespace Calendar

variable {cs rest : List Char}

/-- Blanks before a time of day are no part of it. -/
theorem readClock_trimStart (seconds : Bool) (cs : List Char) :
    readClock seconds (Text.trimStart cs) = readClock seconds cs := by
  rw [readClock, readClock, readPart, readPart, Text.trimStart_trimStart]

theorem head_of_readClock {seconds : Bool} {c : Char} {clock : Clock}
    (h : readClock seconds (c :: cs) = some (clock, rest)) :
    Text.isBlank c = true ∨ c.isDigit = true := by
  obtain ⟨⟨hour, cs₁⟩, hhour, -⟩ := Option.bind_eq_some_iff.mp h
  obtain ⟨blanks, digits, hcs, hblanks, hdigits, -⟩ := number_of_readPart hhour
  cases blanks with
  | cons b blanks =>
    cases hcs
    exact .inl (hblanks c List.mem_cons_self)
  | nil =>
    obtain ⟨d, digits, rfl⟩ := List.exists_cons_of_ne_nil hdigits.1
    cases hcs
    exact .inr (hdigits.2 c List.mem_cons_self)

/-- Where seconds are read, hours and minutes leave a colon. -/
theorem readClock_false_of_true {clock : Clock} (h : readClock true cs = some (clock, rest)) :
    ∃ clock' tail, readClock false cs = some (clock', ':' :: tail) := by
  obtain ⟨⟨hour, cs₁⟩, hhour, h₁⟩ := Option.bind_eq_some_iff.mp h
  obtain ⟨cs₂, hcolon, h₂⟩ := Option.bind_eq_some_iff.mp h₁
  obtain ⟨⟨minute, cs₃⟩, hminute, h₃⟩ := Option.bind_eq_some_iff.mp h₂
  obtain ⟨cs₄, hcolon', -⟩ := Option.bind_eq_some_iff.mp h₃
  obtain rfl := eq_of_expect hcolon'
  exact ⟨⟨hour, minute, 0, 0⟩, cs₄, by simp [readClock, hhour, hcolon, hminute]⟩

/-- A text of which a time of day with seconds is a part ends with no other. -/
theorem readClock_ends {seconds : Bool} {clock clock' : Clock}
    (h : readClock true cs = some (clock, rest)) (h' : readClock seconds cs = some (clock', [])) :
    seconds = true ∧ rest = [] := by
  cases seconds with
  | true =>
    rw [h] at h'
    cases h'
    exact ⟨rfl, rfl⟩
  | false =>
    obtain ⟨_, _, hfalse⟩ := readClock_false_of_true h
    rw [hfalse] at h'
    cases h'

theorem readClock_seconds_unique {seconds seconds' : Bool} {clock clock' : Clock}
    (h : readClock seconds cs = some (clock, [])) (h' : readClock seconds' cs = some (clock', [])) :
    seconds = seconds' := by
  cases seconds with
  | true => exact (readClock_ends h h').1.symm
  | false =>
    cases seconds' with
    | true => exact (readClock_ends h' h).1
    | false => rfl

/-- A letter is no part of a time of day, so a gap that is read with one is the space. -/
theorem readClock_gap {seconds : Bool} {gap : Char} {clock : Clock}
    (hgap : gap = 'T' ∨ gap = 't' ∨ gap = ' ')
    (h : readClock seconds (gap :: cs) = some (clock, rest)) :
    readClock seconds cs = some (clock, rest) := by
  rcases hgap with rfl | rfl | rfl
  · exact absurd (head_of_readClock h) (by decide)
  · exact absurd (head_of_readClock h) (by decide)
  · rwa [← readClock_trimStart, Text.trimStart_cons_blank (by decide), readClock_trimStart] at h

/-- The forms in which a date is read: with an offset, with a time of day in UTC, or alone. -/
inductive Form where
  | offset
  | floating (gap : Gap) (seconds : Bool)
  | day
  deriving DecidableEq

namespace Form

def read : Form → List Char → Option Instant
  | .offset => readRfc3339
  | .floating gap seconds => readLocal gap seconds
  | .day => readDay

/-- What follows the date in a text of a form. Blanks before a time of day are read with it. -/
inductive Follows : Form → List Char → Prop where
  | offset {gap : Char} {tail zone : List Char} {clock : Clock}
      (hgap : gap = 'T' ∨ gap = 't' ∨ gap = ' ')
      (hclock : readClock true tail = some (clock, zone)) (hzone : zone ≠ []) :
      Follows .offset (gap :: tail)
  | letter {seconds : Bool} {tail : List Char} {clock : Clock}
      (hclock : readClock seconds tail = some (clock, [])) :
      Follows (.floating .letter seconds) ('T' :: tail)
  | blanks {seconds : Bool} {rest : List Char} {clock : Clock}
      (hclock : readClock seconds rest = some (clock, [])) :
      Follows (.floating .blanks seconds) rest
  | day : Follows .day []

theorem exists_date {form : Form} {t : Instant} (h : form.read cs = some t) :
    ∃ date rest, readDate cs = some (date, rest) ∧ form.Follows rest := by
  cases form with
  | offset =>
    obtain ⟨date, gap, tail, clock, zone, hdate, hgap, hclock, hzone⟩ := parts_of_readRfc3339 h
    refine ⟨date, gap :: tail, hdate, .offset hgap hclock ?_⟩
    rintro rfl
    cases hzone
  | floating gap seconds =>
    obtain ⟨date, rest, tail, clock, hdate, hgap, hclock, -⟩ := exists_of_readLocal h
    cases gap with
    | letter =>
      obtain rfl := eq_of_expect hgap
      exact ⟨date, 'T' :: tail, hdate, .letter hclock⟩
    | blanks =>
      cases hgap
      rw [readClock_trimStart] at hclock
      exact ⟨date, rest, hdate, .blanks hclock⟩
  | day =>
    obtain ⟨date, hdate, -⟩ := date_of_readDay h
    exact ⟨date, [], hdate, .day⟩

/-- No text follows a date in two forms. -/
theorem Follows.unique {form form' : Form} (h : form.Follows rest) (h' : form'.Follows rest) :
    form = form' := by
  cases h with
  | offset hgap hclock hzone =>
    cases h' with
    | offset => rfl
    | letter hclock' => exact absurd (readClock_ends hclock hclock').2 hzone
    | blanks hclock' => exact absurd (readClock_ends hclock (readClock_gap hgap hclock')).2 hzone
  | letter hclock =>
    cases h' with
    | offset _ hclock' hzone => exact absurd (readClock_ends hclock' hclock).2 hzone
    | letter hclock' => rw [readClock_seconds_unique hclock hclock']
    | blanks hclock' => exact absurd (head_of_readClock hclock') (by decide)
  | blanks hclock =>
    cases h' with
    | offset hgap hclock' hzone =>
      exact absurd (readClock_ends hclock' (readClock_gap hgap hclock)).2 hzone
    | letter => exact absurd (head_of_readClock hclock) (by decide)
    | blanks hclock' => rw [readClock_seconds_unique hclock hclock']
    | day => cases hclock
  | day =>
    cases h' with
    | blanks hclock => cases hclock
    | day => rfl

/-- A text is read in one form. -/
theorem unique {form form' : Form} {t t' : Instant} (h : form.read cs = some t)
    (h' : form'.read cs = some t') : form = form' := by
  obtain ⟨date, rest, hdate, hrest⟩ := exists_date h
  obtain ⟨date', rest', hdate', hrest'⟩ := exists_date h'
  cases Option.some.inj (hdate.symm.trans hdate')
  exact hrest.unique hrest'

def all : List Form :=
  [.offset, .floating .letter true, .floating .letter false, .floating .blanks true,
    .floating .blanks false, .day]

theorem readers_eq : readers = all.map read := rfl

end Form

/-- Of any two readers one rejects a text. -/
theorem readers_pairwise (cs : List Char) :
    readers.Pairwise fun reader reader' => reader cs = none ∨ reader' cs = none := by
  rw [Form.readers_eq, List.pairwise_map]
  refine (show Form.all.Nodup by decide).imp fun {form form'} hne => ?_
  cases ht : form.read cs with
  | none => exact .inl rfl
  | some t =>
    cases ht' : form'.read cs with
    | none => exact .inr rfl
    | some t' => exact absurd (Form.unique ht ht') hne

-- None of the readers is idle.
example : (readers.zip ["2024-06-15T08:30:00+02:00", "2024-6-15T8:30:0.25", "2024-6-15T8:30",
    "2024-06-15 08:30:00", "2024-06-158:30", "+2024-6-15"]).all (fun (reader, text) =>
      (reader text.toList).isSome) = true := by decide +kernel

/-- A text is read by one reader at most, so what any of them reads is the result, whatever their
order. -/
theorem Instant.parse?_of_perm (s : String) :
    (readers.Pairwise fun reader reader' =>
      reader (Text.trimmed s.toList) = none ∨ reader' (Text.trimmed s.toList) = none) ∧
    (∀ t, Instant.parse? s = some t ↔
      ∃ reader ∈ readers, reader (Text.trimmed s.toList) = some t) ∧
    ∀ order : List (List Char → Option Instant), order.Perm readers →
      (order.findSome? fun reader => reader (Text.trimmed s.toList)) = Instant.parse? s := by
  have hpairwise := readers_pairwise (Text.trimmed s.toList)
  have hparse : ∀ t, Instant.parse? s = some t ↔
      ∃ reader ∈ readers, reader (Text.trimmed s.toList) = some t :=
    fun t => findSome?_eq_some_iff_of_pairwise hpairwise
  refine ⟨hpairwise, hparse, fun order hperm => ?_⟩
  have horder := (hperm.pairwise_iff fun {reader reader'} h => h.symm).mpr hpairwise
  ext t
  rw [hparse, findSome?_eq_some_iff_of_pairwise horder]
  simp only [hperm.mem_iff]

theorem Instant.parse?_of_perm_visit :
    readers.reverse.Perm readers ∧
    (readers.reverse.findSome? fun reader =>
      reader (Text.trimmed " 2024-06-15 8:30".toList)) = some ⟨1718440200, 0⟩ := by
  have hperm : readers.reverse.Perm readers := List.reverse_perm readers
  refine ⟨hperm, ?_⟩
  rw [(parse?_of_perm _).2.2 _ hperm]
  decide +kernel

end Calendar

end Listing
