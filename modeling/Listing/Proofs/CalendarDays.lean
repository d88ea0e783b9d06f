import Mathlib.Tactic.Common
import Listing.Calendar.Reading

namespace Listing

namespace Calendar

namespace Date

/-- The days of all years before a year, counted from the first year. -/
def daysBeforeYear (year : Int) : Int :=
  let past := year - 1
  365 * past + past / 4 - past / 100 + past / 400

def yearLength (year : Int) : Nat := if isLeapYear year then 366 else 365

theorem dayNumber_eq (d : Date) : d.dayNumber =
    daysBeforeYear d.year + (daysBefore d.year d.month + d.day : Nat) - 719163 := by
  simp only [dayNumber, daysBeforeYear]
  omega

theorem daysBeforeYear_succ (year : Int) :
    daysBeforeYear (year + 1) = daysBeforeYear year + yearLength year := by
  have hleap : isLeapYear year = true ↔ year % 4 = 0 ∧ (year % 100 ≠ 0 ∨ year % 400 = 0) := by
    simp [isLeapYear]
  simp only [daysBeforeYear, yearLength]
  split
  next h =>
    have hrule := hleap.mp h
    omega
  next h =>
    have hrule := hleap.not.mp h
    omega

theorem daysBeforeYear_mono {a b : Int} (h : a ≤ b) : daysBeforeYear a ≤ daysBeforeYear b := by
  simp only [daysBeforeYear]
  omega

theorem daysBefore_succ {month : Nat} (h : 1 ≤ month) (year : Int) :
    daysBefore year (month + 1) = daysBefore year month + monthLength year month := by
  obtain ⟨m, rfl⟩ := Nat.exists_eq_add_of_le' h
  rfl

theorem daysBefore_mono {month month' : Nat} (h : 1 ≤ month) (hle : month ≤ month') (year : Int) :
    daysBefore year month ≤ daysBefore year month' := by
  induction hle with
  | refl => exact Nat.le_refl _
  | step hm ih =>
    rw [Nat.succ_eq_add_one, daysBefore_succ (Nat.le_trans h hm)]
    omega

theorem daysBefore_thirteen (year : Int) : daysBefore year 13 = yearLength year := by
  simp only [daysBefore, monthLength, yearLength]
  split <;> rfl

variable {d d' : Date}

theorem isValid_iff : d.isValid = true ↔ (-262143 ≤ d.year ∧ d.year ≤ 262142) ∧
    (1 ≤ d.month ∧ d.month ≤ 12) ∧ 1 ≤ d.day ∧ d.day ≤ monthLength d.year d.month := by
  simp only [isValid, Bool.and_eq_true, decide_eq_true_eq]
  tauto

/-- A later month begins after every day of an earlier one. -/
theorem daysBefore_add_lt (h : d.isValid = true) {month : Nat} (hmonth : d.month < month) :
    daysBefore d.year d.month + d.day ≤ daysBefore d.year month := by
  obtain ⟨-, ⟨hone, -⟩, -, hday⟩ := isValid_iff.mp h
  have hmono := daysBefore_mono (Nat.le_add_left 1 d.month) hmonth d.year
  rw [daysBefore_succ hone] at hmono
  omega

/-- A later year begins after every day of an earlier one. -/
theorem dayNumber_lt_of_year_lt (h : d.isValid = true) (h' : d'.isValid = true)
    (hyear : d.year < d'.year) : d.dayNumber < d'.dayNumber := by
  obtain ⟨-, ⟨-, hmonth⟩, -⟩ := isValid_iff.mp h
  obtain ⟨-, -, hday', -⟩ := isValid_iff.mp h'
  have hlast := daysBefore_add_lt h (show d.month < 13 by omega)
  have hnext := daysBeforeYear_mono (show d.year + 1 ≤ d'.year from hyear)
  rw [daysBefore_thirteen] at hlast
  rw [daysBeforeYear_succ] at hnext
  rw [dayNumber_eq, dayNumber_eq]
  omega

/-- A date is told by its day. -/
theorem dayNumber_inj (h : d.isValid = true) (h' : d'.isValid = true)
    (hday : d.dayNumber = d'.dayNumber) : d = d' := by
  have hyear : d.year = d'.year := by
    rcases Int.lt_trichotomy d.year d'.year with hlt | heq | hgt
    · exact absurd hday (Int.ne_of_lt (dayNumber_lt_of_year_lt h h' hlt))
    · exact heq
    · exact absurd hday.symm (Int.ne_of_lt (dayNumber_lt_of_year_lt h' h hgt))
  obtain ⟨-, -, hone, -⟩ := isValid_iff.mp h
  obtain ⟨-, -, hone', -⟩ := isValid_iff.mp h'
  have hcount : daysBefore d.year d.month + d.day = daysBefore d'.year d'.month + d'.day := by
    rw [dayNumber_eq, dayNumber_eq, hyear] at hday
    rw [hyear]
    omega
  have hmonth : d.month = d'.month := by
    rcases Nat.lt_trichotomy d.month d'.month with hlt | heq | hgt
    · have hle := daysBefore_add_lt h hlt
      rw [hcount, hyear] at hle
      omega
    · exact heq
    · have hle := daysBefore_add_lt h' hgt
      rw [← hcount, ← hyear] at hle
      omega
  rw [hyear, hmonth] at hcount
  obtain ⟨year, month, day⟩ := d
  obtain ⟨year', month', day'⟩ := d'
  dsimp only at hyear hmonth hcount
  rw [hyear, hmonth, Nat.add_left_cancel hcount]

/-- Whether a date is that of an instant in UTC. -/
def IsOf (d : Date) (t : Instant) : Prop := d.isValid = true ∧ d.dayNumber = t.day

instance (d : Date) (t : Instant) : Decidable (d.IsOf t) := inferInstanceAs (Decidable (_ ∧ _))

theorem IsOf.unique {t : Instant} (h : d.IsOf t) (h' : d'.IsOf t) : d = d' :=
  dayNumber_inj h.1 h'.1 (h.2.trans h'.2.symm)

end Date

/-- A time of day does not leave its date. -/
theorem isOf_of_instantOf? {date : Date} {clock : Clock} {t : Instant}
    (h : instantOf? date clock = some t) : date.IsOf t := by
  unfold instantOf? at h
  split at h
  next hvalid =>
    simp only [Bool.and_eq_true, decide_eq_true_eq] at hvalid
    obtain ⟨⟨⟨hdate, hhour⟩, hminute⟩, hsecond⟩ := hvalid
    cases h
    refine ⟨hdate, ?_⟩
    simp only [Instant.day]
    omega
  next => cases h

end Calendar

end Listing
