import Listing.Json.Reader
import Listing.Json.Writer
import Listing.Proofs.NumberText

namespace Listing

theorem exists_toDigits {n : Nat} (h : 0 < n) :
    ∃ c rest, Nat.toDigits 10 n = c :: rest ∧ c ≠ '0' := by
  induction n using Nat.strong_induction_on with
  | _ n ih =>
    rw [Nat.toDigits_eq_if (by omega)]
    split
    next hlt =>
      have hne : ∀ m < 10, 0 < m → m.digitChar ≠ '0' := by decide
      exact ⟨_, [], rfl, hne n hlt h⟩
    next hge =>
      obtain ⟨c, rest, heq, hc⟩ := ih (n / 10) (by omega) (by omega)
      exact ⟨c, rest ++ [(n % 10).digitChar], by rw [heq, List.cons_append], hc⟩

/-- A row of digits ends where something else follows. -/
theorem span_digits_append {digits rest : List Char} (hdigits : ∀ c ∈ digits, c.isDigit = true)
    (hrest : ∀ c ∈ rest.head?, c.isDigit = false) :
    (digits ++ rest).takeWhile Char.isDigit = digits ∧
      (digits ++ rest).dropWhile Char.isDigit = rest := by
  have hstop : rest.takeWhile Char.isDigit = [] ∧ rest.dropWhile Char.isDigit = rest := by
    cases rest with
    | nil => exact ⟨rfl, rfl⟩
    | cons c rest =>
      have hc := hrest c rfl
      simp [hc]
  rw [List.takeWhile_append_of_pos hdigits, List.dropWhile_append_of_pos hdigits, hstop.1, hstop.2,
    List.append_nil]
  exact ⟨rfl, rfl⟩

namespace Json

/-- Whether no number can go on with a text. -/
def EndsNumber (rest : List Char) : Prop :=
  ∀ c ∈ rest.head?, c.isDigit = false ∧ c ≠ '.' ∧ c ≠ 'e' ∧ c ≠ 'E'

/-- An exponent with its sign. -/
def powerChars : Option Int → List Char
  | none => []
  | some e => 'e' :: (if e < 0 then '-' else '+') :: Nat.toDigits 10 e.natAbs

/-- Decimal places with their point. -/
def placesChars (places : List Char) : List Char := if places = [] then [] else '.' :: places

/-- A number without its sign as it stands in a document. -/
structure NumberParts where
  whole : List Char
  places : List Char
  power : Option Int
  digits : ∀ c ∈ whole ++ places, c.isDigit = true
  leading : whole = ['0'] ∨ ∃ c rest, whole = c :: rest ∧ c ≠ '0'

namespace NumberParts

variable (p : NumberParts)

def chars : List Char := p.whole ++ (placesChars p.places ++ powerChars p.power)

def decimal : Decimal := ⟨Text.digitsValue (p.whole ++ p.places), p.power.getD 0 - p.places.length⟩

end NumberParts

section Reading

variable {rest : List Char}

theorem readPower_powerChars (power : Option Int) (h : EndsNumber rest) :
    readPower (powerChars power ++ rest) = some (power, rest) := by
  cases power with
  | none =>
    cases rest with
    | nil => rfl
    | cons c rest =>
      obtain ⟨-, -, he, hE⟩ := h c rfl
      simp [powerChars, readPower, he, hE]
  | some e =>
    have hdigits : ∀ c ∈ Nat.toDigits 10 e.natAbs, c.isDigit = true := fun _ =>
      isDigit_of_mem_toDigits
    obtain ⟨htake, hdrop⟩ := span_digits_append hdigits fun c hc => (h c hc).1
    have hsize : (if e < 0 then -(e.natAbs : Int) else e.natAbs) = e := by
      split <;> omega
    by_cases he : e < 0
    · simp only [if_pos he] at hsize
      simp [-Nat.cast_natAbs, powerChars, readPower, Double.splitSign, he, htake, hdrop,
        Text.digitsValue_toDigits, Nat.toDigits_ne_nil, hsize]
    · simp only [if_neg he] at hsize
      simp [-Nat.cast_natAbs, powerChars, readPower, Double.splitSign, he, htake, hdrop,
        Text.digitsValue_toDigits, Nat.toDigits_ne_nil, hsize]

theorem readPlaces_placesChars {places : List Char} (hplaces : ∀ c ∈ places, c.isDigit = true)
    (h : ∀ c ∈ rest.head?, c.isDigit = false ∧ c ≠ '.') :
    readPlaces (placesChars places ++ rest) = some (places, rest) := by
  by_cases hempty : places = []
  · subst places
    cases rest with
    | nil => rfl
    | cons c rest =>
      obtain ⟨-, hc⟩ := h c rfl
      simp [placesChars, readPlaces, hc]
  · obtain ⟨htake, hdrop⟩ := span_digits_append hplaces fun c hc => (h c hc).1
    simp [placesChars, hempty, readPlaces, htake, hdrop]

theorem readWhole_append {whole : List Char} (hwhole : ∀ c ∈ whole, c.isDigit = true)
    (leading : whole = ['0'] ∨ ∃ c rest, whole = c :: rest ∧ c ≠ '0')
    (h : ∀ c ∈ rest.head?, c.isDigit = false) :
    readWhole (whole ++ rest) = some (whole, rest) := by
  obtain ⟨htake, hdrop⟩ := span_digits_append hwhole h
  rcases leading with rfl | ⟨c, others, rfl, hc⟩
  · rfl
  · rw [List.cons_append] at htake hdrop ⊢
    unfold readWhole
    split
    next heq => exact absurd (List.cons.inj heq).1 hc
    next => simp [htake, hdrop]

theorem exists_chars_eq (p : NumberParts) : ∃ c tail, p.chars = c :: tail ∧ c.isDigit = true := by
  rcases p.leading with hzero | ⟨c, tail, hwhole, -⟩
  · exact ⟨'0', _, by rw [NumberParts.chars, hzero]; rfl, by decide⟩
  · exact ⟨c, _, by rw [NumberParts.chars, hwhole]; rfl, p.digits c (by simp [hwhole])⟩

/-- The parts of a number are read from its text, and nothing behind them. -/
theorem readNumber_chars (negative : Bool) (p : NumberParts) (h : EndsNumber rest) :
    readNumber (Double.signText negative ++ (p.chars ++ rest)) =
      some (numeralOf negative p.whole p.places p.power, rest) := by
  have hpower := readPower_powerChars p.power h
  have hpoint : ∀ c ∈ (powerChars p.power ++ rest).head?, c.isDigit = false ∧ c ≠ '.' := by
    cases hp : p.power with
    | none => exact fun c hc => ⟨(h c hc).1, (h c hc).2.1⟩
    | some e => simp [powerChars]
  have hplaces := readPlaces_placesChars
    (fun c hc => p.digits c (List.mem_append_right _ hc)) hpoint
  have hdigit : ∀ c ∈ (placesChars p.places ++ (powerChars p.power ++ rest)).head?,
      c.isDigit = false := by
    by_cases hempty : p.places = []
    · simpa [placesChars, hempty] using fun c hc => (hpoint c hc).1
    · simp [placesChars, hempty]
  have hwhole := readWhole_append (fun c hc => p.digits c (List.mem_append_left _ hc)) p.leading
    hdigit
  cases negative with
  | true =>
    simp [Double.signText, NumberParts.chars, readNumber, hwhole, hplaces, hpower]
  | false =>
    obtain ⟨c, tail, hchars, hc⟩ := exists_chars_eq p
    have hne : c ≠ '-' := by
      rintro rfl
      cases hc
    have htext : c :: (tail ++ rest) =
        p.whole ++ (placesChars p.places ++ (powerChars p.power ++ rest)) := by
      rw [← List.cons_append, ← hchars]
      simp [NumberParts.chars]
    rw [← htext] at hwhole
    simp [Double.signText, hchars, readNumber, hne, hwhole, hplaces, hpower]

end Reading

section Writing

open Decimal

/-- The digits of a decimal, cut into two parts, can stand in a document before and after a point. -/
theorem leading_take {n k : Nat} (hk : 0 < k) :
    (Nat.toDigits 10 n).take k = ['0'] ∨
      ∃ c rest, (Nat.toDigits 10 n).take k = c :: rest ∧ c ≠ '0' := by
  rcases Nat.eq_zero_or_pos n with rfl | hn
  · exact .inl (List.take_of_length_le hk)
  · obtain ⟨c, rest, heq, hc⟩ := exists_toDigits hn
    obtain ⟨k, rfl⟩ := Nat.exists_eq_succ_of_ne_zero (Nat.ne_of_gt hk)
    exact .inr ⟨c, rest.take k, by rw [heq, List.take_succ_cons], hc⟩

/-- The digits of a decimal with the point somewhere among them. -/
def cutParts (n k : Nat) (hk : 0 < k) (power : Option Int) : NumberParts where
  whole := (Nat.toDigits 10 n).take k
  places := (Nat.toDigits 10 n).drop k
  power := power
  digits c hc := isDigit_of_mem_toDigits (by rwa [List.take_append_drop] at hc)
  leading := leading_take hk

theorem decimal_cutParts (n k : Nat) (hk : 0 < k) (power : Option Int) :
    (cutParts n k hk power).decimal =
      ⟨n, power.getD 0 - ((Nat.toDigits 10 n).length - k : Nat)⟩ := by
  rw [NumberParts.decimal, cutParts, List.take_append_drop, Text.digitsValue_toDigits,
    List.length_drop]

/-- Digits and zeros before the point, and one zero behind it. -/
def roundParts (m n : Nat) (h : m = 0 → n = 0) : NumberParts where
  whole := Nat.toDigits 10 m ++ List.replicate n '0'
  places := ['0']
  power := none
  digits c hc := by
    rcases List.mem_append.mp hc with hc | hc
    · exact (List.mem_append.mp hc).elim isDigit_of_mem_toDigits isDigit_of_mem_zeros
    · rw [List.mem_singleton.mp hc]
      rfl
  leading := by
    rcases Nat.eq_zero_or_pos m with rfl | hm
    · exact .inl (by rw [h rfl]; rfl)
    · obtain ⟨c, rest, heq, hc⟩ := exists_toDigits hm
      exact .inr ⟨c, _, by rw [heq, List.cons_append], hc⟩

theorem value_roundParts (m n : Nat) (h : m = 0 → n = 0) :
    (roundParts m n h).decimal.value = m * 10 ^ n := by
  have hzeros := Text.digitsValue_append_zeros (Nat.toDigits 10 m) (n + 1)
  rw [List.replicate_succ', ← List.append_assoc, Text.digitsValue_toDigits] at hzeros
  have hten : (10 : ℚ) ^ (n + 1) * 10 ^ (-1 : Int) = 10 ^ n := by
    rw [pow_succ, mul_assoc, zpow_neg_one, mul_inv_cancel₀ (by norm_num), mul_one]
  have hdecimal : (roundParts m n h).decimal = ⟨m * 10 ^ (n + 1), -1⟩ := by
    rw [NumberParts.decimal, roundParts, hzeros]
    rfl
  rw [hdecimal, value, Nat.cast_mul, Nat.cast_pow, mul_assoc]
  exact congrArg (_ * ·) hten

/-- A zero before the point, and zeros and digits behind it. -/
def smallParts (m n : Nat) : NumberParts where
  whole := ['0']
  places := List.replicate n '0' ++ Nat.toDigits 10 m
  power := none
  digits c hc := by
    rcases List.mem_append.mp hc with hc | hc
    · rw [List.mem_singleton.mp hc]
      rfl
    · exact (List.mem_append.mp hc).elim isDigit_of_mem_zeros isDigit_of_mem_toDigits
  leading := .inl rfl

theorem decimal_smallParts (m n : Nat) :
    (smallParts m n).decimal = ⟨m, -(n + (Nat.toDigits 10 m).length : Nat)⟩ := by
  have hzeros := Text.digitsValue_zeros_append (Nat.toDigits 10 m) (n + 1)
  rw [List.replicate_succ, List.cons_append, Text.digitsValue_toDigits] at hzeros
  rw [NumberParts.decimal, smallParts, List.singleton_append, hzeros, List.length_append,
    List.length_replicate, Option.getD_none, Int.zero_sub]

theorem exists_parts_positionalText {d : Decimal} (hd : d.digits = 0 → d.exponent = 0) :
    ∃ p : NumberParts, (d.positionalText true).toList = p.chars ∧ p.places ≠ [] ∧
      p.decimal.value = d.value := by
  simp only [positionalText, String.toList_ofList]
  split
  next hexp =>
    obtain ⟨n, hn⟩ := Int.eq_ofNat_of_zero_le hexp
    have hzero : d.digits = 0 → n = 0 := by
      intro h
      have := hd h
      omega
    refine ⟨roundParts d.digits n hzero, ?_, List.cons_ne_nil _ _, ?_⟩
    · simp [roundParts, NumberParts.chars, placesChars, powerChars, hn]
    · rw [value_roundParts, value, hn, zpow_natCast]
  next hexp =>
    split
    next hpoint =>
      have hk : 0 < (((Nat.toDigits 10 d.digits).length : Int) + d.exponent).toNat := by omega
      have hlength : (Nat.toDigits 10 d.digits).length -
          (((Nat.toDigits 10 d.digits).length : Int) + d.exponent).toNat = d.exponent.natAbs := by
        omega
      have hplaces : (cutParts d.digits _ hk none).places ≠ [] := by
        apply List.ne_nil_of_length_pos
        rw [cutParts, List.length_drop, hlength]
        omega
      refine ⟨cutParts d.digits _ hk none, ?_, hplaces, ?_⟩
      · rw [NumberParts.chars, placesChars, if_neg hplaces]
        simp [cutParts, powerChars]
      · have hexponent : (0 : Int) - d.exponent.natAbs = d.exponent := by omega
        rw [decimal_cutParts, hlength, Option.getD_none, hexponent]
    next hpoint =>
      obtain ⟨n, hn⟩ := Int.eq_ofNat_of_zero_le (by omega :
        0 ≤ -(((Nat.toDigits 10 d.digits).length : Int) + d.exponent))
      refine ⟨smallParts d.digits n, ?_, by simp [smallParts, Nat.toDigits_ne_nil], ?_⟩
      · simp [smallParts, NumberParts.chars, placesChars, powerChars, hn, Nat.toDigits_ne_nil]
      · have hexponent : -((n + (Nat.toDigits 10 d.digits).length : Nat) : Int) = d.exponent := by
          omega
        rw [decimal_smallParts, hexponent]

theorem exists_parts_exponentText (d : Decimal) :
    ∃ p : NumberParts, d.exponentText.toList = p.chars ∧ p.power.isSome ∧
      p.decimal.value = d.value := by
  have hpos : 0 < (Nat.toDigits 10 d.digits).length := Nat.length_toDigits_pos
  refine ⟨cutParts d.digits 1 Nat.one_pos
    (some ((Nat.toDigits 10 d.digits).length + d.exponent - 1)), ?_, rfl, ?_⟩
  · simp [exponentText, cutParts, NumberParts.chars, placesChars, powerChars]
  · have hexponent : ((Nat.toDigits 10 d.digits).length : Int) + d.exponent - 1 -
        ((Nat.toDigits 10 d.digits).length - 1 : Nat) = d.exponent := by
      omega
    rw [decimal_cutParts]
    simp only [value, Option.getD_some, hexponent]

/-- A decimal as it stands in a document: its text has parts that keep the value, and they are not
taken for an integer. -/
theorem exists_parts {d : Decimal} (hd : d.digits = 0 → d.exponent = 0) :
    ∃ p : NumberParts, (d.text Numeral.style).toList = p.chars ∧
      (p.places.isEmpty && p.power.isNone) = false ∧ p.decimal.value = d.value := by
  rw [Decimal.text]
  split
  next =>
    obtain ⟨p, hchars, hplaces, hvalue⟩ := exists_parts_positionalText hd
    exact ⟨p, hchars, by simp [hplaces], hvalue⟩
  next =>
    obtain ⟨p, hchars, hpower, hvalue⟩ := exists_parts_exponentText d
    exact ⟨p, hchars, by simp [hpower], hvalue⟩

end Writing

end Json

namespace Decimal

open Double

variable {tieAway : Bool}

theorem digits_shortest_pos {rank : Nat} (hpos : 0 < rank) :
    0 < (shortest tieAway rank).digits := by
  refine Nat.pos_of_ne_zero fun hzero => ?_
  have hlower := (rounds_shortest tieAway hpos).lower
  rw [value, hzero, Nat.cast_zero, zero_mul, zero_mul, mul_zero] at hlower
  have hweight := weight_strictMono hpos
  have hsum : weight (rank - 1) + weight rank ≤ 0 := by exact_mod_cast hlower
  omega

theorem exponent_shortest {rank : Nat} (h : (shortest tieAway rank).digits = 0) :
    (shortest tieAway rank).exponent = 0 := by
  rcases Nat.eq_zero_or_pos rank with rfl | hpos
  · rw [shortest, if_pos rfl]
  · exact absurd h (digits_shortest_pos hpos).ne'

/-- Whatever has the value of the shortest decimal of a finite double is read as that double, zero
with its sign. -/
theorem toDouble_of_value {d : Decimal} {rank : Fin (top + 1)} (negative : Bool)
    (htop : rank.val < top) (h : d.value = (shortest tieAway rank).value) :
    d.toDouble negative = .ranked negative rank := by
  obtain ⟨rank, hrank⟩ := rank
  rcases Nat.eq_zero_or_pos rank with rfl | hpos
  · have hzero : d.digits = 0 := by
      rw [shortest, if_pos rfl, value, value, Nat.cast_zero, zero_mul] at h
      have hpow : (10 : ℚ) ^ d.exponent ≠ 0 := zpow_ne_zero _ (by norm_num)
      exact_mod_cast (mul_eq_zero.mp h).resolve_right hpow
    simp [toDouble, hzero, zero]
  · exact toDouble_eq negative hpos htop (h ▸ rounds_shortest tieAway hpos)

end Decimal

namespace Numeral

open Json Double

/-- What a number is read back as: an integer of 64 bits and a finite double as themselves, any
other integer as the nearest double, and what is not finite as null. -/
def printed : Numeral → Written
  | .integer n =>
    let d := Decimal.toDouble (decide (n < 0)) ⟨n.natAbs, 0⟩
    .number <|
      if -Nat.pow 2 63 ≤ n ∧ n < Nat.pow 2 64 then some (.integer n)
      else if d.isFinite then some (.decimal d) else none
  | .decimal d => if d.isFinite then .number (some (.decimal d)) else .null

theorem toList_text_integer (n : Int) :
    (text (.integer n)).toList = signText (decide (n < 0)) ++ Nat.toDigits 10 n.natAbs := by
  rw [text, Int.toString_eq_repr, Int.repr_eq_if]
  split
  next hn =>
    have habs : n.toNat = n.natAbs := by omega
    simp [Int.not_lt.mpr hn, signText, Nat.repr_eq_ofList_toDigits, habs]
  next hn =>
    have habs : (-n).toNat = n.natAbs := by omega
    simp [Int.not_le.mp hn, signText, Nat.repr_eq_ofList_toDigits, habs]

theorem toList_text_decimal (negative : Bool) {rank : Fin (top + 1)} (htop : rank.val < top) :
    (text (.decimal (.ranked negative rank))).toList = signText negative ++
      ((Decimal.shortest false rank.val).text style).toList := by
  simp only [text, isFinite, htop, decide_true, if_true, Double.text, style]
  cases negative <;> simp [signText]

/-- The parts of an integer's text. -/
def integerParts (n : Nat) : NumberParts where
  whole := Nat.toDigits 10 n
  places := []
  power := none
  digits c hc := isDigit_of_mem_toDigits (by rwa [List.append_nil] at hc)
  leading := by
    rcases Nat.eq_zero_or_pos n with rfl | hn
    · exact .inl rfl
    · exact .inr (exists_toDigits hn)

theorem numeralOf_integer (n : Int) :
    printed (.integer n) =
      .number (numeralOf (decide (n < 0)) (Nat.toDigits 10 n.natAbs) [] none) := by
  have hsize : (if n < 0 then -(n.natAbs : Int) else n.natAbs) = n := by
    split <;> omega
  have hsmall : ((if n < 0 then 0 < n.natAbs && n.natAbs ≤ Nat.pow 2 63
      else n.natAbs < Nat.pow 2 64) : Bool) = decide (-Nat.pow 2 63 ≤ n ∧ n < Nat.pow 2 64) := by
    simp only [Nat.pow_eq]
    split
    next hn =>
      rw [← Bool.decide_and, decide_eq_decide]
      omega
    next hn =>
      rw [decide_eq_decide]
      omega
  simp only [numeralOf, Text.digitsValue_toDigits, List.append_nil, List.isEmpty_nil,
    Option.isNone_none, Bool.true_and, decide_eq_true_eq, hsmall, hsize, printed]
  rfl

/-- A number is written as null, or as a sign and parts that are read as what is left of it. -/
theorem text_cases (n : Numeral) :
    n.text = "null" ∧ n.printed = .null ∨
      ∃ negative, ∃ p : NumberParts, n.text.toList = signText negative ++ p.chars ∧
        n.printed = .number (numeralOf negative p.whole p.places p.power) := by
  cases n with
  | integer n =>
    refine .inr ⟨decide (n < 0), integerParts n.natAbs, ?_, numeralOf_integer n⟩
    simp [toList_text_integer, NumberParts.chars, integerParts, placesChars, powerChars]
  | decimal d =>
    cases hfinite : d.isFinite with
    | false => simp [text, printed, hfinite]
    | true =>
      cases d with
      | nan => cases hfinite
      | ranked negative rank =>
        have htop : rank.val < top := of_decide_eq_true hfinite
        obtain ⟨p, hchars, hplaces, hvalue⟩ := exists_parts
          (Decimal.exponent_shortest : (Decimal.shortest false rank.val).digits = 0 → _)
        have hdouble := Decimal.toDouble_of_value negative htop hvalue
        rw [NumberParts.decimal] at hdouble
        refine .inr ⟨negative, p, by rw [toList_text_decimal negative htop, hchars], ?_⟩
        simp only [printed, numeralOf, hplaces, hdouble, hfinite, Bool.false_and,
          Bool.false_eq_true, if_false, if_true]

end Numeral

end Listing
