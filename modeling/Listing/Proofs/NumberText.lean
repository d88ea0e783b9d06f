import Listing.Double.Text
import Listing.Proofs.Shortest
import Listing.Proofs.Trimming

namespace Listing

theorem isDigit_of_mem_toDigits {n : Nat} {c : Char} (h : c ∈ Nat.toDigits 10 n) :
    c.isDigit = true :=
  Nat.isDigit_of_mem_toDigits (by omega) (by omega) h

namespace Text

theorem digitsValue_toDigits (n : Nat) : digitsValue (Nat.toDigits 10 n) = n :=
  Nat.ofDigitChars_ten_toDigits

theorem digitsValue_append_zeros (cs : List Char) (n : Nat) :
    digitsValue (cs ++ List.replicate n '0') = digitsValue cs * 10 ^ n := by
  change Nat.ofDigitChars 10 (cs ++ List.replicate n '0') 0 = _
  rw [Nat.ofDigitChars_append, Nat.ofDigitChars_replicate_zero, Nat.mul_comm]
  rfl

theorem digitsValue_zeros_append (cs : List Char) (n : Nat) :
    digitsValue (List.replicate n '0' ++ cs) = digitsValue cs := by
  change Nat.ofDigitChars 10 (List.replicate n '0' ++ cs) 0 = _
  rw [Nat.ofDigitChars_append, Nat.ofDigitChars_replicate_zero, Nat.mul_zero]
  rfl

end Text

namespace Double

theorem readDecimal_digits {cs : List Char} (h : ∀ c ∈ cs, c.isDigit = true) (hne : cs ≠ []) :
    readDecimal cs = some ⟨Text.digitsValue cs, 0⟩ := by
  have htake : cs.takeWhile Char.isDigit = cs := List.takeWhile_eq_self_iff.mpr h
  have hdrop : cs.dropWhile Char.isDigit = [] := List.dropWhile_eq_nil_iff.mpr h
  simp [readDecimal, htake, hdrop, hne, readExponent]

theorem readDecimal_point (whole : List Char) {fraction : List Char} (hw : ∀ c ∈ whole, c.isDigit = true)
    (hf : ∀ c ∈ fraction, c.isDigit = true) (hne : whole ≠ []) :
    readDecimal (whole ++ '.' :: fraction) =
      some ⟨Text.digitsValue (whole ++ fraction), -fraction.length⟩ := by
  have htake : (whole ++ '.' :: fraction).takeWhile Char.isDigit = whole := by
    rw [List.takeWhile_append_of_pos hw]; simp
  have hdrop : (whole ++ '.' :: fraction).dropWhile Char.isDigit = '.' :: fraction := by
    rw [List.dropWhile_append_of_pos hw]; simp
  have htake' : fraction.takeWhile Char.isDigit = fraction := List.takeWhile_eq_self_iff.mpr hf
  have hdrop' : fraction.dropWhile Char.isDigit = [] := List.dropWhile_eq_nil_iff.mpr hf
  simp [readDecimal, htake, hdrop, htake', hdrop', hne, readExponent]

end Double

namespace Decimal

open Double

theorem isDigit_of_mem_zeros {n : Nat} {c : Char} (h : c ∈ List.replicate n '0') :
    c.isDigit = true := by
  rw [(List.mem_replicate.mp h).2]; rfl

/-- A decimal written without an exponent reads back with its value. -/
theorem exists_readDecimal_positionalText (d : Decimal) :
    ∃ e, readDecimal (d.positionalText false).toList = some e ∧ e.value = d.value := by
  have hdigit : ∀ c ∈ Nat.toDigits 10 d.digits, c.isDigit = true := fun _ =>
    isDigit_of_mem_toDigits
  have hne : Nat.toDigits 10 d.digits ≠ [] := Nat.toDigits_ne_nil
  simp only [positionalText, String.toList_ofList]
  generalize hds : Nat.toDigits 10 d.digits = digits at *
  have hvalue : Text.digitsValue digits = d.digits := hds ▸ Text.digitsValue_toDigits d.digits
  split
  next hexp =>
    refine ⟨_, readDecimal_digits ?_ (by simp [hne]), ?_⟩
    · intro c hc
      simp only [Bool.false_eq_true, if_false, List.append_nil, List.mem_append] at hc
      exact hc.elim (hdigit c) isDigit_of_mem_zeros
    · obtain ⟨n, hn⟩ := Int.eq_ofNat_of_zero_le hexp
      simp [value, Text.digitsValue_append_zeros, hvalue, hn]
  next hexp =>
    split
    next hpoint =>
      refine ⟨_, readDecimal_point _ ?_ ?_ ?_, ?_⟩
      · exact fun c hc => hdigit c (List.mem_of_mem_take hc)
      · exact fun c hc => hdigit c (List.mem_of_mem_drop hc)
      · rw [Ne, List.take_eq_nil_iff]
        simp only [hne, or_false]
        omega
      · simp only [value, List.take_append_drop, hvalue, List.length_drop]
        congr 2
        omega
    next hpoint =>
      refine ⟨_, readDecimal_point ['0'] ?_ ?_ (by simp), ?_⟩
      · simp
      · intro c hc
        exact (List.mem_append.mp hc).elim isDigit_of_mem_zeros (hdigit c)
      · have hzeros := Text.digitsValue_zeros_append digits ((-(digits.length + d.exponent)).toNat + 1)
        rw [List.replicate_succ, List.cons_append, hvalue] at hzeros
        simp only [value, List.cons_append, List.nil_append, hzeros, List.length_append,
          List.length_replicate]
        congr 2
        omega

theorem positionalText_chars (d : Decimal) :
    ∀ c ∈ (d.positionalText false).toList, c.isDigit = true ∨ c = '.' := by
  have hdigit : ∀ c ∈ Nat.toDigits 10 d.digits, c.isDigit = true := fun _ =>
    isDigit_of_mem_toDigits
  intro c hc
  simp only [positionalText, String.toList_ofList] at hc
  split at hc
  next =>
    simp only [Bool.false_eq_true, if_false, List.append_nil, List.mem_append] at hc
    exact .inl (hc.elim (hdigit c) isDigit_of_mem_zeros)
  next =>
    split at hc
    next =>
      rcases List.mem_append.mp hc with hc | hc
      · exact .inl (hdigit c (List.mem_of_mem_take hc))
      · rcases List.mem_cons.mp hc with rfl | hc
        · exact .inr rfl
        · exact .inl (hdigit c (List.mem_of_mem_drop hc))
    next =>
      simp only [List.mem_cons, List.mem_append] at hc
      rcases hc with rfl | rfl | hc | hc
      · exact .inl rfl
      · exact .inr rfl
      · exact .inl (isDigit_of_mem_zeros hc)
      · exact .inl (hdigit c hc)

end Decimal

namespace Double

/-- The sign before the digits of a number. -/
def signText (negative : Bool) : List Char := if negative then ['-'] else []

theorem isDigit_or_point_bounds {c : Char} (h : c.isDigit = true ∨ c = '.') :
    46 ≤ c.toNat ∧ c.toNat ≤ 57 := by
  rcases h with h | rfl
  · have := Char.isDigit_iff_toNat.mp h
    simp at this
    omega
  · decide

theorem splitSign_signText (negative : Bool) {body : List Char}
    (h : ∀ c ∈ body, c.isDigit = true ∨ c = '.') :
    splitSign (signText negative ++ body) = (negative, body) := by
  cases negative with
  | true => rfl
  | false =>
    simp only [signText, Bool.false_eq_true, if_false, List.nil_append]
    unfold splitSign
    split
    next rest => exact absurd (isDigit_or_point_bounds (h '-' (by simp))) (by decide)
    next rest => exact absurd (isDigit_or_point_bounds (h '+' (by simp))) (by decide)
    next => rfl

/-- A text of digits and points is read as a decimal. -/
theorem parse?_signText (negative : Bool) {body : List Char}
    (h : ∀ c ∈ body, c.isDigit = true ∨ c = '.') :
    parse? (String.ofList (signText negative ++ body)) =
      (readDecimal body).map (Decimal.toDouble negative) := by
  have hword : ∀ c ∈ body.map Char.toLower, c.toNat ≤ 57 := by
    intro c hc
    obtain ⟨b, hb, rfl⟩ := List.mem_map.mp hc
    have := isDigit_or_point_bounds (h b hb)
    have hsame : b.toLower = b := by
      unfold Char.toLower
      split
      next h =>
        have : 65 ≤ b.toNat := UInt32.le_iff_toNat_le.mp h.1
        omega
      next => rfl
    rw [hsame]
    exact this.2
  have hletter : ∀ word : List Char, (∃ c ∈ word, 57 < c.toNat) → body.map Char.toLower ≠ word := by
    rintro word ⟨c, hc, hlt⟩ rfl
    exact absurd (hword c hc) (by omega)
  simp only [parse?, String.toList_ofList, splitSign_signText negative h]
  rw [if_neg (hletter _ ⟨'n', by simp, by decide⟩), if_neg]
  rintro (hw | hw)
  · exact hletter _ ⟨'n', by simp, by decide⟩ hw
  · exact hletter _ ⟨'n', by simp, by decide⟩ hw

theorem same_self {d : Double} (h : d.isNaN = false) : d.same d = true := by
  cases d with
  | nan => cases h
  | ranked negative rank => simp [same, compare?, place?]

theorem toDouble_whole (negative : Bool) {rank : Nat} (hpos : 0 < rank) (htop : rank < top)
    {whole : Nat} (h : weight rank = whole * unit) :
    Decimal.toDouble negative ⟨whole, 0⟩ = .ranked negative ⟨rank, by omega⟩ := by
  have hx : (Decimal.value ⟨whole, 0⟩ * unit : ℚ) = weight rank := by
    rw [h, Decimal.value, zpow_zero, mul_one, Nat.cast_mul]
  refine Decimal.toDouble_eq negative hpos htop ?_
  rw [hx]
  exact rounds_weight rank

theorem parse?_trim_signText (negative : Bool) {body : List Char}
    (h : ∀ c ∈ body, c.isDigit = true ∨ c = '.') :
    parse? (Text.trim (String.ofList (signText negative ++ body))) =
      (readDecimal body).map (Decimal.toDouble negative) := by
  rw [Text.trim_eq_self, parse?_signText negative h]
  intro c hc
  have hbounds : 45 ≤ c.toNat ∧ c.toNat ≤ 57 := by
    rw [String.toList_ofList] at hc
    rcases List.mem_append.mp hc with hc | hc
    · cases negative with
      | true => obtain rfl : c = '-' := by simpa [signText] using hc
                decide
      | false => simp [signText] at hc
    · have := isDigit_or_point_bounds (h c hc)
      omega
  simp [Text.isBlank]
  omega

theorem eq_infinity {negative : Bool} {rank : Fin (top + 1)} (h : ¬rank.val < top) :
    ranked negative rank = infinity negative := by
  have htop : rank.val = top := by omega
  simp only [infinity, ← htop]

theorem display_infinity (negative : Bool) :
    (infinity negative).display = String.ofList (signText negative ++ ['i', 'n', 'f']) := by
  cases negative <;> rfl

theorem display_ranked (negative : Bool) (rank : Fin (top + 1)) :
    (ranked negative rank).display =
      if (ranked negative rank).isIntegral && weight rank < 10 ^ 15 * unit then
        toString (ranked negative rank).toInt64
      else text plain (ranked negative rank) := by
  simp only [display, Nat.pow_eq]

theorem display_whole {negative : Bool} {rank : Fin (top + 1)} {whole : Nat}
    (htop : rank.val < top) (h : weight rank = whole * unit) (hsmall : whole < 10 ^ 15) :
    (ranked negative rank).display =
      String.ofList (signText (negative && whole != 0) ++ Nat.toDigits 10 whole) := by
  have hintegral : (ranked negative rank).isIntegral = true := by
    simp [isIntegral, isFinite, htop, h]
  have hlt : weight rank < 10 ^ 15 * unit := by
    rw [h]
    exact Nat.mul_lt_mul_of_pos_right hsmall unit_pos
  have hdiv : weight rank / unit = whole := by
    rw [h, Nat.mul_div_cancel _ unit_pos]
  have hint : (ranked negative rank).toInt64 = if negative then -(whole : Int) else whole := by
    simp only [toInt64, Nat.pow_eq, hdiv]
    split <;> omega
  simp only [display_ranked, hintegral, hlt, decide_true, Bool.and_self, if_true, hint,
    Int.toString_eq_repr, Int.repr_eq_if]
  by_cases hzero : whole = 0
  · rw [hzero]
    cases negative <;> rfl
  · cases negative with
    | true => simp [hzero, signText, Nat.repr_eq_ofList_toDigits]
    | false => simp [signText, Nat.repr_eq_ofList_toDigits]

theorem display_plain {negative : Bool} {rank : Fin (top + 1)} (htop : rank.val < top)
    (h : ¬((ranked negative rank).isIntegral && decide (weight rank < 10 ^ 15 * unit)) = true) :
    (ranked negative rank).display = String.ofList (signText negative ++
      ((Decimal.shortest true rank.val).positionalText false).toList) := by
  simp only [display_ranked, h, text, htop, plain, Decimal.text]
  cases negative <;> simp [signText]

theorem rank_eq_zero_of_weight {rank : Nat} (h : weight rank = 0) : rank = 0 := by
  by_contra hne
  have := weight_strictMono (Nat.pos_of_ne_zero hne)
  omega

/-- A double that is not `nan` is read back from its text, but for the sign of zero. -/
theorem exists_parse?_display {d : Double} (h : d.isNaN = false) :
    ∃ e, parse? (Text.trim d.display) = some e ∧ e.isNaN = false ∧ e.same d = true := by
  obtain ⟨negative, rank⟩ : ∃ negative rank, d = ranked negative rank := by
    cases d with
    | nan => cases h
    | ranked negative rank => exact ⟨negative, rank, rfl⟩
  obtain ⟨rank, rfl⟩ := rank
  by_cases htop : rank.val < top
  · by_cases hint : ((ranked negative rank).isIntegral && decide (weight rank < 10 ^ 15 * unit)) = true
    · simp only [Bool.and_eq_true, isIntegral, beq_iff_eq, decide_eq_true_eq] at hint
      obtain ⟨whole, hwhole⟩ := Nat.dvd_of_mod_eq_zero hint.1.2
      rw [Nat.mul_comm] at hwhole
      have hsmall : whole < 10 ^ 15 := Nat.lt_of_mul_lt_mul_right (hwhole ▸ hint.2)
      have hdigit : ∀ c ∈ Nat.toDigits 10 whole, c.isDigit = true := fun _ =>
        isDigit_of_mem_toDigits
      rw [display_whole htop hwhole hsmall, parse?_trim_signText _ fun c hc => .inl (hdigit c hc),
        readDecimal_digits hdigit Nat.toDigits_ne_nil, Text.digitsValue_toDigits, Option.map_some]
      by_cases hzero : whole = 0
      · have hrank := rank_eq_zero_of_weight (by rw [hwhole, hzero, Nat.zero_mul])
        refine ⟨_, rfl, ?_⟩
        simp [hzero, Decimal.toDouble, zero, same, compare?, place?, hrank, isNaN]
      · have hpos : 0 < rank.val := by
          refine Nat.pos_of_ne_zero fun h0 => hzero ?_
          rw [h0] at hwhole
          exact (Nat.mul_eq_zero.mp hwhole.symm).resolve_right unit_pos.ne'
        rw [toDouble_whole _ hpos htop hwhole]
        have hsign : (negative && whole != 0) = negative := by simp [hzero]
        rw [hsign]
        exact ⟨_, rfl, rfl, same_self rfl⟩
    · have hpos : 0 < rank.val := by
        refine Nat.pos_of_ne_zero fun h0 => hint ?_
        have hzero : weight rank.val = 0 := by rw [h0]; rfl
        simp [isIntegral, isFinite, htop, hzero, unit_pos]
      obtain ⟨e, he, hvalue⟩ :=
        Decimal.exists_readDecimal_positionalText (Decimal.shortest true rank.val)
      rw [display_plain htop hint, parse?_trim_signText _ (Decimal.positionalText_chars _), he,
        Option.map_some, Decimal.toDouble_eq negative hpos htop
          (hvalue ▸ Decimal.rounds_shortest true hpos)]
      exact ⟨_, rfl, rfl, same_self rfl⟩
  · rw [eq_infinity htop, display_infinity]
    refine ⟨infinity negative, ?_, rfl, same_self rfl⟩
    cases negative <;> decide

end Double

end Listing
