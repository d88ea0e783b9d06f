import Mathlib
import Listing.Double.Rounding

namespace Listing

namespace Double

theorem weight_eq (rank : Nat) : weight rank =
    if rank < 2 ^ 52 then rank else (2 ^ 52 + rank % 2 ^ 52) * 2 ^ (rank / 2 ^ 52 - 1) := rfl

/-- A rank in its binade: `q` steps of `2 ^ shift` from zero, and the next rank one step further. -/
theorem weight_mul_add (shift q : Nat) (hq : q ≤ 2 ^ 53) (h : shift = 0 ∨ 2 ^ 52 ≤ q) :
    weight (shift * 2 ^ 52 + q) = q * 2 ^ shift := by
  rw [weight_eq]
  split
  next hlt =>
    have hs : shift = 0 := by omega
    subst shift
    simp
  next hge =>
    by_cases htop : q = 2 ^ 53
    · subst q
      have hd : (shift * 2 ^ 52 + 2 ^ 53) / 2 ^ 52 = shift + 2 := by omega
      have hm : (shift * 2 ^ 52 + 2 ^ 53) % 2 ^ 52 = 0 := by omega
      rw [hd, hm, show shift + 2 - 1 = shift + 1 by omega, Nat.pow_succ]
      omega
    · have hd : (shift * 2 ^ 52 + q) / 2 ^ 52 = shift + 1 := by omega
      have hm : (shift * 2 ^ 52 + q) % 2 ^ 52 = q - 2 ^ 52 := by omega
      rw [hd, hm, show 2 ^ 52 + (q - 2 ^ 52) = q by omega, Nat.add_sub_cancel]

theorem exists_binade (rank : Nat) :
    ∃ shift q, rank = shift * 2 ^ 52 + q ∧ q < 2 ^ 53 ∧ (shift = 0 ∨ 2 ^ 52 ≤ q) := by
  refine ⟨rank / 2 ^ 52 - 1, rank - (rank / 2 ^ 52 - 1) * 2 ^ 52, ?_, ?_, ?_⟩ <;> omega

theorem weight_lt_succ (rank : Nat) : weight rank < weight (rank + 1) := by
  obtain ⟨shift, q, rfl, hq, hs⟩ := exists_binade rank
  rw [weight_mul_add _ _ (by omega) hs, Nat.add_assoc,
    weight_mul_add _ _ (by omega) (by omega)]
  exact Nat.mul_lt_mul_of_pos_right (by omega) (Nat.two_pow_pos _)

theorem weight_strictMono : StrictMono weight := strictMono_nat_of_lt_succ weight_lt_succ

-- The exponent is kept as a variable, so that no step computes the power.
theorem unit_eq_two_pow : ∃ n, n = 1074 ∧ unit = 2 ^ n := by
  unfold unit
  generalize 1074 = n
  exact ⟨n, rfl, Nat.pow_eq⟩

theorem unit_pos : 0 < unit := by
  obtain ⟨n, -, hunit⟩ := unit_eq_two_pow
  rw [hunit]
  exact Nat.two_pow_pos n

theorem two_pow_dvd_unit {n : Nat} (h : n ≤ 1074) : 2 ^ n ∣ unit := by
  obtain ⟨m, hm, hunit⟩ := unit_eq_two_pow
  rw [hunit]
  exact Nat.pow_dvd_pow 2 (by omega)

/-- Whether a number of least positive doubles rounds to a rank: it lies between the midpoints to
the two neighbours, and on one of them only if the rank is even. -/
structure Rounds (rank : Nat) (x : ℚ) : Prop where
  lower : ((weight (rank - 1) + weight rank : Nat) : ℚ) ≤ 2 * x
  upper : 2 * x ≤ ((weight rank + weight (rank + 1) : Nat) : ℚ)
  even : 2 * x = ((weight (rank - 1) + weight rank : Nat) : ℚ) ∨
    2 * x = ((weight rank + weight (rank + 1) : Nat) : ℚ) → rank % 2 = 0

theorem Rounds.of_between {rank : Nat} {x : ℚ}
    (lower : ((weight (rank - 1) + weight rank : Nat) : ℚ) < 2 * x)
    (upper : 2 * x < ((weight rank + weight (rank + 1) : Nat) : ℚ)) : Rounds rank x :=
  ⟨lower.le, upper.le, fun h => h.elim (fun h => absurd h lower.ne') (fun h => absurd h upper.ne)⟩

theorem rounds_weight (rank : Nat) : Rounds rank (weight rank : ℚ) := by
  have hprev : weight (rank - 1) ≤ weight rank := weight_strictMono.monotone (Nat.sub_le rank 1)
  have hnext := weight_lt_succ rank
  refine ⟨?_, ?_, ?_⟩
  · exact_mod_cast (by omega : weight (rank - 1) + weight rank ≤ 2 * weight rank)
  · exact_mod_cast (by omega : 2 * weight rank ≤ weight rank + weight (rank + 1))
  · rintro (h | h)
    · have hsum : 2 * weight rank = weight (rank - 1) + weight rank := by exact_mod_cast h
      have hrank := weight_strictMono.injective (by omega : weight (rank - 1) = weight rank)
      omega
    · have hsum : 2 * weight rank = weight rank + weight (rank + 1) := by exact_mod_cast h
      omega

/-- Rounding keeps the order of numbers. -/
theorem Rounds.mono {r r' : Nat} {x x' : ℚ} (h : Rounds r x) (h' : Rounds r' x') (hx : x ≤ x') :
    r ≤ r' := by
  by_contra hnot
  have hle : ((weight r' + weight (r' + 1) : Nat) : ℚ) ≤ ((weight (r - 1) + weight r : Nat) : ℚ) := by
    exact_mod_cast Nat.add_le_add (weight_strictMono.monotone (by omega : r' ≤ r - 1))
      (weight_strictMono.monotone (by omega : r' + 1 ≤ r))
  have hdouble : 2 * x ≤ 2 * x' := by linarith
  -- Both numbers lie on the midpoint between the two ranks.
  have hup : 2 * x' = ((weight r' + weight (r' + 1) : Nat) : ℚ) :=
    le_antisymm h'.upper (hle.trans (h.lower.trans hdouble))
  have hlow : 2 * x = ((weight (r - 1) + weight r : Nat) : ℚ) :=
    le_antisymm (hdouble.trans (h'.upper.trans hle)) h.lower
  have hsum : weight r' + weight (r' + 1) = weight (r - 1) + weight r := by
    exact_mod_cast le_antisymm hle (by rwa [hup, hlow] at hdouble)
  have hne : r = r' + 1 := by
    by_contra hne
    have := weight_strictMono (by omega : r' < r - 1)
    have := weight_strictMono (by omega : r' + 1 < r)
    omega
  have := h'.even (.inr hup)
  have := h.even (.inl hlow)
  omega

theorem Rounds.unique {r r' : Nat} {x : ℚ} (h : Rounds r x) (h' : Rounds r' x) : r = r' :=
  Nat.le_antisymm (h.mono h' le_rfl) (h'.mono h le_rfl)

/-- A rounded quotient is at most a half away, and at a half it is even. -/
theorem roundQuotient_spec (num : Nat) {den : Nat} (hd : 0 < den) :
    2 * (roundQuotient num den * den) ≤ 2 * num + den ∧
      2 * num ≤ 2 * (roundQuotient num den * den) + den ∧
      (2 * (roundQuotient num den * den) = 2 * num + den ∨
        2 * num = 2 * (roundQuotient num den * den) + den → roundQuotient num den % 2 = 0) := by
  have hdiv := Nat.div_add_mod num den
  have hmod := Nat.mod_lt num hd
  rw [Nat.mul_comm] at hdiv
  unfold roundQuotient
  dsimp only
  split
  next => omega
  next =>
    split
    next => rw [Nat.add_mul]; omega
    next =>
      have hb := Nat.mod_two_eq_zero_or_one (num / den)
      rcases hb with hb | hb <;> rw [hb, Nat.add_mul] <;> omega


theorem rounds_div_iff {rank num den : Nat} (hd : 0 < den) :
    Rounds rank (num / den : ℚ) ↔
      (weight (rank - 1) + weight rank) * den ≤ 2 * num ∧
        2 * num ≤ (weight rank + weight (rank + 1)) * den ∧
        (2 * num = (weight (rank - 1) + weight rank) * den ∨
          2 * num = (weight rank + weight (rank + 1)) * den → rank % 2 = 0) := by
  have hq : (0 : ℚ) < den := by exact_mod_cast hd
  have hx : 2 * (num / den : ℚ) = (2 * num : Nat) / den := by push_cast; ring
  constructor
  · rintro ⟨lower, upper, even⟩
    rw [hx, le_div_iff₀ hq] at lower
    rw [hx, div_le_iff₀ hq] at upper
    rw [hx, div_eq_iff hq.ne', div_eq_iff hq.ne'] at even
    exact ⟨by exact_mod_cast lower, by exact_mod_cast upper, by exact_mod_cast even⟩
  · rintro ⟨lower, upper, even⟩
    refine ⟨?_, ?_, ?_⟩
    · rw [hx, le_div_iff₀ hq]
      exact_mod_cast lower
    · rw [hx, div_le_iff₀ hq]
      exact_mod_cast upper
    · rw [hx, div_eq_iff hq.ne', div_eq_iff hq.ne']
      exact_mod_cast even

/-- A quotient rounded to `q` steps of its binade rounds to the rank of those steps. -/
theorem rounds_of_steps {num den shift q : Nat} (hd : 0 < den)
    (hlow : shift = 0 ∨ 2 ^ 52 * (den * 2 ^ shift) ≤ num) (hhigh : num < 2 ^ 53 * (den * 2 ^ shift))
    (h : q = roundQuotient num (den * 2 ^ shift)) :
    Rounds (shift * 2 ^ 52 + q) (num / den : ℚ) := by
  have hpow : 0 < den * 2 ^ shift := Nat.mul_pos hd (Nat.two_pow_pos _)
  obtain ⟨hle, hge, heven⟩ := roundQuotient_spec num hpow
  rw [← h] at hle hge heven
  have hq : q ≤ 2 ^ 53 := by
    by_contra hgt
    have := Nat.mul_le_mul_right (den * 2 ^ shift) (by omega : 2 ^ 53 + 1 ≤ q)
    omega
  have hq' : shift = 0 ∨ 2 ^ 52 ≤ q := by
    rcases hlow with hs | hlow
    · exact .inl hs
    · refine .inr ?_
      by_contra hlt
      have := Nat.mul_le_mul_right (den * 2 ^ shift) (by omega : q + 1 ≤ 2 ^ 52)
      rw [Nat.add_mul] at this
      omega
  have hw : weight (shift * 2 ^ 52 + q) * den = q * (den * 2 ^ shift) := by
    rw [weight_mul_add _ _ hq hq']; ring
  have hnext : q * (den * 2 ^ shift) + den * 2 ^ shift ≤ weight (shift * 2 ^ 52 + q + 1) * den := by
    rw [← Nat.succ_mul]
    by_cases htop : q = 2 ^ 53
    · have := weight_mul_add (shift + 1) (2 ^ 52 + 1) (by omega) (by omega)
      rw [htop, show shift * 2 ^ 52 + 2 ^ 53 + 1 = (shift + 1) * 2 ^ 52 + (2 ^ 52 + 1) by omega, this]
      calc (2 ^ 53).succ * (den * 2 ^ shift) ≤ (2 ^ 53 + 2) * (den * 2 ^ shift) :=
            Nat.mul_le_mul_right _ (by omega)
        _ = (2 ^ 52 + 1) * 2 ^ (shift + 1) * den := by ring
    · rw [Nat.add_assoc, weight_mul_add _ (q + 1) (by omega) (by omega)]
      exact le_of_eq (by rw [Nat.succ_eq_add_one]; ring)
  have hprev : weight (shift * 2 ^ 52 + q - 1) * den + den * 2 ^ shift ≤ q * (den * 2 ^ shift) ∨
      weight (shift * 2 ^ 52 + q - 1) * den < q * (den * 2 ^ shift) ∧ q * (den * 2 ^ shift) ≤ num ∨
      shift * 2 ^ 52 + q = 0 := by
    by_cases hzero : shift * 2 ^ 52 + q = 0
    · exact .inr (.inr hzero)
    by_cases hbottom : shift = 0 ∨ 2 ^ 52 ≤ q - 1
    · obtain ⟨p, rfl⟩ : ∃ p, q = p + 1 := ⟨q - 1, by omega⟩
      left
      rw [show shift * 2 ^ 52 + (p + 1) - 1 = shift * 2 ^ 52 + p by omega,
        weight_mul_add _ _ (by omega) (by omega)]
      exact le_of_eq (by ring)
    · right
      left
      refine ⟨?_, by rw [show q = 2 ^ 52 by omega]; exact hlow.resolve_left (by omega)⟩
      rw [← hw]
      exact Nat.mul_lt_mul_of_pos_right (weight_strictMono (by omega)) hd
  refine (rounds_div_iff hd).mpr ⟨?_, ?_, ?_⟩
  · rw [Nat.add_mul, hw]
    rcases hprev with hprev | ⟨hprev, hnum⟩ | hzero
    · omega
    · omega
    · have hq0 : q = 0 := by omega
      rw [hzero, hq0]
      simp [weight_eq]
  · rw [Nat.add_mul, hw]
    omega
  · rw [Nat.add_mul, Nat.add_mul, hw]
    rcases hprev with hprev | ⟨hprev, hnum⟩ | hzero <;> omega

/-- Rounding finds the rank that a number rounds to, or infinity past all finite doubles. -/
theorem exists_rounds_nearestRank (num : Nat) {den : Nat} (hd : 0 < den) :
    ∃ rank, Rounds rank ((num * unit : Nat) / den : ℚ) ∧ nearestRank num den = min rank top := by
  set scaled := num * unit with hscaled
  set shift := (scaled / den).log2 - 52 with hshift
  have hhigh : scaled < 2 ^ 53 * (den * 2 ^ shift) := by
    have hlog : scaled / den < 2 ^ ((scaled / den).log2 + 1) := Nat.lt_log2_self
    have hpow : 2 ^ ((scaled / den).log2 + 1) ≤ 2 ^ (53 + shift) :=
      Nat.pow_le_pow_right (by omega) (by omega)
    have := (Nat.div_lt_iff_lt_mul hd).mp (hlog.trans_le hpow)
    rwa [Nat.pow_add, Nat.mul_assoc, Nat.mul_comm (2 ^ shift)] at this
  have hlow : shift = 0 ∨ 2 ^ 52 * (den * 2 ^ shift) ≤ scaled := by
    by_cases hs : shift = 0
    · exact .inl hs
    · right
      have hne : scaled / den ≠ 0 := by
        intro h0
        rw [h0, Nat.log2_zero] at hshift
        exact hs hshift
      have hlog := (Nat.le_log2 hne).mp (by omega : 52 + shift ≤ (scaled / den).log2)
      have := (Nat.le_div_iff_mul_le hd).mp hlog
      rwa [Nat.pow_add, Nat.mul_assoc, Nat.mul_comm (2 ^ shift)] at this
  refine ⟨_, rounds_of_steps hd hlow hhigh rfl, ?_⟩
  simp only [nearestRank, Nat.pow_eq, ← hscaled, ← hshift]

theorem nearestRank_eq {rank num den : Nat} (hd : 0 < den) (htop : rank < top)
    (h : Rounds rank ((num * unit : Nat) / den : ℚ)) : nearestRank num den = rank := by
  obtain ⟨r, hr, heq⟩ := exists_rounds_nearestRank num hd
  rw [heq, hr.unique h]
  omega

theorem nearestRank_mono {m n den : Nat} (hd : 0 < den) (h : m ≤ n) :
    nearestRank m den ≤ nearestRank n den := by
  obtain ⟨r, hr, hm⟩ := exists_rounds_nearestRank m hd
  obtain ⟨r', hr', hn⟩ := exists_rounds_nearestRank n hd
  have hq : (0 : ℚ) < den := by exact_mod_cast hd
  have hx : ((m * unit : Nat) / den : ℚ) ≤ (n * unit : Nat) / den :=
    div_le_div_of_nonneg_right (by exact_mod_cast Nat.mul_le_mul_right unit h) hq.le
  have := hr.mono hr' hx
  omega

/-- A whole number of at most 53 binary digits is a double. -/
theorem exists_weight_eq {n : Nat} (h : n ≤ 2 ^ 53) : ∃ rank < top, weight rank = n * unit := by
  have htop : top = 2047 * 2 ^ 52 := rfl
  by_cases h0 : n = 0
  · exact ⟨0, by omega, by rw [h0, Nat.zero_mul]; rfl⟩
  · set lift := 52 - n.log2 with hlift
    have hlog : 2 ^ n.log2 ≤ n := Nat.log2_self_le h0
    have hlow : 2 ^ 52 ≤ n * 2 ^ lift := by
      calc 2 ^ 52 ≤ 2 ^ (n.log2 + lift) := Nat.pow_le_pow_right (by omega) (by omega)
        _ = 2 ^ n.log2 * 2 ^ lift := Nat.pow_add 2 n.log2 lift
        _ ≤ n * 2 ^ lift := Nat.mul_le_mul_right _ hlog
    have hhigh : n * 2 ^ lift ≤ 2 ^ 53 := by
      by_cases hlarge : lift = 0
      · rwa [hlarge, Nat.pow_zero, Nat.mul_one]
      · have hlt : n < 2 ^ (n.log2 + 1) := Nat.lt_log2_self
        calc n * 2 ^ lift ≤ 2 ^ (n.log2 + 1) * 2 ^ lift := Nat.mul_le_mul_right _ hlt.le
          _ = 2 ^ 53 := by rw [← Nat.pow_add]; congr 1; omega
    obtain ⟨m, hm, hunit⟩ := unit_eq_two_pow
    refine ⟨(m - lift) * 2 ^ 52 + n * 2 ^ lift, by omega, ?_⟩
    rw [weight_mul_add _ _ hhigh (.inr hlow), Nat.mul_assoc, ← Nat.pow_add,
      show lift + (m - lift) = m by omega, hunit]

theorem nearestRank_of_weight {rank n : Nat} (htop : rank < top) (h : weight rank = n * unit) :
    nearestRank n 1 = rank := by
  refine nearestRank_eq Nat.one_pos htop ?_
  rw [← h, Nat.cast_one, div_one]
  exact rounds_weight rank

end Double

theorem digitCount_le_iff {n k : Nat} (hk : 0 < k) : digitCount n ≤ k ↔ n < 10 ^ k :=
  Nat.length_toDigits_le_iff (by omega) hk

theorem digitCount_pos (n : Nat) : 0 < digitCount n := Nat.length_toDigits_pos

theorem lt_pow_digitCount (n : Nat) : n < 10 ^ digitCount n :=
  (digitCount_le_iff (digitCount_pos n)).mp le_rfl

theorem pow_digitCount_le {n : Nat} (hn : 0 < n) : 10 ^ (digitCount n - 1) ≤ n := by
  by_cases h1 : digitCount n = 1
  · simpa [h1, Nat.one_le_iff_ne_zero, Nat.pos_iff_ne_zero] using hn
  · have hpos := digitCount_pos n
    have hlt := (digitCount_le_iff (n := n) (k := digitCount n - 1) (by omega)).not.mp (by omega)
    omega

namespace Decimal

open Double

/-- The number that a decimal stands for. -/
def value (d : Decimal) : ℚ := d.digits * 10 ^ d.exponent

theorem scale_pos (exponent : Int) : 0 < (scale exponent).1 ∧ 0 < (scale exponent).2 :=
  ⟨Nat.pow_pos (by omega), Nat.pow_pos (by omega)⟩

theorem scale_div (exponent : Int) :
    ((scale exponent).1 : ℚ) / (scale exponent).2 = 10 ^ exponent := by
  simp only [scale, Nat.pow_eq]
  rcases Int.le_total 0 exponent with h | h
  · obtain ⟨n, rfl⟩ := Int.eq_ofNat_of_zero_le h
    simp
  · obtain ⟨n, hn⟩ := Int.eq_ofNat_of_zero_le (Int.neg_nonneg.mpr h)
    obtain rfl : exponent = -n := by omega
    simp

/-- A decimal is below the power of ten that its number of digits names. -/
theorem value_lt_pow (d : Decimal) : d.value < 10 ^ ((digitCount d.digits : Int) + d.exponent) := by
  rw [zpow_add₀ (by norm_num), zpow_natCast]
  exact mul_lt_mul_of_pos_right (by exact_mod_cast lt_pow_digitCount d.digits) (by positivity)

theorem pow_le_value {d : Decimal} (hd : 0 < d.digits) :
    10 ^ ((digitCount d.digits : Int) - 1 + d.exponent) ≤ d.value := by
  have hpos := digitCount_pos d.digits
  rw [zpow_add₀ (by norm_num), show (digitCount d.digits : Int) - 1 = (digitCount d.digits - 1 : Nat) by omega,
    zpow_natCast]
  exact mul_le_mul_of_nonneg_right (by exact_mod_cast pow_digitCount_le hd) (by positivity)

/-- A decimal is read as the finite double above zero that its value rounds to. -/
theorem toDouble_eq {d : Decimal} {rank : Nat} (negative : Bool) (hpos : 0 < rank)
    (htop : rank < top) (h : Rounds rank (d.value * unit)) :
    d.toDouble negative = .ranked negative ⟨rank, by omega⟩ := by
  have hw : 0 < weight rank := Nat.zero_lt_of_lt (weight_strictMono hpos)
  have hone : (1 : ℚ) ≤ 2 * (d.value * unit) := by
    refine le_trans ?_ h.lower
    exact_mod_cast (by omega : 1 ≤ weight (rank - 1) + weight rank)
  have hmax : 2 * (d.value * unit) ≤ (2 * weight top : Nat) := by
    refine h.upper.trans (Nat.cast_le.mpr ?_)
    have := weight_strictMono.monotone (by omega : rank ≤ top)
    have := weight_strictMono.monotone (by omega : rank + 1 ≤ top)
    omega
  have hdigits : d.digits ≠ 0 := by
    intro h0
    simp only [value, h0, Nat.cast_zero, zero_mul, mul_zero] at hone
    linarith
  have hsmall : ¬(digitCount d.digits : Int) + d.exponent < -330 := by
    intro hlt
    have hv : d.value < 10 ^ (-331 : Int) :=
      d.value_lt_pow.trans_le (zpow_le_zpow_right₀ (by norm_num) (by omega))
    have hu : ((2 * unit : Nat) : ℚ) < (10 : ℚ) ^ 331 := by
      exact_mod_cast (by decide +kernel : 2 * unit < 10 ^ 331)
    have hlast : 2 * (d.value * unit) < 1 :=
      calc 2 * (d.value * unit) = d.value * (2 * unit : Nat) := by push_cast; ring
        _ < 10 ^ (-331 : Int) * 10 ^ 331 := by
          refine mul_lt_mul'' hv hu ?_ (Nat.cast_nonneg _)
          exact mul_nonneg (Nat.cast_nonneg _) (by positivity)
        _ = 1 := zpow_neg_mul_zpow_self 331 (by norm_num)
    exact absurd hone (not_le.mpr hlast)
  have hlarge : ¬310 < (digitCount d.digits : Int) + d.exponent := by
    intro hlt
    have hv : 10 ^ (310 : Int) ≤ d.value :=
      le_trans (zpow_le_zpow_right₀ (by norm_num) (by omega)) (pow_le_value (Nat.pos_of_ne_zero hdigits))
    have hu : ((2 * weight top : Nat) : ℚ) < 2 * (10 ^ (310 : Int) * unit) := by
      exact_mod_cast (by decide +kernel : 2 * weight top < 2 * (10 ^ 310 * unit))
    have := mul_le_mul_of_nonneg_right hv (Nat.cast_nonneg unit)
    linarith
  have hx : ((d.digits * (scale d.exponent).1 * unit : Nat) / (scale d.exponent).2 : ℚ) =
      d.value * unit := by
    rw [value, ← scale_div]
    push_cast
    ring
  have hrank := nearestRank_eq (scale_pos d.exponent).2 htop (hx ▸ h)
  simp only [toDouble, hdigits, hsmall, hlarge, false_or, if_false, nearest, hrank]

end Decimal

end Listing
