import Listing.Double.Shortest
import Listing.Proofs.Rounding

namespace Listing

namespace Double

theorem two_pow_dvd_weight (rank : Nat) : 2 ^ (rank / 2 ^ 52 - 1) ∣ weight rank := by
  rw [weight_eq]
  split
  next h =>
    rw [Nat.div_eq_of_lt h, Nat.zero_sub, Nat.pow_zero]
    exact Nat.one_dvd rank
  next => exact Nat.dvd_mul_left _ _

/-- The parts of the span of a rank are its weights without a common factor. -/
theorem Span.exists_common (rank : Nat) :
    ∃ common, 0 < common ∧
      (Span.ofRank rank).low * common = weight (rank - 1) + weight rank ∧
      (Span.ofRank rank).value * common = 2 * weight rank ∧
      (Span.ofRank rank).high * common = weight rank + weight (rank + 1) ∧
      (Span.ofRank rank).one * common = 2 * unit := by
  have hdvd : ∀ r, rank - 1 ≤ r → 2 ^ min ((rank - 1) / 2 ^ 52 - 1) 1074 ∣ weight r := by
    intro r hr
    refine (Nat.pow_dvd_pow 2 ?_).trans (two_pow_dvd_weight r)
    have := Nat.div_le_div_right (c := 2 ^ 52) hr
    omega
  have hunit : 2 ^ min ((rank - 1) / 2 ^ 52 - 1) 1074 ∣ unit := two_pow_dvd_unit (Nat.min_le_right _ _)
  refine ⟨2 ^ min ((rank - 1) / 2 ^ 52 - 1) 1074, Nat.two_pow_pos _, ?_, ?_, ?_, ?_⟩
  · exact Nat.div_mul_cancel (Nat.dvd_add (hdvd _ le_rfl) (hdvd _ (by omega)))
  · exact Nat.div_mul_cancel ((hdvd _ (by omega)).mul_left 2)
  · exact Nat.div_mul_cancel (Nat.dvd_add (hdvd _ (by omega)) (hdvd _ (by omega)))
  · exact Nat.div_mul_cancel (hunit.mul_left 2)

theorem Span.one_pos (rank : Nat) : 0 < (Span.ofRank rank).one := by
  obtain ⟨common, hc, -, -, -, hone⟩ := Span.exists_common rank
  refine (Nat.mul_pos_iff_of_pos_right hc).mp ?_
  rw [hone]
  exact Nat.mul_pos Nat.two_pos unit_pos

/-- The neighbours of a rank are further apart than two steps of its seventeenth digit. -/
theorem weight_gap {rank : Nat} (hpos : 0 < rank) :
    2 * weight rank + 10 ^ 16 * weight (rank - 1) < 10 ^ 16 * weight (rank + 1) := by
  obtain ⟨shift, q, rfl, hq, hs⟩ := exists_binade rank
  have hw := weight_mul_add shift q (by omega) hs
  have hnext := weight_mul_add shift (q + 1) (by omega) (by omega)
  rw [← Nat.add_assoc] at hnext
  rw [hw, hnext]
  by_cases hbottom : shift = 0 ∨ 2 ^ 52 ≤ q - 1
  · have hprev := weight_mul_add shift (q - 1) (by omega) hbottom
    rw [show shift * 2 ^ 52 + q - 1 = shift * 2 ^ 52 + (q - 1) by omega, hprev]
    have hpow := Nat.two_pow_pos shift
    calc 2 * (q * 2 ^ shift) + 10 ^ 16 * ((q - 1) * 2 ^ shift)
        = (2 * q + 10 ^ 16 * (q - 1)) * 2 ^ shift := by ring
      _ < (10 ^ 16 * (q + 1)) * 2 ^ shift := Nat.mul_lt_mul_of_pos_right (by omega) hpow
      _ = 10 ^ 16 * ((q + 1) * 2 ^ shift) := by ring
  · -- At the bottom of a binade the rank below is half a step away.
    obtain ⟨half, rfl⟩ : ∃ half, shift = half + 1 := ⟨shift - 1, by omega⟩
    obtain rfl : q = 2 ^ 52 := by omega
    have hprev := weight_mul_add half (2 ^ 53 - 1) (by omega) (by omega)
    rw [show (half + 1) * 2 ^ 52 + 2 ^ 52 - 1 = half * 2 ^ 52 + (2 ^ 53 - 1) by omega, hprev,
      Nat.pow_succ]
    have hpow := Nat.two_pow_pos half
    omega

end Double

namespace Decimal

open Double

theorem reads_ofRank_iff {rank : Nat} {d : Decimal} :
    reads (Span.ofRank rank) d = true ↔ Rounds rank (d.value * unit) := by
  obtain ⟨common, hc, hlow, -, hhigh, hone⟩ := Span.exists_common rank
  have hx : d.value * unit =
      ((d.digits * (scale d.exponent).1 * unit : Nat) / (scale d.exponent).2 : ℚ) := by
    rw [value, ← scale_div]
    push_cast
    ring
  have hclosed : (Span.ofRank rank).closed = decide (rank % 2 = 0) := rfl
  have hpoint : 2 * (d.digits * (scale d.exponent).1 * unit) =
      d.digits * (scale d.exponent).1 * (Span.ofRank rank).one * common := by
    rw [Nat.mul_assoc _ _ common, hone]
    ring
  rw [hx, rounds_div_iff (scale_pos _).2, ← hlow, ← hhigh, hpoint, Nat.mul_right_comm _ common,
    Nat.mul_right_comm _ common, Nat.mul_le_mul_right_iff hc, Nat.mul_le_mul_right_iff hc,
    Nat.mul_right_cancel_iff hc, Nat.mul_right_cancel_iff hc]
  simp only [reads, hclosed, decide_eq_true_eq]
  split
  next he => simp [he]
  next ho =>
    simp only [decide_eq_true_eq, ho, imp_false, not_or]
    omega

theorem reads_of_onGrid {tieAway : Bool} {s : Span} {exponent : Int} {d : Decimal}
    (h : onGrid tieAway s exponent = some d) : reads s d = true := by
  simp only [onGrid] at h
  split at h
  next hb ha =>
    split at h
    next => cases h; exact hb
    next => cases h; exact ha
    next =>
      cases h
      split
      next => exact ha
      next => exact hb
  next hb _ => cases h; exact hb
  next ha => cases h; exact ha
  next => cases h

/-- The neighbours of a finite double above zero on a decimal grid. -/
theorem grid_neighbours (rank : Nat) (exponent : Int) :
    ((((Span.ofRank rank).value * (scale exponent).2 /
          ((Span.ofRank rank).one * (scale exponent).1) : Nat) : ℚ) * (10 ^ exponent * unit) ≤
        weight rank) ∧
      (weight rank : ℚ) < (((Span.ofRank rank).value * (scale exponent).2 /
          ((Span.ofRank rank).one * (scale exponent).1) + 1 : Nat) : ℚ) * (10 ^ exponent * unit) := by
  obtain ⟨common, hc, -, hvalue, -, hone⟩ := Span.exists_common rank
  obtain ⟨hup, hdown⟩ := scale_pos exponent
  rw [← scale_div]
  generalize (scale exponent).1 = up at *
  generalize (scale exponent).2 = down at *
  have hden : 0 < (Span.ofRank rank).one * up := Nat.mul_pos (Span.one_pos rank) hup
  have hq : (0 : ℚ) < down := by exact_mod_cast hdown
  generalize hk : (Span.ofRank rank).value * down / ((Span.ofRank rank).one * up) = k
  have hnum : (Span.ofRank rank).value * down * common = 2 * (weight rank * down) := by
    rw [Nat.mul_right_comm, hvalue]; ring
  have hstep : (Span.ofRank rank).one * up * common = 2 * (unit * up) := by
    rw [Nat.mul_right_comm, hone]; ring
  have hlow : k * (unit * up) ≤ weight rank * down := by
    have h := Nat.mul_le_mul_right common
      (Nat.div_mul_le_self ((Span.ofRank rank).value * down) ((Span.ofRank rank).one * up))
    rw [hk, hnum, Nat.mul_assoc, hstep] at h
    linarith
  have hhigh : weight rank * down < (k + 1) * (unit * up) := by
    have h := Nat.mul_lt_mul_of_pos_right
      (Nat.lt_mul_div_succ ((Span.ofRank rank).value * down) hden) hc
    rw [hk, hnum, Nat.mul_right_comm, hstep] at h
    linarith
  constructor
  · rw [div_mul_eq_mul_div, ← mul_div_assoc, div_le_iff₀ hq]
    exact_mod_cast (by linarith : k * (up * unit) ≤ weight rank * down)
  · rw [div_mul_eq_mul_div, ← mul_div_assoc, lt_div_iff₀ hq]
    exact_mod_cast (by linarith : weight rank * down < (k + 1) * (up * unit))

/-- On a grid sixteen places below the first digit, a neighbour of the value reads back. -/
theorem exists_onGrid (tieAway : Bool) {rank : Nat} (hpos : 0 < rank) (exponent : Int)
    (hfine : (10 : ℚ) ^ (exponent + 16) * unit ≤ weight rank) :
    ∃ d, onGrid tieAway (Span.ofRank rank) exponent = some d := by
  obtain ⟨hlow, hhigh⟩ := grid_neighbours rank exponent
  generalize hk : (Span.ofRank rank).value * (scale exponent).2 /
    ((Span.ofRank rank).one * (scale exponent).1) = k at hlow hhigh
  have hstep : 2 * (10 ^ exponent * (unit : ℚ)) < weight (rank + 1) - weight (rank - 1) := by
    have hgap : (2 * weight rank + 10 ^ 16 * weight (rank - 1) : ℚ) < 10 ^ 16 * weight (rank + 1) := by
      exact_mod_cast weight_gap hpos
    rw [zpow_add₀ (by norm_num), mul_right_comm] at hfine
    generalize (10 : ℚ) ^ exponent * unit = step at *
    norm_num at hfine hgap
    linarith
  have hmono : (weight (rank - 1) : ℚ) < weight rank ∧ (weight rank : ℚ) < weight (rank + 1) :=
    ⟨by exact_mod_cast weight_strictMono (by omega), by exact_mod_cast weight_lt_succ rank⟩
  have hreads : reads (Span.ofRank rank) ⟨k, exponent⟩ = true ∨
      reads (Span.ofRank rank) ⟨k + 1, exponent⟩ = true := by
    rw [reads_ofRank_iff, reads_ofRank_iff]
    by_cases hbelow : ((weight (rank - 1) + weight rank : Nat) : ℚ) < 2 * (k * (10 ^ exponent * unit))
    · left
      refine .of_between ?_ ?_ <;> simp only [value] <;> push_cast at hbelow ⊢ <;> linarith
    · right
      refine .of_between ?_ ?_ <;> simp only [value] <;> push_cast at hbelow hhigh ⊢ <;> linarith
  simp only [onGrid, hk]
  split
  next =>
    split
    next => exact ⟨_, rfl⟩
    next => exact ⟨_, rfl⟩
    next => exact ⟨_, rfl⟩
  next => exact ⟨_, rfl⟩
  next => exact ⟨_, rfl⟩
  next hb ha => simp [hb, ha] at hreads

/-- The first digit of a value stands at its magnitude. -/
theorem pow_magnitude_le {rank : Nat} (hpos : 0 < rank) :
    (10 : ℚ) ^ (magnitude (Span.ofRank rank) - 1) * unit ≤ weight rank := by
  obtain ⟨common, hc, -, hvalue, -, hone⟩ := Span.exists_common rank
  have hw : 0 < weight rank := Nat.zero_lt_of_lt (weight_strictMono hpos)
  have hv : 0 < (Span.ofRank rank).value := by
    refine (Nat.mul_pos_iff_of_pos_right hc).mp ?_
    omega
  have hle : (10 : ℚ) ^ (magnitude (Span.ofRank rank) - 1) * (Span.ofRank rank).one ≤
      (Span.ofRank rank).value := by
    have hpos := Span.one_pos rank
    simp only [magnitude]
    generalize (Span.ofRank rank).value = value at *
    generalize (Span.ofRank rank).one = one at *
    split
    next hle =>
      have hdigits := pow_digitCount_le (Nat.div_pos hle (by omega))
      have hcount := digitCount_pos (value / one)
      rw [show (digitCount (value / one) : Int) - 1 = (digitCount (value / one) - 1 : Nat) by omega,
        zpow_natCast]
      exact_mod_cast (Nat.mul_le_mul_right one hdigits).trans (Nat.div_mul_le_self value one)
    next hlt =>
      have hdigits := (Nat.div_lt_iff_lt_mul hv).mp (lt_pow_digitCount ((one - 1) / value))
      rw [show 1 - (digitCount ((one - 1) / value) : Int) - 1 =
        -(digitCount ((one - 1) / value) : Int) by omega, zpow_neg, zpow_natCast,
        inv_mul_le_iff₀ (by positivity)]
      exact_mod_cast (by omega : one ≤ 10 ^ digitCount ((one - 1) / value) * value)
  have hcommon := mul_le_mul_of_nonneg_right hle (Nat.cast_nonneg common : (0 : ℚ) ≤ common)
  have hvalue' : ((Span.ofRank rank).value : ℚ) * common = 2 * weight rank := by exact_mod_cast hvalue
  have hone' : ((Span.ofRank rank).one : ℚ) * common = 2 * unit := by exact_mod_cast hone
  rw [mul_assoc, hone', hvalue'] at hcommon
  linarith

theorem value_strip (fuel : Nat) (d : Decimal) : (strip fuel d).value = d.value := by
  induction fuel generalizing d with
  | zero => rfl
  | succ fuel ih =>
    simp only [strip]
    split
    next h =>
      rw [ih]
      have hdiv : d.digits = 10 * (d.digits / 10) := by omega
      simp only [value]
      rw [zpow_add_one₀ (by norm_num)]
      conv_rhs => rw [hdiv]
      push_cast
      ring
    next => rfl

/-- The shortest decimal of a finite double above zero rounds to it. -/
theorem rounds_shortest (tieAway : Bool) {rank : Nat} (hpos : 0 < rank) :
    Rounds rank ((shortest tieAway rank).value * unit) := by
  have hne : rank ≠ 0 := by omega
  have hsome : ((List.range 17).findSome? fun n : Nat => onGrid tieAway (Span.ofRank rank)
      (magnitude (Span.ofRank rank) - (n + 1))).isSome := by
    obtain ⟨d, hd⟩ := exists_onGrid tieAway hpos
      (magnitude (Span.ofRank rank) - ((16 : Nat) + 1)) (by
        convert pow_magnitude_le hpos using 3
        push_cast
        ring)
    rw [List.findSome?_isSome_iff]
    exact ⟨16, by simp, by rw [hd]; rfl⟩
  obtain ⟨d, hd⟩ := Option.isSome_iff_exists.mp hsome
  obtain ⟨n, -, hn⟩ := List.exists_of_findSome?_eq_some hd
  rw [shortest, if_neg hne]
  simp only [hd, Option.getD_some, value_strip]
  exact reads_ofRank_iff.mp (reads_of_onGrid hn)

end Decimal

end Listing
