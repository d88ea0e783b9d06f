import Mathlib.Algebra.Order.Floor.Semiring
import Mathlib.Data.Rat.Floor
import Listing.Page

namespace Listing

/-! Words of 64 bits, in which a step that has no exact result has none at all. -/

namespace Word

def largest : UInt64 := .ofNat maxSize

def add? (a b : UInt64) : Option UInt64 :=
  if a.toNat + b.toNat ≤ maxSize then some (a + b) else none

def sub? (a b : UInt64) : Option UInt64 := if b ≤ a then some (a - b) else none

def mul? (a b : UInt64) : Option UInt64 :=
  if a.toNat * b.toNat ≤ maxSize then some (a * b) else none

def div? (a b : UInt64) : Option UInt64 := if b = 0 then none else some (a / b)

def mod? (a b : UInt64) : Option UInt64 := if b = 0 then none else some (a % b)

/-- The quotient rounded up: one more than the quotient if something is left. -/
def divCeil? (a b : UInt64) : Option UInt64 := do
  let quotient ← div? a b
  let rest ← mod? a b
  if rest = 0 then some quotient else add? quotient 1

def saturatingAdd (a b : UInt64) : UInt64 := (add? a b).getD largest

def saturatingMul (a b : UInt64) : UInt64 := (mul? a b).getD largest

theorem maxSize_eq : maxSize = 2 ^ 64 - 1 := rfl

theorem toNat_le_maxSize (a : UInt64) : a.toNat ≤ maxSize := by
  have ha := a.toNat_lt
  rw [maxSize_eq]
  omega

theorem toNat_largest : largest.toNat = maxSize := rfl

theorem toNat_max_one (a : UInt64) : (max a 1).toNat = max a.toNat 1 := by
  change (if a ≤ 1 then 1 else a).toNat = _
  simp only [UInt64.le_iff_toNat_le, UInt64.toNat_one]
  split
  next h => rw [UInt64.toNat_one, max_eq_right h]
  next h => rw [max_eq_left (by omega)]

theorem add?_eq_some {a b : UInt64} (h : a.toNat + b.toNat ≤ maxSize) :
    ∃ c, add? a b = some c ∧ c.toNat = a.toNat + b.toNat := by
  refine ⟨a + b, if_pos h, ?_⟩
  rw [maxSize_eq] at h
  rw [UInt64.toNat_add, Nat.mod_eq_of_lt (by omega)]

theorem mul?_eq_some {a b : UInt64} (h : a.toNat * b.toNat ≤ maxSize) :
    ∃ c, mul? a b = some c ∧ c.toNat = a.toNat * b.toNat := by
  refine ⟨a * b, if_pos h, ?_⟩
  rw [maxSize_eq] at h
  rw [UInt64.toNat_mul, Nat.mod_eq_of_lt (by omega)]

theorem toNat_saturatingAdd (a b : UInt64) :
    (saturatingAdd a b).toNat = min (a.toNat + b.toNat) maxSize := by
  by_cases h : a.toNat + b.toNat ≤ maxSize
  · obtain ⟨c, hadd, hc⟩ := add?_eq_some h
    rw [saturatingAdd, hadd, Option.getD_some, hc, min_eq_left h]
  · rw [saturatingAdd, add?, if_neg h, Option.getD_none, toNat_largest]
    omega

theorem toNat_saturatingMul (a b : UInt64) :
    (saturatingMul a b).toNat = min (a.toNat * b.toNat) maxSize := by
  by_cases h : a.toNat * b.toNat ≤ maxSize
  · obtain ⟨c, hmul, hc⟩ := mul?_eq_some h
    rw [saturatingMul, hmul, Option.getD_some, hc, min_eq_left h]
  · rw [saturatingMul, mul?, if_neg h, Option.getD_none, toNat_largest]
    omega

theorem sub?_eq_some {a b : UInt64} (h : b.toNat ≤ a.toNat) :
    ∃ c, sub? a b = some c ∧ c.toNat = a.toNat - b.toNat := by
  have hle : b ≤ a := UInt64.le_iff_toNat_le.mpr h
  exact ⟨a - b, if_pos hle, UInt64.toNat_sub_of_le _ _ hle⟩

/-- Rounding a quotient up fails for no divisor but zero, as one more than a quotient with a rest is
no larger than the dividend. -/
theorem divCeil?_eq_some {a b : UInt64} (hb : 0 < b.toNat) :
    ∃ c, divCeil? a b = some c ∧ c.toNat = (a.toNat + (b.toNat - 1)) / b.toNat := by
  have hne : b ≠ 0 := by
    rintro rfl
    exact absurd hb (by decide)
  have hceil : divCeil? a b = if a % b = 0 then some (a / b) else add? (a / b) 1 := by
    simp only [divCeil?, div?, mod?, if_neg hne, Option.bind_eq_bind, Option.bind_some]
  have hrest := Nat.mod_lt a.toNat hb
  have hdivmod := Nat.div_add_mod a.toNat b.toNat
  have hsplit : (a.toNat + (b.toNat - 1)) / b.toNat =
      (a.toNat % b.toNat + (b.toNat - 1)) / b.toNat + a.toNat / b.toNat := by
    rw [← Nat.add_mul_div_left _ _ hb]
    congr 1
    omega
  rw [hceil, hsplit]
  by_cases hzero : a % b = 0
  · have hmod : a.toNat % b.toNat = 0 := by rw [← UInt64.toNat_mod, hzero, UInt64.toNat_zero]
    have hnone : (a.toNat % b.toNat + (b.toNat - 1)) / b.toNat = 0 := Nat.div_eq_of_lt (by omega)
    exact ⟨a / b, if_pos hzero, by rw [UInt64.toNat_div, hnone, Nat.zero_add]⟩
  · have hmod : a.toNat % b.toNat ≠ 0 := by
      intro hmod
      exact hzero (UInt64.toNat_inj.mp (by rw [UInt64.toNat_mod, hmod, UInt64.toNat_zero]))
    have hone : (a.toNat % b.toNat + (b.toNat - 1)) / b.toNat = 1 :=
      Nat.div_eq_of_lt_le (by omega) (by omega)
    have hsmall : (a / b).toNat + (1 : UInt64).toNat ≤ maxSize := by
      have hle := toNat_le_maxSize a
      have hquotient : a.toNat / b.toNat ≤ b.toNat * (a.toNat / b.toNat) :=
        Nat.le_mul_of_pos_left _ hb
      rw [UInt64.toNat_div, UInt64.toNat_one]
      omega
    obtain ⟨c, hadd, hc⟩ := add?_eq_some hsmall
    refine ⟨c, by rw [if_neg hzero, hadd], ?_⟩
    rw [hc, UInt64.toNat_div, UInt64.toNat_one, hone, Nat.add_comm]

end Word

namespace PageInfo

/-- The number of pages, of which an empty list has none. -/
def totalPages? (limit total : UInt64) : Option UInt64 :=
  if total = 0 then some 0 else Word.divCeil? total limit

/-- The place of a page worked out in words. Only the steps that go to the largest word instead of
past it are not checked. -/
def ofWords? (page limit total : UInt64) : Option PageInfo := do
  let page := max page 1
  let limit := max limit 1
  let before ← Word.sub? page 1
  let pages ← totalPages? limit total
  let start := Word.saturatingMul before limit
  return { page := page.toNat
           limit := limit.toNat
           total := total.toNat
           totalPages := pages.toNat
           hasNext := Word.saturatingAdd start limit < total
           hasPrev := 1 < page }

/-- No step fails in words, and the result is exact. -/
theorem ofWords?_eq (page limit total : UInt64) :
    ofWords? page limit total = some (of page.toNat limit.toNat total.toNat) := by
  have hpage := Word.toNat_max_one page
  have hlimit := Word.toNat_max_one limit
  obtain ⟨before, hsub, hbefore⟩ :=
    Word.sub?_eq_some (a := max page 1) (b := 1) (by rw [hpage, UInt64.toNat_one]; omega)
  obtain ⟨pages, hcount, hpages⟩ : ∃ pages, totalPages? (max limit 1) total = some pages ∧
      pages.toNat = (total.toNat + (max limit.toNat 1 - 1)) / max limit.toNat 1 := by
    by_cases hzero : total = 0
    · refine ⟨0, if_pos hzero, ?_⟩
      rw [hzero, UInt64.toNat_zero, Nat.div_eq_of_lt (by omega)]
    · obtain ⟨pages, hceil, hpages⟩ :=
        Word.divCeil?_eq_some (a := total) (b := max limit 1) (by rw [hlimit]; omega)
      exact ⟨pages, (if_neg hzero).trans hceil, by rw [hpages, hlimit]⟩
  have hnext : (Word.saturatingAdd (Word.saturatingMul before (max limit 1)) (max limit 1) < total) ↔
      min (offset (max page.toNat 1) (max limit.toNat 1) + max limit.toNat 1) maxSize <
        total.toNat := by
    rw [UInt64.lt_iff_toNat_lt, Word.toNat_saturatingAdd, Word.toNat_saturatingMul, hbefore, hpage,
      hlimit, UInt64.toNat_one, offset]
  have hprev : (1 < max page 1) ↔ 1 < max page.toNat 1 := by
    rw [UInt64.lt_iff_toNat_lt, hpage, UInt64.toNat_one]
  simp only [ofWords?, hsub, hcount, Option.bind_eq_bind, Option.bind_some, Option.pure_def, of,
    hpage, hlimit, hpages, hnext, hprev]

variable {page limit total : Nat}

theorem lt_totalPages_iff {p : Nat} :
    p < (of page limit total).totalPages ↔ p * max limit 1 < total := by
  have hpos : 0 < max limit 1 := by omega
  dsimp only [of]
  rw [Nat.lt_iff_add_one_le, Nat.le_div_iff_mul_le hpos, Nat.add_mul]
  omega

/-- The pages are as many as the pages that are filled, rounded up. -/
theorem totalPages_eq_ceil :
    (of page limit total).totalPages = ⌈(total : ℚ) / (max limit 1 : Nat)⌉₊ := by
  have hpos : (0 : ℚ) < (max limit 1 : Nat) := by
    exact_mod_cast (show 0 < max limit 1 by omega)
  refine eq_of_forall_lt_iff fun p => ?_
  rw [lt_totalPages_iff, Nat.lt_ceil, lt_div_iff₀ hpos]
  exact_mod_cast Iff.rfl

/-- A page has a next one if its last place lies before the end. -/
theorem hasNext_iff (fits : total ≤ maxSize) :
    (of page limit total).hasNext = true ↔ max page 1 * max limit 1 < total := by
  have hpage : max page 1 = max page 1 - 1 + 1 := by omega
  have hend : max page 1 * max limit 1 = (max page 1 - 1) * max limit 1 + max limit 1 := by
    rw [hpage, Nat.add_mul, Nat.add_sub_cancel, Nat.one_mul]
  change decide (min (offset (max page 1) (max limit 1) + max limit 1) maxSize < total) = true ↔ _
  rw [decide_eq_true_eq, offset, hend]
  omega

end PageInfo

namespace Page

variable {α : Type} {items : List α}

/-- The number of items that a page has room for. -/
def size (limit : Nat) : Nat := min (max limit 1) maxLimit

theorem size_pos (limit : Nat) : 0 < size limit := by
  have hlimit : maxLimit = 100 := rfl
  rw [size]
  omega

/-- The items of the first pages are the first items. -/
theorem flatMap_slices (items : List α) (size count : Nat) :
    ((List.range count).flatMap fun page => (items.drop (page * size)).take size) =
      items.take (count * size) := by
  induction count with
  | zero => simp
  | succ count ih =>
    rw [List.range_succ, List.flatMap_append, ih, List.flatMap_singleton, Nat.add_mul, Nat.one_mul,
      List.take_add]

/-- A page is a slice: where its place does not fit a word there are no items left. -/
theorem items_ofItems (fits : items.length ≤ maxSize) (page limit : Nat) :
    (ofItems items page limit).items =
      (items.drop ((max page 1 - 1) * size limit)).take (size limit) := by
  change (items.drop (min ((max page 1 - 1) * size limit) maxSize)).take (size limit) = _
  rcases Nat.le_total ((max page 1 - 1) * size limit) maxSize with hle | hge
  · rw [min_eq_left hle]
  · rw [min_eq_right hge, List.drop_eq_nil_of_le fits, List.drop_eq_nil_of_le (fits.trans hge)]

theorem length_items (fits : items.length ≤ maxSize) (page limit : Nat) :
    (ofItems items page limit).items.length =
      min (size limit) (items.length - (max page 1 - 1) * size limit) := by
  rw [items_ofItems fits, List.length_take, List.length_drop]

/-- The number of pages that a list fills. -/
def count (items : List α) (limit : Nat) : Nat := (ofItems items 1 limit).info.totalPages

theorem lt_count_iff {page limit : Nat} :
    page < count items limit ↔ page * size limit < items.length := by
  have hsize : max (size limit) 1 = size limit := max_eq_left (size_pos limit)
  change page < (PageInfo.of (max 1 1) (size limit) items.length).totalPages ↔ _
  rw [PageInfo.lt_totalPages_iff, hsize]

theorem length_le_count_mul (items : List α) (limit : Nat) :
    items.length ≤ count items limit * size limit :=
  Nat.le_of_not_lt fun h => absurd (lt_count_iff.mpr h) (Nat.lt_irrefl _)

theorem flatMap_items (fits : items.length ≤ maxSize) (limit : Nat) :
    ((List.range' 1 (count items limit)).flatMap fun page => (ofItems items page limit).items) =
      items := by
  have hslices : (fun page => (ofItems items (1 + page) limit).items) =
      fun page => (items.drop (page * size limit)).take (size limit) := by
    funext page
    rw [items_ofItems fits, show max (1 + page) 1 - 1 = page by omega]
  rw [List.range'_eq_map_range, List.flatMap_map, hslices, flatMap_slices,
    List.take_of_length_le (length_le_count_mul items limit)]

/-- A page that another one follows is full. -/
theorem length_items_of_lt_count (fits : items.length ≤ maxSize) {page limit : Nat}
    (hpage : 1 ≤ page) (h : page < count items limit) :
    (ofItems items page limit).items.length = size limit := by
  have hbefore := lt_count_iff.mp h
  have hend : page * size limit = (page - 1) * size limit + size limit := by
    rw [← Nat.succ_mul, Nat.succ_eq_add_one, Nat.sub_add_cancel hpage]
  rw [length_items fits, max_eq_left hpage]
  omega

/-- A page has items exactly if it is one of those that the list fills. -/
theorem items_eq_nil_iff (fits : items.length ≤ maxSize) {page limit : Nat} (hpage : 1 ≤ page) :
    (ofItems items page limit).items = [] ↔ count items limit < page := by
  have hlast : page - 1 < count items limit ↔ (page - 1) * size limit < items.length := lt_count_iff
  have hpos := size_pos limit
  rw [← List.length_eq_zero_iff, length_items fits, max_eq_left hpage]
  omega

/-- The pages of a list are its parts in order: all but the last are full, the last has something,
and the pages after it are empty. Where a page stands is worked out in words without a step that
fails. -/
theorem flatMap_pages (fits : items.length ≤ maxSize) :
    (∀ limit, (∀ page, (ofItems items page limit).info.totalPages = count items limit) ∧
      ((List.range' 1 (count items limit)).flatMap fun page =>
        (ofItems items page limit).items) = items ∧
      (∀ page, 1 ≤ page → page < count items limit →
        (ofItems items page limit).items.length = size limit) ∧
      (0 < count items limit →
        1 ≤ (ofItems items (count items limit) limit).items.length) ∧
      ∀ page, count items limit < page → (ofItems items page limit).items = []) ∧
    ∀ page limit total : UInt64, ∃ info, PageInfo.ofWords? page limit total = some info ∧
      info = .of page.toNat limit.toNat total.toNat ∧
      info.totalPages = ⌈(total.toNat : ℚ) / (max limit.toNat 1 : Nat)⌉₊ ∧
      (info.hasNext = true ↔ max page.toNat 1 < info.totalPages) ∧
      (info.hasNext = true ↔ max page.toNat 1 * max limit.toNat 1 < total.toNat) ∧
      (info.hasPrev = true ↔ 1 < max page.toNat 1) := by
  constructor
  · intro limit
    refine ⟨fun _ => rfl, flatMap_items fits limit,
      fun page hpage h => length_items_of_lt_count fits hpage h, ?_, ?_⟩
    · intro hcount
      refine List.length_pos_iff.mpr fun hempty => ?_
      exact absurd ((items_eq_nil_iff fits hcount).mp hempty) (Nat.lt_irrefl _)
    · intro page h
      exact (items_eq_nil_iff fits (by omega)).mpr h
  · intro page limit total
    refine ⟨_, PageInfo.ofWords?_eq page limit total, rfl, PageInfo.totalPages_eq_ceil, ?_, ?_, ?_⟩
    · rw [PageInfo.hasNext_iff (Word.toNat_le_maxSize total), PageInfo.lt_totalPages_iff]
    · exact PageInfo.hasNext_iff (Word.toNat_le_maxSize total)
    · exact decide_eq_true_iff

/-- Five items on pages of two, and the place of the largest page of the largest list. -/
theorem flatMap_pages_five : [1, 2, 3, 4, 5].length ≤ maxSize ∧
    count [1, 2, 3, 4, 5] 2 = 3 ∧
    ((List.range' 1 3).flatMap fun page => (ofItems [1, 2, 3, 4, 5] page 2).items) =
      [1, 2, 3, 4, 5] ∧
    (ofItems [1, 2, 3, 4, 5] 2 2).items.length = 2 ∧
    1 ≤ (ofItems [1, 2, 3, 4, 5] 3 2).items.length ∧
    (ofItems [1, 2, 3, 4, 5] maxSize 2).items = [] ∧
    ∃ info, PageInfo.ofWords? Word.largest Word.largest Word.largest = some info ∧
      (info.hasNext = true ↔ maxSize * maxSize < maxSize) := by
  have fits : [1, 2, 3, 4, 5].length ≤ maxSize := by decide
  have hcount : count [1, 2, 3, 4, 5] 2 = 3 := rfl
  obtain ⟨hpages, hwords⟩ := flatMap_pages fits
  obtain ⟨-, hflat, hfull, hlast, hlater⟩ := hpages 2
  obtain ⟨info, hinfo, -, -, -, hnext, -⟩ := hwords Word.largest Word.largest Word.largest
  rw [hcount] at hflat hfull hlast hlater
  exact ⟨fits, hcount, hflat, hfull 2 (by omega) (by omega), hlast (by omega),
    hlater maxSize (by decide), info, hinfo, hnext⟩

end Page

end Listing
