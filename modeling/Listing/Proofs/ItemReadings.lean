import Listing.Proofs.SameStates

namespace Listing

namespace Double

theorem toInt64_of_weight {negative : Bool} {rank : Fin (top + 1)} {whole : Nat}
    (h : weight rank = whole * unit) (hsmall : whole < 2 ^ 63) :
    (ranked negative rank).toInt64 = if negative then -(whole : Int) else whole := by
  have hdiv : weight rank / unit = whole := by rw [h, Nat.mul_div_cancel _ unit_pos]
  simp only [toInt64, Nat.pow_eq, hdiv]
  split <;> omega

/-- An integer of at most 53 binary digits is not changed by rounding. -/
theorem toInt64_ofInt {n : Int} (h : n.natAbs ≤ 2 ^ 53) : (ofInt n).toInt64 = n := by
  obtain ⟨rank, htop, hweight⟩ := exists_weight_eq h
  have hrank : ofInt n = ranked (decide (n < 0)) ⟨rank, by omega⟩ :=
    congrArg _ (Fin.ext (nearestRank_of_weight htop hweight))
  rw [hrank, toInt64_of_weight hweight (by omega)]
  by_cases hneg : n < 0
  · rw [if_pos (decide_eq_true hneg)]
    omega
  · rw [if_neg (by simpa using hneg)]
    omega

/-- Rounding moves no longer integer back to 53 binary digits. -/
theorem natAbs_toInt64_ofInt {n : Int} (h : 2 ^ 53 ≤ n.natAbs) :
    2 ^ 53 ≤ (ofInt n).toInt64.natAbs := by
  obtain ⟨rank, htop, hweight⟩ := exists_weight_eq (le_refl (2 ^ 53))
  have hrank : rank ≤ nearestRank n.natAbs 1 := by
    rw [← nearestRank_of_weight htop hweight]
    exact nearestRank_mono Nat.one_pos h
  have hwhole : 2 ^ 53 ≤ weight (nearestRank n.natAbs 1) / unit := by
    rw [Nat.le_div_iff_mul_le unit_pos, ← hweight]
    exact weight_strictMono.monotone hrank
  change 2 ^ 53 ≤ (ranked (decide (n < 0)) ⟨nearestRank n.natAbs 1, _⟩).toInt64.natAbs
  simp only [toInt64, Nat.pow_eq]
  split <;> omega

end Double

namespace Calendar

/-- Every count of milliseconds that names an instant is a double, and all others stay out of
reach when they are rounded to one. -/
theorem Instant.ofMillis?_toInt64_ofInt (n : Int) :
    ofMillis? (Double.ofInt n).toInt64 = ofMillis? n := by
  by_cases h : n.natAbs ≤ 2 ^ 53
  · rw [Double.toInt64_ofInt h]
  · have hlarge := Double.natAbs_toInt64_ofInt (n := n) (by omega)
    unfold ofMillis?
    rw [if_neg (by omega), if_neg (by omega)]

end Calendar

/-- The value of a filter that says what an item says, if it is a text, a number, a truth value or a
list of texts. -/
def FilterValue.ofItem? : Json → Option FilterValue
  | .text s => some (.text s)
  | .number n => if n.toDouble.isNaN then none else some (.number n.toDouble)
  | .bool b => some (.bool b)
  | .array items => (items.mapM Json.text?).map .list
  | _ => none

namespace FilterValue

variable {a b : Json} {v w : FilterValue}

theorem mapM_text?_eq_some_iff {items : List Json} {values : List String} :
    items.mapM Json.text? = some values ↔ items.map Json.text? = values.map some := by
  induction items generalizing values with
  | nil => cases values <;> simp
  | cons item rest ih =>
    have hcons : (item :: rest).mapM Json.text? =
        item.text?.bind fun s => (rest.mapM Json.text?).map (s :: ·) := by
      rw [List.mapM_cons]
      cases item.text? <;> cases rest.mapM Json.text? <;> rfl
    rw [hcons, Option.bind_eq_some_iff]
    simp only [Option.map_eq_some_iff, ih]
    cases values with
    | nil => simp
    | cons value values => simp

/-- What an item is of which a filter says the same. -/
theorem cases_of_ofItem? (h : ofItem? a = some v) :
    (∃ s, a = .text s ∧ v = .text s) ∨
    (∃ n, a = .number n ∧ v = .number n.toDouble ∧ n.toDouble.isNaN = false) ∨
    (∃ b, a = .bool b ∧ v = .bool b) ∨
    ∃ items values, a = .array items ∧ v = .list values ∧
      items.map Json.text? = values.map some := by
  cases a with
  | null | object => cases h
  | text s => exact .inl ⟨s, rfl, (Option.some.inj h).symm⟩
  | bool b => exact .inr (.inr (.inl ⟨b, rfl, (Option.some.inj h).symm⟩))
  | number n =>
    simp only [ofItem?] at h
    split at h
    next => cases h
    next hnan => exact .inr (.inl ⟨n, rfl, (Option.some.inj h).symm, by simpa using hnan⟩)
  | array items =>
    obtain ⟨values, hvalues, rfl⟩ := Option.map_eq_some_iff.mp h
    exact .inr (.inr (.inr ⟨items, values, rfl, rfl, mapM_text?_eq_some_iff.mp hvalues⟩))

theorem isNull_of_ofItem? (h : ofItem? a = some v) : a.isNull = false := by
  cases a with
  | null => cases h
  | text | number | bool | array | object => rfl

theorem displayItems_eq {items : List Json} {values : List String}
    (h : items.map Json.text? = values.map some) : Json.displayItems items = values := by
  induction items generalizing values with
  | nil =>
    cases values with
    | nil => rfl
    | cons value values => cases h
  | cons item rest ih =>
    cases values with
    | nil => cases h
    | cons value values =>
      obtain ⟨hitem, hrest⟩ := List.cons.inj h
      cases item with
      | text s =>
        cases hitem
        rw [Json.displayItems, ih hrest, Json.display]
      | null | bool | number | array | object => cases hitem

theorem number?_of_ofItem? (h : ofItem? a = some v) : a.number? = v.number? := by
  rcases cases_of_ofItem? h with ⟨s, rfl, rfl⟩ | ⟨n, rfl, rfl, -⟩ | ⟨b, rfl, rfl⟩ |
    ⟨items, values, rfl, rfl, -⟩ <;> rfl

theorem instant?_of_ofItem? (h : ofItem? a = some v) : a.instant? = v.instant? := by
  rcases cases_of_ofItem? h with ⟨s, rfl, rfl⟩ | ⟨n, rfl, rfl, -⟩ | ⟨b, rfl, rfl⟩ |
    ⟨items, values, rfl, rfl, -⟩
  · rfl
  · cases n with
    | decimal d => rfl
    | integer n =>
      change Calendar.Instant.ofMillis? (Json.millis (.integer n)) =
        Calendar.Instant.ofMillis? (Double.ofInt n).toInt64
      simp only [Json.millis]
      split
      next => exact (Calendar.Instant.ofMillis?_toInt64_ofInt n).symm
      next => rfl
  · rfl
  · rfl

theorem display_of_ofItem? (h : ofItem? a = some v) : a.display = v.param := by
  rcases cases_of_ofItem? h with ⟨s, rfl, rfl⟩ | ⟨n, rfl, rfl, -⟩ | ⟨b, rfl, rfl⟩ |
    ⟨items, values, rfl, rfl, hitems⟩
  · rfl
  · rfl
  · rfl
  · rw [Json.display, param, displayItems_eq hitems]

/-- Strict equality of an item with a filter is equality of two filter values. -/
theorem strictlyEqual_of_ofItem? (h : ofItem? a = some v) (w : FilterValue) :
    strictlyEqual a w = v.same w := by
  rcases cases_of_ofItem? h with ⟨s, rfl, rfl⟩ | ⟨n, rfl, rfl, -⟩ | ⟨b, rfl, rfl⟩ |
    ⟨items, values, rfl, rfl, hitems⟩
  · cases w <;> rfl
  · cases w <;> rfl
  · cases w <;> rfl
  · cases w with
    | text | number | bool => rfl
    | list other =>
      have hinj : values.map some = other.map some ↔ values = other :=
        (List.map_injective_iff.mpr (Option.some_injective String)).eq_iff
      simp only [strictlyEqual, same, hitems, hinj]

theorem same_self_of_ofItem? (h : ofItem? a = some v) : v.same v = true := by
  rcases cases_of_ofItem? h with ⟨s, -, rfl⟩ | ⟨n, -, rfl, hnan⟩ | ⟨b, -, rfl⟩ |
    ⟨items, values, -, rfl, -⟩
  · simp [same]
  · exact Double.same_self hnan
  · simp [same]
  · simp [same]

end FilterValue

theorem Double.compare?_swap (a b : Double) : a.compare? b = (b.compare? a).map Ordering.swap := by
  unfold compare?
  cases a.place? with
  | none => cases b.place? <;> rfl
  | some x =>
    cases b.place? with
    | none => rfl
    | some y => exact congrArg some Std.OrientedOrd.eq_swap

theorem compareItem?_swap {a b : Json} {v w : FilterValue} (ha : FilterValue.ofItem? a = some v)
    (hb : FilterValue.ofItem? b = some w) (type : FieldType) :
    compareItem? type a w = (compareItem? type b v).map Ordering.swap := by
  have hnumber : compareItem? .number a w = (compareItem? .number b v).map Ordering.swap := by
    simp only [compareItem?, FilterValue.number?_of_ofItem? ha, FilterValue.number?_of_ofItem? hb]
    cases v.number? with
    | none => cases w.number? <;> rfl
    | some x =>
      cases w.number? with
      | none => rfl
      | some y => exact Double.compare?_swap x y
  have hinstant : compareItem? .date a w = (compareItem? .date b v).map Ordering.swap := by
    simp only [compareItem?, FilterValue.instant?_of_ofItem? ha,
      FilterValue.instant?_of_ofItem? hb]
    cases v.instant? with
    | none => cases w.instant? <;> rfl
    | some t =>
      cases w.instant? with
      | none => rfl
      | some u => exact congrArg some Std.OrientedCmp.eq_swap
  have htext : compareItem? .string a w = (compareItem? .string b v).map Ordering.swap := by
    simp only [compareItem?, FilterValue.display_of_ofItem? ha, FilterValue.display_of_ofItem? hb]
    exact congrArg some Std.OrientedOrd.eq_swap
  cases type with
  | number => exact hnumber
  | date | datetime => exact hinstant
  | string | boolean | select | multiselect => exact htext

/-- An item that is strictly equal to a filter is ordered with it as the same, if at all. -/
theorem compareItem?_of_strictlyEqual {a : Json} {v w : FilterValue}
    (ha : FilterValue.ofItem? a = some v) (h : strictlyEqual a w = true) (type : FieldType) :
    compareItem? type a w = none ∨ compareItem? type a w = some .eq := by
  rw [FilterValue.strictlyEqual_of_ofItem? ha] at h
  have hself := compareItem?_swap ha ha type
  rw [← compareItem?_congr h type a]
  cases horder : compareItem? type a v with
  | none => exact .inl rfl
  | some order =>
    rw [horder, Option.map_some, Option.some.injEq] at hself
    cases order with
    | eq => exact .inr rfl
    | lt | gt => cases hself

theorem Operator.test_of_ofItem? {a : Json} {v : FilterValue}
    (ha : FilterValue.ofItem? a = some v) (op : Operator) (type : FieldType) (w : FilterValue) :
    op.test type w (some a) = op.accepts type w a := by
  simp [test, FilterValue.isNull_of_ofItem? ha]

/-- Items and filters that say the same are read as the same number, instant and text, so that a
comparison can be turned round. An item equals the filter that says the same, and wherever it equals
a filter no strict order holds between them, and the orders that admit equality hold exactly if both
have a reading. -/
theorem Operator.test_ofItem {a b : Json} {v w : FilterValue}
    (ha : FilterValue.ofItem? a = some v) (hb : FilterValue.ofItem? b = some w) :
    (a.number? = v.number? ∧ a.instant? = v.instant? ∧ a.display = v.param) ∧
    ∀ type,
      compareItem? type a w = (compareItem? type b v).map Ordering.swap ∧
      (Operator.eq).test type v (some a) = true ∧
      ((Operator.eq).test type w (some a) = true →
        (Operator.gt).test type w (some a) = false ∧
        (Operator.lt).test type w (some a) = false ∧
        (Operator.gte).test type w (some a) = (compareItem? type a w).isSome ∧
        (Operator.lte).test type w (some a) = (compareItem? type a w).isSome) := by
  refine ⟨⟨FilterValue.number?_of_ofItem? ha, FilterValue.instant?_of_ofItem? ha,
    FilterValue.display_of_ofItem? ha⟩, ?_⟩
  intro type
  simp only [test_of_ofItem? ha]
  refine ⟨compareItem?_swap ha hb type, ?_, ?_⟩
  · exact (FilterValue.strictlyEqual_of_ofItem? ha v).trans (FilterValue.same_self_of_ofItem? ha)
  · intro heq
    simp only [accepts]
    rcases compareItem?_of_strictlyEqual ha heq type with hnone | hsame
    · rw [hnone]
      exact ⟨rfl, rfl, rfl, rfl⟩
    · rw [hsame]
      exact ⟨rfl, rfl, rfl, rfl⟩

/-- Two integers of which one is no double are equal, as numbers in either order of the two, and no
instants. -/
theorem Operator.test_ofItem_large :
    let a := Json.number (.integer 9007199254740993)
    let b := Json.number (.integer 9007199254740992)
    let v := FilterValue.number (.ofInt 9007199254740993)
    let w := FilterValue.number (.ofInt 9007199254740992)
    FilterValue.ofItem? a = some v ∧ FilterValue.ofItem? b = some w ∧
    compareItem? .number a w = some .eq ∧ compareItem? .number b v = some .eq ∧
    (Operator.eq).test .number w (some a) = true ∧ (Operator.gte).test .number w (some a) = true ∧
    a.instant? = v.instant? ∧ (Operator.lte).test .date w (some a) = false := by
  intro a b v w
  have ha : FilterValue.ofItem? a = some v := by decide +kernel
  have hb : FilterValue.ofItem? b = some w := by decide +kernel
  obtain ⟨⟨-, hinstant, -⟩, htests⟩ := Operator.test_ofItem ha hb
  have hnumber : compareItem? .number b v = some .eq := by decide +kernel
  have hdate : compareItem? .date a w = none := by decide +kernel
  have heq : (Operator.eq).test .number w (some a) = true := by decide +kernel
  obtain ⟨hswap, -, horders⟩ := htests .number
  obtain ⟨-, -, hdates⟩ := htests .date
  rw [hnumber] at hswap
  obtain ⟨-, -, hgte, -⟩ := horders heq
  obtain ⟨-, -, -, hlte⟩ := hdates heq
  refine ⟨ha, hb, hswap, hnumber, heq, ?_, hinstant, ?_⟩
  · rw [hgte, hswap]
    rfl
  · rw [hlte, hdate]
    rfl

end Listing
