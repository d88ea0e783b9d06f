import Listing.Proofs.LinkPairs
import Listing.Proofs.Narrowing
import Listing.Proofs.NumberText

namespace Listing

theorem Double.same_iff {a b : Double} :
    a.same b = true ↔ ∃ place, a.place? = some place ∧ b.place? = some place := by
  unfold same compare?
  generalize a.place? = x, b.place? = y
  cases x with
  | none => simp
  | some x =>
    cases y with
    | none => simp
    | some y =>
      have hswap : x = y ↔ y = x := eq_comm
      simpa using hswap

/-- Two doubles are the same when they are equal or both are zeros. -/
theorem Double.eq_or_zeros_of_same {a b : Double} (h : a.same b = true) :
    a = b ∨ ∃ m n, a = .zero m ∧ b = .zero n := by
  obtain ⟨place, ha, hb⟩ := same_iff.mp h
  cases a with
  | nan => cases ha
  | ranked m i =>
    cases b with
    | nan => cases hb
    | ranked n j =>
      simp only [place?, Option.some.injEq] at ha hb
      by_cases hi : i.val = 0
      · have hj : j.val = 0 := by
          split at ha <;> split at hb <;> omega
        exact .inr ⟨m, n, congrArg _ (Fin.ext hi), congrArg _ (Fin.ext hj)⟩
      · refine .inl ?_
        have hval : i.val = j.val ∧ m = n := by
          cases m <;> cases n <;> simp at ha hb ⊢ <;> omega
        rw [Fin.ext hval.1, hval.2]

namespace Double

theorem place?_zero (negative : Bool) : (zero negative).place? = some 0 := by
  cases negative <;> rfl

theorem display_zero (negative : Bool) : (zero negative).display = "0" := by
  cases negative <;> decide +kernel

theorem toInt64_zero (negative : Bool) : (zero negative).toInt64 = 0 := by
  have hwhole : weight 0 / unit = 0 := by
    rw [weight_eq, if_pos (by decide), Nat.zero_div]
  unfold toInt64 zero
  dsimp only
  rw [hwhole, Nat.zero_min, Nat.zero_min]
  cases negative <;> rfl

theorem compare?_zero (d : Double) (m n : Bool) : d.compare? (zero m) = d.compare? (zero n) := by
  rw [compare?, compare?, place?_zero, place?_zero]

end Double

namespace FilterValue

variable {v w : FilterValue}

theorem eq_or_zeros_of_same (h : v.same w = true) :
    v = w ∨ ∃ m n, v = .number (.zero m) ∧ w = .number (.zero n) := by
  cases v with
  | number a =>
    cases w with
    | number b =>
      rcases Double.eq_or_zeros_of_same h with rfl | ⟨m, n, rfl, rfl⟩
      · exact .inl rfl
      · exact .inr ⟨m, n, rfl, rfl⟩
    | text | bool | list => cases h
  | text a =>
    cases w with
    | text b => exact .inl (congrArg _ (of_decide_eq_true h))
    | number | bool | list => cases h
  | bool a =>
    cases w with
    | bool b => exact .inl (congrArg _ (of_decide_eq_true h))
    | text | number | list => cases h
  | list a =>
    cases w with
    | list b => exact .inl (congrArg _ (of_decide_eq_true h))
    | text | number | bool => cases h

/-- Only an empty value can differ from itself. -/
theorem same_self (h : v.isEmpty = false) : v.same v = true := by
  cases v with
  | text s => simp [same]
  | number n => exact Double.same_self h
  | bool b => simp [same]
  | list values => simp [same]

theorem same_symm (h : v.same w = true) : w.same v = true := by
  rcases eq_or_zeros_of_same h with rfl | ⟨m, n, rfl, rfl⟩
  · exact h
  · cases m <;> cases n <;> decide

theorem same_left (h : v.same w = true) : v.same v = true := by
  rcases eq_or_zeros_of_same h with rfl | ⟨m, n, rfl, rfl⟩
  · exact h
  · exact same_self rfl

theorem same_trans {u : FilterValue} (h : v.same w = true) (h' : w.same u = true) :
    v.same u = true := by
  rcases eq_or_zeros_of_same h with rfl | ⟨m, n, rfl, rfl⟩
  · exact h'
  · rcases eq_or_zeros_of_same h' with rfl | ⟨m', n', -, rfl⟩
    · exact h
    · cases m <;> cases n' <;> decide

theorem param_eq_of_same (h : v.same w = true) : v.param = w.param := by
  rcases eq_or_zeros_of_same h with rfl | ⟨m, n, rfl, rfl⟩
  · rfl
  · rw [param, param, Double.display_zero, Double.display_zero]

theorem isEmpty_eq_of_same (h : v.same w = true) : v.isEmpty = w.isEmpty := by
  rcases eq_or_zeros_of_same h with rfl | ⟨m, n, rfl, rfl⟩
  · rfl
  · rfl

/-- What a link or a range says of a value that may be missing or empty. -/
theorem activeParam_of_rel {x y : Option FilterValue}
    (h : Option.Rel (fun v w => FilterValue.same v w = true) x y) :
    (x.filter fun v => !v.isEmpty).map param = (y.filter fun v => !v.isEmpty).map param := by
  cases h with
  | none => rfl
  | some hsame =>
    simp only [Option.filter_some, isEmpty_eq_of_same hsame]
    split
    next => simp only [Option.map_some, param_eq_of_same hsame]
    next => rfl

end FilterValue

theorem compareItem?_congr {v w : FilterValue} (h : v.same w = true) (type : FieldType)
    (item : Json) : compareItem? type item v = compareItem? type item w := by
  rcases FilterValue.eq_or_zeros_of_same h with rfl | ⟨m, n, rfl, rfl⟩
  · rfl
  · have hnumber : ∀ b, (FilterValue.number (.zero b)).number? = some (.zero b) := fun _ => rfl
    have hinstant : (FilterValue.number (.zero m)).instant? =
        (FilterValue.number (.zero n)).instant? := by
      rw [FilterValue.instant?, FilterValue.instant?, Double.toInt64_zero, Double.toInt64_zero]
    unfold compareItem?
    rw [hnumber, hnumber, hinstant, FilterValue.param_eq_of_same h]
    simp only [Option.bind_eq_bind, Option.bind_some, Double.compare?_zero _ m n]

theorem strictlyEqual_congr {v w : FilterValue} (h : v.same w = true) (item : Json) :
    strictlyEqual item v = strictlyEqual item w := by
  rcases FilterValue.eq_or_zeros_of_same h with rfl | ⟨m, n, rfl, rfl⟩
  · rfl
  · cases item with
    | number a =>
      show (a.toDouble.compare? (.zero m) == some .eq) = (a.toDouble.compare? (.zero n) == some .eq)
      rw [Double.compare?_zero _ m n]
    | null | bool | text | array | object => rfl

/-- Values that are the same make one test. -/
theorem Operator.accepts_congr {v w : FilterValue} (h : v.same w = true) (op : Operator)
    (type : FieldType) : op.accepts type v = op.accepts type w := by
  funext item
  have hparam := FilterValue.param_eq_of_same h
  have hin : (Operator.isIn).accepts type v item = (Operator.isIn).accepts type w item := by
    rcases FilterValue.eq_or_zeros_of_same h with rfl | ⟨m, n, rfl, rfl⟩
    · rfl
    · exact strictlyEqual_congr h item
  cases op with
  | isIn => exact hin
  | eq => exact strictlyEqual_congr h item
  | like | startsWith | endsWith => simp only [accepts, matchesText, hparam]
  | gt | gte | lt | lte => simp only [accepts, compareItem?_congr h]
  | between | range => simp only [accepts, isBetween, hparam]

theorem Test.passes_congr {v w : FilterValue} (h : v.same w = true) (path : String)
    (op : Operator) (type : FieldType) (doc : Json) :
    Test.passes ⟨path, op, type, v⟩ doc = Test.passes ⟨path, op, type, w⟩ doc := by
  simp only [passes, Operator.test, Operator.accepts_congr h]

namespace State

variable {s t : State}

theorem same_iff : s.same t = true ↔ s.search = t.search ∧
    (∀ key, Option.Rel (fun v w => FilterValue.same v w = true) (s.filters.get? key)
      (t.filters.get? key)) ∧ s.sort = t.sort ∧ s.dateRange = t.dateRange := by
  rw [← OrderedMap.sameBy_iff]
  simp [same, and_assoc]

theorem same_symm (h : s.same t = true) : t.same s = true := by
  obtain ⟨hsearch, hfilters, hsort, hrange⟩ := same_iff.mp h
  exact same_iff.mpr ⟨hsearch.symm,
    fun key => rel_swap (hfilters key) fun _ _ => FilterValue.same_symm, hsort.symm, hrange.symm⟩

theorem same_self (h : ∀ key value, s.filters.get? key = some value → value.isEmpty = false) :
    s.same s = true := by
  refine same_iff.mpr ⟨rfl, ?_, rfl, rfl⟩
  intro key
  cases hv : s.filters.get? key with
  | none => exact .none
  | some value => exact .some (FilterValue.same_self (h key value hv))

/-- A state that is the same as some state is the same as itself. -/
theorem same_left (h : s.same t = true) : s.same s = true := by
  obtain ⟨-, hfilters, -⟩ := same_iff.mp h
  exact same_iff.mpr ⟨rfl, fun key => rel_left (hfilters key) fun _ _ => FilterValue.same_left,
    rfl, rfl⟩

theorem mem_activeFilters {entry : String × FilterValue} :
    entry ∈ s.activeFilters ↔
      s.filters.get? entry.1 = some entry.2 ∧ entry.2.isEmpty = false := by
  rw [activeFilters, List.mem_filter, OrderedMap.get?_eq_some_iff]
  simp

/-- A filter of a state is one of every state that is the same, with a value that is the same. -/
theorem exists_activeFilter (h : s.same t = true) {key : String} {v : FilterValue}
    (hv : (key, v) ∈ s.activeFilters) : ∃ w, (key, w) ∈ t.activeFilters ∧ v.same w = true := by
  obtain ⟨hget, hactive⟩ := mem_activeFilters.mp hv
  have hrel := (same_iff.mp h).2.1 key
  rw [hget] at hrel
  obtain ⟨w, hw, hsame⟩ := exists_of_rel_some hrel
  refine ⟨w, mem_activeFilters.mpr ⟨hw, ?_⟩, hsame⟩
  rw [← FilterValue.isEmpty_eq_of_same hsame, hactive]

theorem activeDateRange?_of_same (h : s.same t = true) :
    s.activeDateRange? = t.activeDateRange? := by
  rw [activeDateRange?, activeDateRange?, (same_iff.mp h).2.2.2]

end State

/-- States that are the same let the same documents through. -/
theorem Schema.keeps_of_same (schema : Schema) {s t : State} (h : s.same t = true) :
    schema.keeps s = schema.keeps t := by
  have himp : ∀ {s t : State}, s.same t = true → ∀ doc,
      ((schema.tests s).all fun test => test.passes doc) = true →
        ((schema.tests t).all fun test => test.passes doc) = true := by
    intro s t h doc hall
    rw [List.all_eq_true] at hall ⊢
    intro test htest
    obtain ⟨⟨key, w⟩, hw, htest⟩ := List.mem_filterMap.mp htest
    obtain ⟨v, hv, hsame⟩ := State.exists_activeFilter (State.same_symm h) hw
    have hpasses : ∀ test', schema.test? key v = some test' → test'.passes doc = true :=
      fun test' ht => hall test' (List.mem_filterMap.mpr ⟨(key, v), hv, ht⟩)
    dsimp only at htest
    unfold test? at htest hpasses
    cases hpair : schema.pairedKey? key with
    | some pair =>
      simp only [hpair, Option.some.injEq] at htest hpasses
      rw [← htest, Test.passes_congr hsame]
      exact hpasses _ rfl
    | none =>
      simp only [hpair] at htest hpasses
      obtain ⟨f, hf, rfl⟩ := Option.map_eq_some_iff.mp htest
      rw [Test.passes_congr hsame]
      exact hpasses _ (by rw [hf]; rfl)
  have htests : ∀ doc, ((schema.tests s).all fun test => test.passes doc) =
      (schema.tests t).all fun test => test.passes doc := fun doc =>
    Bool.eq_iff_iff.mpr ⟨himp h doc, himp (State.same_symm h) doc⟩
  funext doc
  rw [keeps, keeps, htests, (State.same_iff.mp h).1, State.activeDateRange?_of_same h]

theorem Narrowing.apply_of_same {α : Type} (schema : Schema) {s t : State} (h : s.same t = true)
    (entries : List (Entry α)) : apply schema s entries = apply schema t entries := by
  rw [apply_eq_filter_sort, apply_eq_filter_sort, schema.keeps_of_same h,
    (State.same_iff.mp h).2.2.1]

namespace Link

theorem filterText?_of_same {s t : State} (h : s.same t = true) (key : String) :
    filterText? s key = filterText? t key := by
  rw [filterText?, filterText?, FilterValue.activeParam_of_rel ((State.same_iff.mp h).2.1 key)]

theorem restore_same_self (schema : Schema) (query : String) :
    (restore schema query).same (restore schema query) = true :=
  State.same_self fun _ _ h => isEmpty_of_get?_readFilters h

/-- Links of states that are the same give one state back. -/
theorem restore_write_of_same (schema : Schema) {s t : State} (h : s.same t = true) :
    restore schema (write s) = restore schema (write t) := by
  obtain ⟨hsearch, -, hsort, -⟩ := State.same_iff.mp h
  rw [restore, restore, read_write, read_write]
  congr 1
  apply readPairs_congr
  intro name _
  rw [valueOf?_pairs, valueOf?_pairs, hsearch, hsort, filterText?_of_same h, dateText?, dateText?,
    State.activeDateRange?_of_same h]

end Link

end Listing
