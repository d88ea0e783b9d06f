import Listing.Proofs.ParameterTests
import Listing.Proofs.Paths

namespace Listing

/-- Whether the operator compares with one value. -/
def Operator.isComparison : Operator → Bool
  | .eq | .gt | .gte | .lt | .lte => true
  | _ => false

/-- Some document has a value at a path. -/
theorem Json.exists_resolve? (path : String) (value : Json) :
    ∃ doc : Json, doc.resolve? path = some value := by
  have hdescend : ∀ segments : List (List Char), ∃ doc : Json,
      doc.descend? segments = some value := by
    intro segments
    induction segments with
    | nil => exact ⟨value, rfl⟩
    | cons segment rest ih =>
      obtain ⟨doc, hdoc⟩ := ih
      refine ⟨.object [(String.ofList segment, doc)], ?_⟩
      simp [descend?, child?, hdoc]
  exact hdescend _

/-- An order with a number looks at the number of a filter only. -/
theorem Operator.accepts_number {op : Operator} (hop : op.isComparison = true) (hne : op ≠ .eq)
    {v w : FilterValue} (h : v.number? = w.number?) :
    op.accepts .number v = op.accepts .number w := by
  funext item
  have hcompare : compareItem? .number item v = compareItem? .number item w := by
    simp only [compareItem?, h]
  cases op with
  | eq => exact absurd rfl hne
  | gt | gte | lt | lte => simp only [accepts, hcompare]
  | like | startsWith | endsWith | isIn | between | range => cases hop

theorem Operator.accepts_of_number?_eq_none {op : Operator} (hop : op.isComparison = true)
    (hne : op ≠ .eq) {v : FilterValue} (h : v.number? = none) (item : Json) :
    op.accepts .number v item = false := by
  have hcompare : compareItem? .number item v = none := by
    cases hitem : item.number? <;> simp [compareItem?, h, hitem]
  cases op with
  | eq => exact absurd rfl hne
  | gt | gte | lt | lte => simp only [accepts, hcompare, Option.any_none]
  | like | startsWith | endsWith | isIn | between | range => cases hop

/-- Whether a value can be compared with numbers by the operator of a field: it has a number, and
for equality it is one. -/
def Field.Compares (f : Field) (value : FilterValue) : Prop :=
  value.number?.isSome ∧ (f.operator = .eq → ∃ n, value = .number n)

theorem Field.Compares.accepts {f : Field} {value : FilterValue} (h : f.Compares value)
    (hop : f.operator.isComparison = true) {n : Double} (hn : value.number? = some n) :
    f.operator.accepts .number (.number n) = f.operator.accepts .number value := by
  have hnumber : (FilterValue.number n).number? = some n := by
    simp [FilterValue.number?, FilterValue.isNaN_of_number? hn]
  by_cases heq : f.operator = .eq
  · obtain ⟨m, rfl⟩ := h.2 heq
    have hm : m = n := by
      cases hnan : m.isNaN <;> simp [FilterValue.number?, hnan] at hn
      exact hn
    rw [hm]
  · exact Operator.accepts_number hop heq (hnumber.trans hn.symm)

/-- A state whose only filter is an active one on a field of numbers, whose key is no bound and whose
operator compares with one value. -/
structure State.ComparesNumber (schema : Schema) (s : State) (f : Field) (value : FilterValue) :
    Prop where
  field : schema.field? f.key = some f
  unpaired : schema.pairedKey? f.key = none
  type : f.type = .number
  comparison : f.operator.isComparison = true
  only : s.filters.entries = [(f.key, value)]
  active : value.isEmpty = false

namespace SuffixedQuery

/-- Whether a document passes what is emitted for the filters of a state: everything does if nothing
is emitted, and a number is compared with the value of the field. -/
def LetsThrough (separator : String) (schema : Schema) (s : State) (f : Field) (doc : Json) : Prop :=
  filterEmissions separator schema s = [] ∨
    ∃ n, filterEmissions separator schema s =
        [(paramName separator f.key f.operator, .number n)] ∧
      f.operator.test .number (.number n) (doc.resolve? f.key) = true

variable {schema : Schema} {s : State} {f : Field} {value : FilterValue}

theorem activeFilters_of_only (h : s.ComparesNumber schema f value) :
    s.activeFilters = [(f.key, value)] := by
  simp [State.activeFilters, h.only, h.active]

theorem filterEmissions_of_number (h : s.ComparesNumber schema f value) (separator : String) :
    filterEmissions separator schema s = (value.number?.map fun n =>
      (paramName separator f.key f.operator, Param.number n)).toList := by
  have hop : (f.operator.isRanged || f.operator == .isIn) = false := by
    have hcomparison := h.comparison
    cases hf : f.operator <;> simp [hf, Operator.isComparison] at hcomparison <;> rfl
  have hemission : filterEmission? separator schema f.key value = value.number?.map fun n =>
      (paramName separator f.key f.operator, Param.number n) := by
    simp only [filterEmission?, target?, h.field, paramValue?, hop, h.type, Option.bind_eq_bind,
      Option.bind_some, Bool.false_eq_true, if_false, if_true]
    cases value.number? <;> rfl
  rw [filterEmissions, activeFilters_of_only h]
  simp only [List.filterMap_cons, List.filterMap_nil, hemission]
  cases value.number? <;> rfl

/-- A state that chooses nothing else is written as what its filters emit. -/
theorem entries_compile_of_number (h : s.ComparesNumber schema f value) (separator : String)
    (hsearch : s.search = "") (hrange : s.dateRange = none) (hsort : s.sort = "") :
    (compile separator schema s).entries = filterEmissions separator schema s := by
  have hemissions : emissions separator schema s = filterEmissions separator schema s := by
    simp [emissions, searchEmissions, dateEmissions, Params.sortEmissions, State.activeDateRange?,
      filterEmissions, hsearch, hrange, hsort]
  rw [compile, hemissions, filterEmissions_of_number h]
  cases value.number? <;> rfl

theorem mem_byFilters_iff (h : s.ComparesNumber schema f value) {α : Type}
    {entries : List (Entry α)} {e : Entry α} :
    e ∈ Narrowing.byFilters schema s entries ↔
      e ∈ entries ∧ f.operator.test .number value (e.doc.resolve? f.key) = true := by
  have htests : schema.tests s = [⟨f.key, f.operator, f.type, value⟩] := by
    simp [Schema.tests, activeFilters_of_only h, Schema.test?, h.field, h.unpaired]
  simp [Narrowing.byFilters, htests, Test.passes, h.type]

/-- Where the value compares with numbers, a filter and its emission let the same through. -/
theorem mem_byFilters_iff_letsThrough (h : s.ComparesNumber schema f value)
    (compares : f.Compares value) (separator : String) {α : Type} {entries : List (Entry α)}
    {e : Entry α} (he : e ∈ entries) :
    e ∈ Narrowing.byFilters schema s entries ↔ LetsThrough separator schema s f e.doc := by
  obtain ⟨n, hn⟩ := Option.isSome_iff_exists.mp compares.1
  have hemissions := filterEmissions_of_number h separator
  rw [hn] at hemissions
  have htest : f.operator.test .number (.number n) (e.doc.resolve? f.key) =
      f.operator.test .number value (e.doc.resolve? f.key) := by
    rw [Operator.test, Operator.test, compares.accepts h.comparison hn]
  rw [mem_byFilters_iff h, LetsThrough, hemissions]
  simp [he, htest]

/-- Where a filter and its emission let the same through, the value compares with numbers: a null
document tells a value without a number, and one that holds the number any other. -/
theorem compares_of_mem_byFilters_iff (h : s.ComparesNumber schema f value) (separator : String)
    (hagree : ∀ (entries : List (Entry Unit)), ∀ e ∈ entries,
      e ∈ Narrowing.byFilters schema s entries ↔ LetsThrough separator schema s f e.doc) :
    f.Compares value := by
  have hemissions := filterEmissions_of_number h separator
  have hdoc : ∀ doc : Json, LetsThrough separator schema s f doc →
      f.operator.test .number value (doc.resolve? f.key) = true := by
    intro doc hthrough
    have hmem := (hagree [⟨(), doc⟩] ⟨(), doc⟩ List.mem_cons_self).mpr hthrough
    exact ((mem_byFilters_iff h).mp hmem).2
  cases hn : value.number? with
  | none =>
    rw [hn] at hemissions
    have htest := hdoc .null (.inl hemissions)
    rw [Json.resolve?_of_isScalar rfl] at htest
    cases htest
  | some n =>
    rw [hn] at hemissions
    refine ⟨by simp [hn], ?_⟩
    intro heq
    obtain ⟨doc, hresolve⟩ := Json.exists_resolve? f.key (.number (.decimal n))
    have hsame : (Operator.eq).test .number (.number n) (some (.number (.decimal n))) = true :=
      Double.same_self (FilterValue.isNaN_of_number? hn)
    have htest := hdoc doc (.inr ⟨n, hemissions, by rwa [hresolve, heq]⟩)
    rw [hresolve, heq] at htest
    cases value with
    | number m => exact ⟨m, rfl⟩
    | text | bool | list => cases htest

/-- A filter on a field of numbers emits its number, and lets through what its emission does exactly
if the value compares with numbers. Otherwise nothing passes an order, and equality asks for the
value itself. -/
theorem byFilters_number (h : s.ComparesNumber schema f value) (separator : String) :
    filterEmissions separator schema s = (value.number?.map fun n =>
      (paramName separator f.key f.operator, Param.number n)).toList ∧
    (s.search = "" → s.dateRange = none → s.sort = "" →
      (compile separator schema s).entries = filterEmissions separator schema s) ∧
    ((∀ (α : Type) (entries : List (Entry α)), ∀ e ∈ entries,
      e ∈ Narrowing.byFilters schema s entries ↔ LetsThrough separator schema s f e.doc) ↔
        f.Compares value) ∧
    (f.operator ≠ .eq → value.number? = none → ∀ (α : Type) (entries : List (Entry α)),
      Narrowing.byFilters schema s entries = []) ∧
    (f.operator = .eq → ∀ (α : Type) (entries : List (Entry α)) (e : Entry α),
      e ∈ Narrowing.byFilters schema s entries ↔
        e ∈ entries ∧ ∃ item, e.doc.resolve? f.key = some item ∧ strictlyEqual item value = true) := by
  refine ⟨filterEmissions_of_number h separator, entries_compile_of_number h separator, ?_, ?_, ?_⟩
  · constructor
    · intro hagree
      exact compares_of_mem_byFilters_iff h separator fun entries => hagree Unit entries
    · intro compares α entries e he
      exact mem_byFilters_iff_letsThrough h compares separator he
  · intro hne hnone α entries
    rw [List.eq_nil_iff_forall_not_mem]
    intro e he
    obtain ⟨item, -, haccepts⟩ := (Option.any_eq_true _ _).mp ((mem_byFilters_iff h).mp he).2
    rw [Operator.accepts_of_number?_eq_none h.comparison hne hnone] at haccepts
    cases haccepts
  · intro heq α entries e
    rw [mem_byFilters_iff h, heq]
    refine and_congr_right fun _ => ?_
    cases hitem : e.doc.resolve? f.key with
    | none => simp [Operator.test]
    | some item => cases item <;> simp [Operator.test, Operator.accepts, Json.isNull, strictlyEqual]

def parcelWeight : Field := ⟨"weight", none, .number, some .gte, [], none⟩

def parcelCount : Field := .ofKey "count" .number

/-- Parcels by their least weight and by the count of what is in them. -/
def parcelSchema : Schema := { Schema.empty with filterFields := [parcelWeight, parcelCount] }

theorem byFilters_number_parcels :
    let s := State.empty.withFilter "weight" (.text " 12 ")
    s.ComparesNumber parcelSchema parcelWeight (.text " 12 ") ∧
      parcelWeight.Compares (.text " 12 ") ∧
      (compile standardSeparator parcelSchema s).entries = [("weight__gte", .number (.ofInt 12))] ∧
      ∀ (α : Type) (entries : List (Entry α)), ∀ e ∈ entries,
        e ∈ Narrowing.byFilters parcelSchema s entries ↔
          LetsThrough standardSeparator parcelSchema s parcelWeight e.doc := by
  intro s
  have h : s.ComparesNumber parcelSchema parcelWeight (.text " 12 ") :=
    ⟨by decide, by decide +kernel, rfl, rfl, by decide, by decide⟩
  have hnumber : (FilterValue.text " 12 ").number? = some (.ofInt 12) := by decide +kernel
  have compares : parcelWeight.Compares (.text " 12 ") :=
    ⟨by rw [hnumber]; rfl, fun heq => absurd heq (by decide)⟩
  have hname : paramName standardSeparator parcelWeight.key parcelWeight.operator = "weight__gte" := by
    decide +kernel
  obtain ⟨hemissions, hcompile, hagree, -⟩ := byFilters_number h standardSeparator
  refine ⟨h, compares, ?_, hagree.mpr compares⟩
  rw [hcompile rfl rfl rfl, hemissions, hnumber, Option.map_some, hname]
  rfl

/-- A filter and its emission can disagree: a text without a number emits nothing and lets nothing
through, and a text with a number equals no number. -/
theorem byFilters_number_ne :
    let heavy := State.empty.withFilter "weight" (.text "heavy")
    let pair := State.empty.withFilter "count" (.text "2")
    let parcel : Entry Unit := ⟨(), .object [("count", .number (.integer 2)),
      ("weight", .number (.integer 5))]⟩
    parcelSchema.validate = .ok () ∧
      heavy.ComparesNumber parcelSchema parcelWeight (.text "heavy") ∧
      (filterEmissions standardSeparator parcelSchema heavy = [] ∧
        LetsThrough standardSeparator parcelSchema heavy parcelWeight parcel.doc ∧
        parcel ∉ Narrowing.byFilters parcelSchema heavy [parcel]) ∧
      pair.ComparesNumber parcelSchema parcelCount (.text "2") ∧
      (filterEmissions standardSeparator parcelSchema pair = [("count", .number (.ofInt 2))] ∧
        LetsThrough standardSeparator parcelSchema pair parcelCount parcel.doc ∧
        parcel ∉ Narrowing.byFilters parcelSchema pair [parcel]) := by
  intro heavy pair parcel
  have hnone : ∀ s, Narrowing.byFilters parcelSchema s [parcel] = [] →
      parcel ∉ Narrowing.byFilters parcelSchema s [parcel] := by
    intro s hs
    rw [hs]
    exact List.not_mem_nil
  have hheavy : filterEmissions standardSeparator parcelSchema heavy = [] := by decide +kernel
  have hpair : filterEmissions standardSeparator parcelSchema pair =
      [("count", .number (.ofInt 2))] := by decide +kernel
  have hname : paramName standardSeparator parcelCount.key parcelCount.operator = "count" := by
    decide +kernel
  refine ⟨rfl, ⟨by decide, by decide +kernel, rfl, rfl, by decide, by decide⟩,
    ⟨hheavy, .inl hheavy, ?_⟩, ⟨by decide, by decide +kernel, rfl, rfl, by decide, by decide⟩,
    hpair, .inr ⟨.ofInt 2, by rw [hpair, hname], ?_⟩, ?_⟩
  · apply hnone
    decide +kernel
  · decide +kernel
  · apply hnone
    decide +kernel

end SuffixedQuery

end Listing
