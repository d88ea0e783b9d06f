import Listing.Proofs.Backends
import Listing.Proofs.SchemaFaults

namespace Listing

/-- What a parameter compares with when it is read as a filter again. -/
def Param.value : Param → FilterValue
  | .text s => .text s
  | .number n => .number n

theorem Param.param_value_ofFilter (v : FilterValue) : (ofFilter v).value.param = v.param := by
  cases v <;> rfl

/-- A value that is no list names the same instant when it is read back from its parameter. -/
theorem Param.instant?_value_ofFilter {v : FilterValue} (scalar : ∀ values, v ≠ .list values) :
    (ofFilter v).value.instant? = v.instant? := by
  cases v with
  | text | number => rfl
  | bool b =>
    -- Neither word is a date.
    cases b <;> decide +kernel
  | list values => exact absurd rfl (scalar values)

namespace SuffixedQuery

variable {separator : String} {schema : Schema} {s : State}

theorem test?_eq_target? {key : String}
    (apart : schema.field? key = none ∨ schema.pairedKey? key = none) (value : FilterValue) :
    schema.test? key value =
      (target? schema key).map fun (base, type, op) => ⟨base, op, type, value⟩ := by
  unfold Schema.test? target?
  cases hfield : schema.field? key with
  | none => cases schema.pairedKey? key <;> rfl
  | some f =>
    have hpair : schema.pairedKey? key = none := apart.resolve_left (by simp [hfield])
    simp [hpair, (Schema.mem_of_field? hfield).2]

theorem isCompatible_of_target? (valid : schema.validate = .ok ()) {key base : String}
    {type : FieldType} {op : Operator} (h : target? schema key = some (base, type, op)) :
    op.isCompatible type = true := by
  unfold target? at h
  split at h
  next f hfield =>
    cases h
    exact (Schema.fieldsAgree_of_validate valid).operators f (Schema.mem_of_field? hfield).1
  next =>
    obtain ⟨pair, -, hpair⟩ := Option.map_eq_some_iff.mp h
    cases hpair
    cases pair.bound <;> rfl

/-- Every value is written, except for one without a number where numbers are compared. -/
theorem paramValue?_isSome_iff {type : FieldType} {op : Operator} {value : FilterValue} :
    (paramValue? type op value).isSome = true ↔
      (type = .number → op.isRanged = false → op ≠ .isIn → value.number?.isSome = true) := by
  unfold paramValue?
  by_cases hop : (op.isRanged || op == .isIn) = true
  · rw [if_pos hop]
    simp only [Option.isSome_some, true_iff]
    intro _ hranged hin
    simp [hranged, hin] at hop
  · have hfree : op.isRanged = false ∧ op ≠ .isIn := by simpa using hop
    rw [if_neg hop]
    by_cases htype : type = .number
    · simp [htype, hfree]
    · simp [htype]

theorem exists_paramValue? {type : FieldType} {op : Operator} {value : FilterValue}
    (numeric : type = .number → op.isRanged = false → value.number?.isSome) :
    ∃ p, paramValue? type op value = some p :=
  Option.isSome_iff_exists.mp <| paramValue?_isSome_iff.mpr fun htype hranged _ =>
    numeric htype hranged

/-- The parameter of a filter is ordered with an item as the filter is. -/
theorem compareItem?_paramValue {type : FieldType} {op : Operator} {value : FilterValue} {p : Param}
    (scalar : ∀ values, value ≠ .list values) (hranged : op.isRanged = false) (hin : op ≠ .isIn)
    (h : paramValue? type op value = some p) (item : Json) :
    compareItem? type item p.value = compareItem? type item value := by
  have hop : ¬(op.isRanged || op == .isIn) = true := by simp [hranged, hin]
  unfold paramValue? at h
  rw [if_neg hop] at h
  by_cases htype : type = .number
  · rw [if_pos htype] at h
    obtain ⟨n, hn, rfl⟩ := Option.map_eq_some_iff.mp h
    have hnumber : (Param.number n).value.number? = some n := by
      simp [Param.value, FilterValue.number?, FilterValue.isNaN_of_number? hn]
    subst type
    simp only [compareItem?, hn, hnumber]
  · rw [if_neg htype] at h
    cases h
    have hinstant := Param.instant?_value_ofFilter scalar
    have hparam := Param.param_value_ofFilter value
    cases type with
    | number => exact absurd rfl htype
    | date | datetime => simp only [compareItem?, hinstant]
    | string | boolean | select | multiselect => simp only [compareItem?, hparam]

theorem param_paramValue {type : FieldType} {op : Operator} {value : FilterValue} {p : Param}
    (htype : op.isRanged = true ∨ type ≠ .number) (h : paramValue? type op value = some p) :
    p.value.param = value.param := by
  unfold paramValue? at h
  split at h
  next =>
    cases h
    rfl
  next hop =>
    have hne : type ≠ .number := htype.resolve_left fun hr => hop (by simp [hr])
    rw [if_neg hne] at h
    cases h
    exact Param.param_value_ofFilter value

/-- Read as a filter, a parameter accepts what the filter accepts that it was written for. -/
theorem accepts_paramValue {type : FieldType} {op : Operator} {value : FilterValue} {p : Param}
    (compatible : op.isCompatible type = true) (scalar : ∀ values, value ≠ .list values)
    (heq : op ≠ .eq) (hin : op ≠ .isIn) (h : paramValue? type op value = some p) (item : Json) :
    op.accepts type p.value item = op.accepts type value item := by
  have hordered (hranged : op.isRanged = false) :
      compareItem? type item p.value = compareItem? type item value :=
    compareItem?_paramValue scalar hranged hin h item
  have htextual (hmatch : op.isTextMatch = true) : type ≠ .number := by
    rintro rfl
    simp [Operator.isCompatible, hmatch, FieldType.isTextual] at compatible
  cases op with
  | eq => exact absurd rfl heq
  | isIn => exact absurd rfl hin
  | like | startsWith | endsWith =>
    simp only [Operator.accepts, matchesText, param_paramValue (.inr (htextual rfl)) h]
  | gt | gte | lt | lte => simp only [Operator.accepts, hordered rfl]
  | between | range =>
    simp only [Operator.accepts, isBetween, param_paramValue (.inl rfl) h]

variable (separator schema s) in
/-- The test that the parameter of a filter makes when it is read in the query. -/
def parameterTest? (key : String) : Option Test := do
  let (base, type, op) ← target? schema key
  let param ← (compile separator schema s).get? (paramName separator base op)
  return ⟨base, op, type, param.value⟩

variable (separator schema s) in
/-- The tests that the parameters of all filters make. -/
def parameterTests : List Test :=
  s.activeFilters.filterMap fun (key, _) => parameterTest? separator schema s key

variable (separator schema s) in
/-- The parameters that the filters of a state emit. -/
def filterEmissions : List (String × Param) :=
  s.activeFilters.filterMap fun (key, value) => filterEmission? separator schema key value

variable (separator schema s) in
/-- Filters that each have a parameter of their own which can be compared as they are. -/
structure Faithful : Prop where
  scalar : ∀ entry ∈ s.activeFilters, ∀ values, entry.2 ≠ .list values
  apart : ∀ entry ∈ s.activeFilters,
    schema.field? entry.1 = none ∨ schema.pairedKey? entry.1 = none
  operators : ∀ entry ∈ s.activeFilters, ∀ f, schema.field? entry.1 = some f →
    f.operator ≠ .eq ∧ f.operator ≠ .isIn
  numeric : ∀ entry ∈ s.activeFilters, ∀ base op,
    target? schema entry.1 = some (base, .number, op) → op.isRanged = false →
      entry.2.number?.isSome
  names : ((filterEmissions separator schema s).map Prod.fst).Nodup
  later : ∀ e ∈ filterEmissions separator schema s,
    e.1 ∉ (dateEmissions separator s.activeDateRange? ++ Params.sortEmissions s.sort).map Prod.fst

/-- A parameter that nothing else emits is in the query. -/
theorem get?_compile_filter (h : Faithful separator schema s) {e : String × Param}
    (he : e ∈ filterEmissions separator schema s) :
    (compile separator schema s).get? e.1 = some e.2 := by
  have hfilters : (filterEmissions separator schema s).reverse.lookup e.1 = some e.2 := by
    apply (OrderedMap.lookup_eq_some_iff_mem _).mpr (List.mem_reverse.mpr he)
    rw [List.map_reverse]
    exact List.nodup_reverse.mpr h.names
  rw [compile_eq]
  exact (compiler separator schema).get?_compile_of_final (h.later e he) hfilters

/-- A filter and its parameter let the same documents through. -/
theorem parameterTest?_passes (valid : schema.validate = .ok ()) (h : Faithful separator schema s)
    {key : String} {value : FilterValue} (hv : (key, value) ∈ s.activeFilters) (doc : Json) :
    (parameterTest? separator schema s key).all (fun t => t.passes doc) =
      (schema.test? key value).all fun t => t.passes doc := by
  rw [test?_eq_target? (h.apart _ hv)]
  unfold parameterTest?
  cases htarget : target? schema key with
  | none => rfl
  | some target =>
    obtain ⟨base, type, op⟩ := target
    obtain ⟨p, hp⟩ : ∃ p, paramValue? type op value = some p := by
      apply exists_paramValue?
      rintro rfl hranged
      exact h.numeric _ hv base op htarget hranged
    have hemitted : (paramName separator base op, p) ∈ filterEmissions separator schema s := by
      refine List.mem_filterMap.mpr ⟨(key, value), hv, ?_⟩
      simp [filterEmission?, htarget, hp]
    have hget := get?_compile_filter h hemitted
    have hop : op ≠ .eq ∧ op ≠ .isIn := by
      have hcopy := htarget
      unfold target? at hcopy
      split at hcopy
      next f hfield =>
        cases hcopy
        exact h.operators _ hv f hfield
      next =>
        obtain ⟨pair, -, hpair⟩ := Option.map_eq_some_iff.mp hcopy
        cases hpair
        cases pair.bound <;> decide
    have haccepts : op.accepts type p.value = op.accepts type value := by
      funext item
      exact accepts_paramValue (isCompatible_of_target? valid htarget) (h.scalar _ hv) hop.1 hop.2
        hp item
    simp [hget, Test.passes, Operator.test, haccepts]

/-- Every filter is in the query, and read there as tests the parameters leave the entries that the
filters leave. -/
theorem byFilters_eq_parameterTests (valid : schema.validate = .ok ())
    (h : Faithful separator schema s) :
    (∀ e ∈ filterEmissions separator schema s,
      (compile separator schema s).get? e.1 = some e.2) ∧
    ∀ (α : Type) (entries : List (Entry α)), Narrowing.byFilters schema s entries =
      entries.filter fun e =>
        (parameterTests separator schema s).all fun t => t.passes e.doc := by
  refine ⟨fun e he => get?_compile_filter h he, ?_⟩
  intro α entries
  have htests : ∀ doc, ((schema.tests s).all fun t => t.passes doc) =
      (parameterTests separator schema s).all fun t => t.passes doc := by
    intro doc
    rw [Schema.tests, parameterTests, List.all_filterMap, List.all_filterMap, Bool.eq_iff_iff,
      List.all_eq_true, List.all_eq_true]
    refine forall₂_congr ?_
    rintro ⟨key, value⟩ hv
    exact Bool.eq_iff_iff.mp (parameterTest?_passes valid h hv doc).symm
  simp only [Narrowing.byFilters, htests]

/-- Watches with a brand, a stock and the day of their release. -/
def watchSchema : Schema where
  searchFields := [.ofKey "name" .string]
  filterFields := [⟨"brand", none, .string, some .like, [], none⟩, .ofKey "stock" .number,
    ⟨"released", none, .date, some .gt, [], none⟩]
  sortOptions := [⟨"name:asc", "Name"⟩]
  dateRangeFields := [⟨"released", none⟩]
  rangeSuffixes := .standard

def watchState : State where
  search := "diver"
  filters := .ofList [("brand", .text "Sei"), ("stock_min", .text " 5 "), ("colour", .text "red"),
    ("released", .text "2024-05-01")]
  sort := "name:asc"
  dateRange := some ⟨some "released", none, some "2024-05-31"⟩

theorem byFilters_watches : watchSchema.validate = .ok () ∧
    Faithful standardSeparator watchSchema watchState ∧
    (compile standardSeparator watchSchema watchState).get? "brand__like" = some (.text "Sei") ∧
    ∀ (α : Type) (entries : List (Entry α)), Narrowing.byFilters watchSchema watchState entries =
      entries.filter fun e =>
        (parameterTests standardSeparator watchSchema watchState).all fun t => t.passes e.doc := by
  have valid : watchSchema.validate = .ok () := rfl
  have hactive : watchState.activeFilters = [("brand", .text "Sei"), ("stock_min", .text " 5 "),
      ("colour", .text "red"), ("released", .text "2024-05-01")] := by decide +kernel
  have hbrand : watchSchema.field? "brand" =
      some ⟨"brand", none, .string, some .like, [], none⟩ := by decide
  have hreleased : watchSchema.field? "released" =
      some ⟨"released", none, .date, some .gt, [], none⟩ := by decide
  have hstock : watchSchema.field? "stock_min" = none := by decide
  have hcolour : watchSchema.field? "colour" = none := by decide
  have faithful : Faithful standardSeparator watchSchema watchState := by
    constructor
    case scalar => simp [hactive]
    case apart => decide +kernel
    case operators => simp [hactive, hbrand, hreleased, hstock, hcolour, Field.operator]
    case numeric =>
      have hnumber : (FilterValue.text " 5 ").number?.isSome = true := by decide +kernel
      have hnone : watchSchema.pairedKey? "colour" = none := by decide +kernel
      simp [hactive, target?, hbrand, hreleased, hstock, hcolour, hnumber, hnone]
    case names => decide +kernel
    case later => decide +kernel
  obtain ⟨hquery, hentries⟩ := byFilters_eq_parameterTests valid faithful
  exact ⟨valid, faithful, hquery ("brand__like", .text "Sei") (by decide +kernel), hentries⟩

end SuffixedQuery

end Listing
