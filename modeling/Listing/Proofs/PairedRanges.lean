import Listing.Proofs.Backends
import Listing.Proofs.LinkNarrowing
import Listing.Proofs.RangeText
import Listing.Proofs.UnknownKeys

namespace Listing

namespace RangeSuffixes

/-- Whether no key ends in both endings. -/
structure Apart (suffixes : RangeSuffixes) : Prop where
  min_max : ¬suffixes.min.toList <:+ suffixes.max.toList
  max_min : ¬suffixes.max.toList <:+ suffixes.min.toList

instance (suffixes : RangeSuffixes) : Decidable suffixes.Apart :=
  decidable_of_iff
    (¬suffixes.min.toList <:+ suffixes.max.toList ∧ ¬suffixes.max.toList <:+ suffixes.min.toList)
    ⟨fun h => ⟨h.1, h.2⟩, fun h => ⟨h.min_max, h.max_min⟩⟩

variable {suffixes : RangeSuffixes}

/-- The key of a bound is split into the field and the bound. -/
theorem split?_keyFor (apart : suffixes.Apart) {base : String} (hbase : base ≠ "")
    (bound : RangeBound) : suffixes.split? (suffixes.keyFor base bound) = some (base, bound) :=
  forall_split?_keyFor_iff.mpr ⟨apart.min_max, apart.max_min⟩ base hbase bound

end RangeSuffixes

/-- The value of a filter that is not empty. -/
def State.activeFilter? (s : State) (key : String) : Option FilterValue :=
  (s.filters.get? key).filter fun value => !value.isEmpty

namespace Schema

variable (schema : Schema) (s : State) (f : Field)

/-- The filter on a bound of a field. -/
def boundFilter? (bound : RangeBound) : Option FilterValue :=
  s.activeFilter? (schema.rangeSuffixes.keyFor f.key bound)

/-- The range that the filters on the bounds of a field make. -/
def boundRange : Range := .ofValues (schema.boundFilter? s f .min) (schema.boundFilter? s f .max)

/-- A state without the filters that are on no bound of a field. -/
def boundsOnly : State :=
  { s with filters := s.filters.filter fun e =>
      e.1 = schema.rangeSuffixes.keyFor f.key .min || e.1 = schema.rangeSuffixes.keyFor f.key .max }

/-- Whether a bound of a field is filtered, by texts or by numbers if it is a number field, and only
its bounds decide its parameter. -/
structure Bounded : Prop where
  apart : schema.rangeSuffixes.Apart
  declared : schema.field? f.key = some f
  named : f.key ≠ ""
  given : ∃ bound, (schema.boundFilter? s f bound).isSome = true
  values : ∀ bound value, schema.boundFilter? s f bound = some value →
    (∃ text, value = .text text) ∨ f.type = .number ∧ ∃ n, value = .number n
  encodable : (schema.boundRange s f).Encodable
  alone : s.activeFilter? f.key = none
  undated : ∀ range, s.activeDateRange? ≠ some (f.key, range)
  unsorted : f.key ≠ Params.sortName

variable {schema s f}

theorem pairedKey?_keyFor (h : schema.Bounded s f) (bound : RangeBound) :
    schema.pairedKey? (schema.rangeSuffixes.keyFor f.key bound) = some ⟨f.key, bound, f.type⟩ := by
  simp [pairedKey?, RangeSuffixes.split?_keyFor h.apart h.named bound, h.declared]

theorem mem_activeFilters_boundsOnly {key : String} {value : FilterValue} :
    (key, value) ∈ (schema.boundsOnly s f).activeFilters ↔
      ∃ bound, key = schema.rangeSuffixes.keyFor f.key bound ∧
        schema.boundFilter? s f bound = some value := by
  simp only [State.mem_activeFilters, boundsOnly, OrderedMap.get?_filter, boundFilter?,
    State.activeFilter?, Option.filter_eq_some_iff, Bool.or_eq_true, decide_eq_true_eq,
    Bool.not_eq_true']
  constructor
  · rintro ⟨⟨hget, rfl | rfl⟩, hactive⟩
    · exact ⟨.min, rfl, hget, hactive⟩
    · exact ⟨.max, rfl, hget, hactive⟩
  · rintro ⟨bound, rfl, hget, hactive⟩
    refine ⟨⟨hget, ?_⟩, hactive⟩
    cases bound with
    | min => exact .inl rfl
    | max => exact .inr rfl

theorem test?_keyFor (h : schema.Bounded s f) (bound : RangeBound) (value : FilterValue) :
    schema.test? (schema.rangeSuffixes.keyFor f.key bound) value =
      some ⟨f.key, bound.operator, f.type, value⟩ := by
  simp only [test?, pairedKey?_keyFor h bound]

/-- The filters on the bounds of a field are tested one by one. -/
theorem all_tests_boundsOnly (h : schema.Bounded s f) (doc : Json) :
    ((schema.tests (schema.boundsOnly s f)).all fun t => t.passes doc) = true ↔
      ∀ bound value, schema.boundFilter? s f bound = some value →
        bound.operator.test f.type value (doc.resolve? f.key) = true := by
  simp only [tests, List.all_eq_true, List.mem_filterMap, Prod.exists,
    mem_activeFilters_boundsOnly]
  constructor
  · intro hall bound value hvalue
    exact hall _ ⟨_, value, ⟨bound, rfl, hvalue⟩, test?_keyFor h bound value⟩
  · rintro hall t ⟨key, value, ⟨bound, rfl, hvalue⟩, ht⟩
    rw [test?_keyFor h bound value] at ht
    cases ht
    exact hall bound value hvalue

/-- A bound of a field is tested alike by its filter and by the text of it. -/
theorem test_param (h : schema.Bounded s f) {bound : RangeBound} {value : FilterValue}
    (hvalue : schema.boundFilter? s f bound = some value) (item : Option Json) :
    bound.operator.test f.type value item =
      bound.operator.test f.type (.text value.param) item := by
  have hop : bound.operator = .gte ∨ bound.operator = .lte := by
    cases bound with
    | min => exact .inl rfl
    | max => exact .inr rfl
  rcases h.values bound value hvalue with ⟨text, rfl⟩ | ⟨htype, n, rfl⟩
  · rfl
  · have hactive : n.isNaN = false := by
      simpa [FilterValue.isEmpty] using (Option.filter_eq_some_iff.mp hvalue).2
    have haccepts : bound.operator.accepts f.type (.number n) =
        bound.operator.accepts f.type (.text n.display) := by
      funext value
      rw [htype]
      exact Operator.accepts_of_compareItem? hop (compareItem?_display hactive value).symm
    simp only [Operator.test, FilterValue.param, haccepts]

/-- A bound of the range of a field is the text of the filter on it. -/
theorem boundFilter?_param (h : schema.Bounded s f) (bound : RangeBound) :
    ((schema.boundFilter? s f bound).map FilterValue.param).filter (· ≠ "") =
      (schema.boundFilter? s f bound).map FilterValue.param := by
  cases hvalue : schema.boundFilter? s f bound with
  | none => rfl
  | some value =>
    have hactive := (Option.filter_eq_some_iff.mp hvalue).2
    have hne : value.param ≠ "" := by
      rcases h.values bound value hvalue with ⟨text, rfl⟩ | ⟨-, n, rfl⟩
      · simpa [FilterValue.isEmpty, FilterValue.param] using hactive
      · exact Double.display_ne_empty (by simpa [FilterValue.isEmpty] using hactive)
    simp [hne]

/-- The filters on the bounds of a field ask for the bounds of their range. -/
theorem all_tests_boundRange (h : schema.Bounded s f) (doc : Json) :
    ((schema.tests (schema.boundsOnly s f)).all fun t => t.passes doc) =
      (((schema.boundRange s f).min.all fun min =>
          Operator.gte.test f.type (.text min) (doc.resolve? f.key)) &&
        (schema.boundRange s f).max.all fun max =>
          Operator.lte.test f.type (.text max) (doc.resolve? f.key)) := by
  rw [Bool.eq_iff_iff, all_tests_boundsOnly h, Bool.and_eq_true, boundRange, Range.ofValues,
    Range.ofBounds, boundFilter?_param h, boundFilter?_param h]
  have hall : ∀ bound, (((schema.boundFilter? s f bound).map FilterValue.param).all fun text =>
      bound.operator.test f.type (.text text) (doc.resolve? f.key)) = true ↔
        ∀ value, schema.boundFilter? s f bound = some value →
          bound.operator.test f.type value (doc.resolve? f.key) = true := by
    intro bound
    cases hvalue : schema.boundFilter? s f bound with
    | none => simp
    | some value => simp [test_param h hvalue]
  constructor
  · intro htests
    exact ⟨(hall .min).mpr (htests .min), (hall .max).mpr (htests .max)⟩
  · rintro ⟨hmin, hmax⟩ bound
    cases bound with
    | min => exact (hall .min).mp hmin
    | max => exact (hall .max).mp hmax

end Schema

theorem Params.fst_of_mem_sortEmissions {sort : String} {e : String × Param}
    (h : e ∈ sortEmissions sort) : e.1 = sortName := by
  unfold sortEmissions at h
  split at h
  next => cases h
  next => rw [List.mem_singleton.mp h]

namespace FlatQuery

variable {schema : Schema} {s : State} {f : Field}

/-- Whatever filter emits the parameter of a field, it emits the range of its bounds. -/
theorem eq_of_filterEmission? (h : schema.Bounded s f) {key : String} {value : FilterValue}
    (hactive : (key, value) ∈ s.activeFilters) {e : String × Param}
    (he : filterEmission? schema s.filters key value = some e) (hname : e.1 = f.key) :
    e.2 = .text (schema.boundRange s f).encode := by
  unfold filterEmission? at he
  split at he
  next pair _ =>
    cases he
    dsimp only at hname
    rw [hname]
    rfl
  next =>
    have hkey : e.1 = key := by
      split at he
      next => cases he
      next =>
        split at he
        next =>
          obtain ⟨n, -, rfl⟩ := Option.map_eq_some_iff.mp he
          rfl
        next =>
          cases he
          rfl
    obtain ⟨hget, hempty⟩ := State.mem_activeFilters.mp hactive
    have hsome : s.activeFilter? f.key = some value :=
      Option.filter_eq_some_iff.mpr ⟨by rw [← hname, hkey, hget], by simpa using hempty⟩
    rw [h.alone] at hsome
    cases hsome

/-- The bounds of a field emit their range. -/
theorem mem_filters_boundRange (h : schema.Bounded s f) :
    (f.key, .text (schema.boundRange s f).encode) ∈ (compiler schema).filters s := by
  obtain ⟨bound, hgiven⟩ := h.given
  obtain ⟨value, hvalue⟩ := Option.isSome_iff_exists.mp hgiven
  obtain ⟨hget, hactive⟩ := Option.filter_eq_some_iff.mp hvalue
  have hmem : (schema.rangeSuffixes.keyFor f.key bound, value) ∈ s.activeFilters :=
    State.mem_activeFilters.mpr ⟨hget, by simpa using hactive⟩
  refine List.mem_filterMap.mpr ⟨_, hmem, ?_⟩
  simp only [compiler, filterEmission?, Schema.pairedKey?_keyFor h bound]
  rfl

/-- A date range emits at most a parameter of its field. -/
theorem fst_of_mem_dateEmissions {range : Option (String × DateRange)} {e : String × Param}
    (h : e ∈ dateEmissions range) : ∃ limits, range = some (e.1, limits) := by
  unfold dateEmissions at h
  split at h
  next => cases h
  next field limits =>
    dsimp only at h
    split at h
    next => cases h
    next =>
      cases List.mem_singleton.mp h
      exact ⟨limits, rfl⟩

/-- Neither the date range nor the sort order emits the parameter of the field. -/
theorem not_mem_last (h : schema.Bounded s f) :
    f.key ∉ ((compiler schema).last s.activeDateRange? s.sort).map Prod.fst := by
  rw [List.mem_map]
  rintro ⟨e, he, hname⟩
  rcases List.mem_append.mp he with he | he
  · obtain ⟨limits, hrange⟩ := fst_of_mem_dateEmissions he
    rw [hname] at hrange
    exact h.undated limits hrange
  · exact h.unsorted (hname.symm.trans (Params.fst_of_mem_sortEmissions he))

theorem get?_compile_boundRange (h : schema.Bounded s f) :
    (compile schema s).get? f.key = some (.text (schema.boundRange s f).encode) := by
  obtain ⟨⟨key, value⟩, p, hdecides, hget⟩ :=
    (compiler schema).compile_lastDecides s _ (mem_filters_boundRange h) (not_mem_last h)
  have hp : p = _ := eq_of_filterEmission? h hdecides.mem_activeFilters hdecides.emits rfl
  rw [compile_eq, hget, hp]

/-- The filters on the bounds of a field make one parameter, and its range asks for what they ask
for. -/
theorem entries_compile_bounds (h : schema.Bounded s f) :
    ((compile schema s).entries.filter fun e => e.1 = f.key) =
        [(f.key, .text (schema.boundRange s f).encode)] ∧
      ∃ r, Range.parse? (schema.boundRange s f).encode = some r ∧ ∀ doc : Json,
        ((schema.tests (schema.boundsOnly s f)).all fun t => t.passes doc) =
          ((r.min.all fun min => Operator.gte.test f.type (.text min) (doc.resolve? f.key)) &&
            r.max.all fun max => Operator.lte.test f.type (.text max) (doc.resolve? f.key)) :=
  ⟨OrderedMap.filter_entries_of_get? (get?_compile_boundRange h), schema.boundRange s f,
    Range.parse?_encode h.encodable, Schema.all_tests_boundRange h⟩

/-- A schema in which the search writes the parameter of the arrival as well. -/
def parcelSchema : Schema :=
  { Schema.empty with
    searchFields := [Field.ofKey "arrival" .string]
    filterFields := [Field.ofKey "arrival" .datetime, Field.ofKey "weight" .number,
      Field.ofKey "sender" .string] }

/-- The bounds of the arrival, the upper one first and apart, and one bound of the weight. -/
def parcelState : State where
  search := "north"
  filters := .ofList [("arrival_max", .text "2024-06-01T12:00:00Z"), ("sender", .text "mill"),
    ("arrival_min", .text "2024-05-01 08:00"), ("weight_max", .number (.ofInt 3))]
  sort := "arrival"
  dateRange := none

theorem entries_compile_bounds_parcels :
    parcelSchema.Bounded parcelState (.ofKey "arrival" .datetime) ∧
    parcelSchema.Bounded parcelState (.ofKey "weight" .number) ∧
    ((compile parcelSchema parcelState).entries.filter fun e => e.1 = "arrival") =
      [("arrival", .text "2024-05-01 08:00:2024-06-01T12:00:00Z")] ∧
    ((compile parcelSchema parcelState).entries.filter fun e => e.1 = "weight") =
      [("weight", .text ":3")] := by
  have harrival : parcelSchema.Bounded parcelState (.ofKey "arrival" .datetime) :=
    { apart := by decide
      declared := by decide
      named := by decide
      given := ⟨.min, by decide +kernel⟩
      values := by
        intro bound value hvalue
        cases bound with
        | min => exact .inl ⟨_, (Option.some.inj hvalue).symm⟩
        | max => exact .inl ⟨_, (Option.some.inj hvalue).symm⟩
      encodable := by decide +kernel
      alone := by decide
      undated := nofun
      unsorted := by decide }
  have hweight : parcelSchema.Bounded parcelState (.ofKey "weight" .number) :=
    { apart := by decide
      declared := by decide
      named := by decide
      given := ⟨.max, by decide +kernel⟩
      values := by
        intro bound value hvalue
        cases bound with
        | min => cases hvalue
        | max => exact .inr ⟨rfl, _, (Option.some.inj hvalue).symm⟩
      encodable := by decide +kernel
      alone := by decide
      undated := nofun
      unsorted := by decide }
  refine ⟨harrival, hweight, (entries_compile_bounds harrival).1.trans ?_,
    (entries_compile_bounds hweight).1.trans ?_⟩
  · decide +kernel
  · decide +kernel

end FlatQuery

end Listing
