import Listing.Proofs.FieldOrder
import Listing.Proofs.LinkNormalForm
import Listing.Proofs.ParameterNames
import Listing.Proofs.ParameterTests

namespace Listing

variable {schema : Schema} {key : String} {value : FilterValue}

/-- Whether a field compares numbers with a list. -/
def Field.ListsNumbers (f : Field) : Prop := f.type = .number ∧ f.operator = .isIn

theorem State.activeFilters_withFilter_empty (h : value.isEmpty = false) :
    (State.empty.withFilter key value).activeFilters = [(key, value)] := by
  have hentries : (State.empty.withFilter key value).filters.entries = [(key, value)] := by
    rw [withFilter, h]
    rfl
  simp [activeFilters, hentries, h]

/-- Where nothing else is chosen, a filter is written as what is emitted for it. -/
theorem Compiler.entries_compile_withFilter (c : Compiler) (hsearch : c.search "" = [])
    (hlast : c.last none "" = []) (h : value.isEmpty = false) :
    (c.compile (State.empty.withFilter key value)).entries =
      (c.filter? (State.empty.withFilter key value).filters key value).toList := by
  have hfilters : c.filters (State.empty.withFilter key value) =
      (c.filter? (State.empty.withFilter key value).filters key value).toList := by
    rw [filters, State.activeFilters_withFilter_empty h]
    cases hemission : c.filter? (State.empty.withFilter key value).filters key value <;>
      simp only [List.filterMap_cons, List.filterMap_nil, hemission] <;> rfl
  have hsearch' : c.search (State.empty.withFilter key value).search = [] := hsearch
  have hlast' : c.last (State.empty.withFilter key value).activeDateRange?
      (State.empty.withFilter key value).sort = [] := hlast
  rw [compile, hsearch', hlast', hfilters, List.nil_append, List.append_nil]
  cases c.filter? (State.empty.withFilter key value).filters key value <;> rfl

/-- What is emitted exactly under a condition, and under one name, is one parameter or none. -/
theorem Params.toList_emission {emission : Option (String × Param)} {name : String} {takes : Prop}
    (hsome : emission.isSome = true ↔ takes) (hname : ∀ e, emission = some e → e.1 = name) :
    (takes → ∃ p, emission.toList = [(name, p)]) ∧ (¬takes → emission.toList = []) := by
  rw [← hsome]
  cases emission with
  | none => simp
  | some e =>
    obtain rfl := hname e rfl
    exact ⟨fun _ => ⟨e.2, rfl⟩, fun hnot => absurd rfl hnot⟩

namespace FlatQuery

/-- The parameters of a state that has one filter and nothing else. -/
def single (schema : Schema) (key : String) (value : FilterValue) : List (String × Param) :=
  (compile schema (State.empty.withFilter key value)).entries

/-- The name of the parameter of a filter. -/
def filterName (schema : Schema) (key : String) : String :=
  ((schema.pairedKey? key).map PairedKey.base).getD key

/-- Whether a filter is emitted: on a bound, or on a field that can compare with its value. -/
def Takes (schema : Schema) (key : String) (value : FilterValue) : Prop :=
  (schema.pairedKey? key).isSome = true ∨ ∃ f, schema.field? key = some f ∧
    (f.type = .number → f.operator.isRanged = false → value.number?.isSome = true)

theorem filterEmission?_isSome_iff (filters : OrderedMap FilterValue) :
    (filterEmission? schema filters key value).isSome = true ↔ Takes schema key value := by
  unfold filterEmission? Takes
  cases schema.pairedKey? key with
  | some pair => simp
  | none =>
    cases schema.field? key with
    | none => simp
    | some f =>
      by_cases hf : f.type = .number ∧ f.operator.isRanged = false
      · simp [hf]
      · have hfree : f.type = .number → f.operator.isRanged = false →
            value.number?.isSome = true := fun htype hranged => absurd ⟨htype, hranged⟩ hf
        simpa [hf] using hfree

theorem name_of_filterEmission? {filters : OrderedMap FilterValue} {e : String × Param}
    (h : filterEmission? schema filters key value = some e) : e.1 = filterName schema key := by
  unfold filterEmission? at h
  unfold filterName
  split at h
  next pair hpair =>
    cases h
    rw [hpair]
    rfl
  next hpair =>
    rw [hpair]
    split at h
    next => cases h
    next =>
      split at h
      next =>
        obtain ⟨n, -, rfl⟩ := Option.map_eq_some_iff.mp h
        rfl
      next =>
        cases h
        rfl

theorem single_eq (h : value.isEmpty = false) : single schema key value =
    (filterEmission? schema (State.empty.withFilter key value).filters key value).toList := by
  rw [single, compile_eq]
  exact (compiler schema).entries_compile_withFilter rfl rfl h

theorem single_of_takes (h : value.isEmpty = false) :
    (Takes schema key value → ∃ p, single schema key value = [(filterName schema key, p)]) ∧
      (¬Takes schema key value → single schema key value = []) := by
  rw [single_eq h]
  exact Params.toList_emission (filterEmission?_isSome_iff _) fun _ => name_of_filterEmission?

end FlatQuery

namespace SuffixedQuery

/-- The parameters of a state that has one filter and nothing else. -/
def single (separator : String) (schema : Schema) (key : String) (value : FilterValue) :
    List (String × Param) :=
  (compile separator schema (State.empty.withFilter key value)).entries

/-- The name of the parameter of a filter. -/
def filterName (separator : String) (schema : Schema) (key : String) : String :=
  ((target? schema key).map fun (base, _, op) => paramName separator base op).getD key

/-- Whether a filter is emitted: on a declared field or a bound, with a value that has a number
where it is compared as one. -/
def Takes (schema : Schema) (key : String) (value : FilterValue) : Prop :=
  ∃ base type op, target? schema key = some (base, type, op) ∧
    (type = .number → op.isRanged = false → op ≠ .isIn → value.number?.isSome = true)

theorem filterEmission?_isSome_iff (separator : String) :
    (filterEmission? separator schema key value).isSome = true ↔ Takes schema key value := by
  unfold filterEmission? Takes
  cases target? schema key with
  | none => simp
  | some target =>
    obtain ⟨base, type, op⟩ := target
    simpa [Option.isSome_bind] using @paramValue?_isSome_iff type op value

theorem name_of_filterEmission? {separator : String} {e : String × Param}
    (h : filterEmission? separator schema key value = some e) :
    e.1 = filterName separator schema key := by
  obtain ⟨⟨base, type, op⟩, htarget, h⟩ := Option.bind_eq_some_iff.mp h
  obtain ⟨p, -, he⟩ := Option.bind_eq_some_iff.mp h
  cases he
  rw [filterName, htarget]
  rfl

theorem single_eq (separator : String) (h : value.isEmpty = false) :
    single separator schema key value = (filterEmission? separator schema key value).toList := by
  rw [single, compile_eq]
  exact (compiler separator schema).entries_compile_withFilter rfl rfl h

theorem single_of_takes (separator : String) (h : value.isEmpty = false) :
    (Takes schema key value →
      ∃ p, single separator schema key value = [(filterName separator schema key, p)]) ∧
      (¬Takes schema key value → single separator schema key value = []) := by
  rw [single_eq separator h]
  exact Params.toList_emission (filterEmission?_isSome_iff separator) fun _ =>
    name_of_filterEmission?

end SuffixedQuery

namespace Link

variable {query : String} {f : Field}

/-- The value that a field reads under a key of a query. -/
def reading? (schema : Schema) (query key : String) (f : Field) : Option FilterValue :=
  if key ∈ readableKeys schema f then (valueOf? (given query) key).bind (readValue? f) else none

/-- Whether a field is the first that reads a value under a key of a query. -/
def ReadBy (schema : Schema) (query key : String) (f : Field) (value : FilterValue) : Prop :=
  ∃ before after, schema.filterFields = before ++ f :: after ∧
    reading? schema query key f = some value ∧ ∀ g ∈ before, reading? schema query key g = none

theorem get?_restore_eq_some_iff :
    (restore schema query).filters.get? key = some value ↔
      ∃ f, ReadBy schema query key f value := by
  rw [get?_restore, readings, List.head?_filterMap]
  change schema.filterFields.findSome? (reading? schema query key) = some value ↔ _
  rw [List.findSome?_eq_some_iff]
  unfold ReadBy
  constructor
  · rintro ⟨before, f, after, heq, hf, hbefore⟩
    exact ⟨f, before, after, heq, hf, hbefore⟩
  · rintro ⟨f, before, after, heq, hf, hbefore⟩
    exact ⟨before, f, after, heq, hf, hbefore⟩

theorem ReadBy.mem (h : ReadBy schema query key f value) : f ∈ schema.filterFields := by
  obtain ⟨before, after, heq, -⟩ := h
  simp [heq]

theorem ReadBy.carries (h : ReadBy schema query key f value) : f.Carries value := by
  obtain ⟨-, -, -, hread, -⟩ := h
  unfold reading? at hread
  split at hread
  next =>
    obtain ⟨raw, hraw, hvalue⟩ := Option.bind_eq_some_iff.mp hread
    refine carries_of_readValue? ?_ hvalue
    rintro rfl
    exact valueOf?_ne_empty _ _ hraw
  next => cases hread

/-- A field that compares with single numbers reads numbers. -/
theorem ReadBy.number?_isSome (h : ReadBy schema query key f value) (htype : f.type = .number)
    (hranged : f.operator.isRanged = false) (hin : f.operator ≠ .isIn) :
    value.number?.isSome = true := by
  have hcarries := h.carries
  simp only [Field.Carries, htype, hin, hranged, reduceCtorEq, or_self, if_false,
    Bool.false_eq_true] at hcarries
  obtain ⟨n, rfl, hn⟩ := hcarries
  simp [FilterValue.number?, hn]

theorem takes_of_number? (hnumber : value.number?.isSome = true)
    (hknown : (schema.field? key).isSome = true ∨ (schema.pairedKey? key).isSome = true) :
    FlatQuery.Takes schema key value ∧ SuffixedQuery.Takes schema key value := by
  cases hfield : schema.field? key with
  | some f =>
    exact ⟨.inr ⟨f, hfield, fun _ _ => hnumber⟩,
      key, f.type, f.operator, SuffixedQuery.target?_of_field? hfield, fun _ _ _ => hnumber⟩
  | none =>
    rw [hfield] at hknown
    obtain hpaired := hknown.resolve_left (by simp)
    obtain ⟨pair, hpair⟩ := Option.isSome_iff_exists.mp hpaired
    have htarget : SuffixedQuery.target? schema key =
        some (pair.base, pair.type, pair.bound.operator) := by
      simp [SuffixedQuery.target?, hfield, hpair]
    exact ⟨.inl hpaired, _, _, _, htarget, fun _ _ _ => hnumber⟩

theorem ReadBy.takes_own (valid : schema.validate = .ok ()) (h : ReadBy schema query f.key f value) :
    SuffixedQuery.Takes schema f.key value ∧
      (¬f.ListsNumbers → FlatQuery.Takes schema f.key value) := by
  have hfield : schema.field? f.key = some f :=
    (Schema.field?_eq_some_iff (Schema.fieldsAgree_of_validate valid).keys).mpr ⟨h.mem, rfl⟩
  refine ⟨⟨f.key, f.type, f.operator, SuffixedQuery.target?_of_field? hfield, ?_⟩, ?_⟩
  · exact h.number?_isSome
  · intro hlists
    refine .inr ⟨f, hfield, fun htype hranged => ?_⟩
    exact h.number?_isSome htype hranged fun hin => hlists ⟨htype, hin⟩

/-- A bound of a field is taken, except for a text without a number as a bound of ranges. -/
theorem ReadBy.takes_bound {bound : RangeBound} (h : ReadBy schema query key f value)
    (hfield : schema.field? key = none)
    (hpair : schema.pairedKey? key = some ⟨f.key, bound, f.type⟩) :
    FlatQuery.Takes schema key value ∧ (¬f.ListsNumbers → (SuffixedQuery.Takes schema key value ↔
      (f.type = .number → f.operator.isRanged = true → value.number?.isSome = true))) := by
  have htarget : SuffixedQuery.target? schema key = some (f.key, f.type, bound.operator) := by
    simp [SuffixedQuery.target?, hfield, hpair]
  have hbound : bound.operator.isRanged = false ∧ bound.operator ≠ .isIn := by
    cases bound <;> decide
  refine ⟨.inl (by rw [hpair]; rfl), fun hlists => ?_⟩
  constructor
  · rintro ⟨base, type, op, heq, hnumber⟩ htype _
    obtain ⟨rfl, rfl, rfl⟩ : f.key = base ∧ f.type = type ∧ bound.operator = op := by
      simpa [htarget] using heq
    exact hnumber htype hbound.1 hbound.2
  · intro hnumber
    refine ⟨_, _, _, htarget, fun htype _ _ => ?_⟩
    cases hranged : f.operator.isRanged with
    | true => exact hnumber htype hranged
    | false => exact h.number?_isSome htype hranged fun hin => hlists ⟨htype, hin⟩

/-- What a link accepts, both queries send: a filter of a restored state makes one parameter, unless
its key is unknown or it would be compared as a number and has none. -/
theorem single_of_restore (valid : schema.validate = .ok ()) {query key : String}
    {value : FilterValue} (h : (restore schema query).filters.get? key = some value) :
    ∃ f, ReadBy schema query key f value ∧
      (key = f.key → SuffixedQuery.Takes schema key value ∧
        (¬f.ListsNumbers → FlatQuery.Takes schema key value)) ∧
      (∀ bound, schema.field? key = none →
        schema.pairedKey? key = some ⟨f.key, bound, f.type⟩ →
          FlatQuery.Takes schema key value ∧
            (¬f.ListsNumbers → (SuffixedQuery.Takes schema key value ↔
              (f.type = .number → f.operator.isRanged = true → value.number?.isSome = true)))) ∧
      (f.type = .number → f.operator.isRanged = false → f.operator ≠ .isIn →
        (schema.field? key).isSome = true ∨ (schema.pairedKey? key).isSome = true →
          FlatQuery.Takes schema key value ∧ SuffixedQuery.Takes schema key value) ∧
      (FlatQuery.Takes schema key value →
        ∃ p, FlatQuery.single schema key value = [(FlatQuery.filterName schema key, p)]) ∧
      (∀ separator, SuffixedQuery.Takes schema key value →
        ∃ p, SuffixedQuery.single separator schema key value =
          [(SuffixedQuery.filterName separator schema key, p)]) ∧
      ((∀ g, schema.field? key = some g → ¬g.ListsNumbers) → ¬FlatQuery.Takes schema key value →
        FlatQuery.single schema key value = []) ∧
      (∀ separator, ¬f.ListsNumbers → ¬SuffixedQuery.Takes schema key value →
        SuffixedQuery.single separator schema key value = []) := by
  obtain ⟨f, hread⟩ := get?_restore_eq_some_iff.mp h
  have hactive : value.isEmpty = false := isEmpty_of_get?_readFilters h
  have hflat := @FlatQuery.single_of_takes schema key value hactive
  have hsuffixed := fun separator =>
    @SuffixedQuery.single_of_takes schema key value separator hactive
  refine ⟨f, hread, ?_, ?_, ?_, hflat.1, fun separator => (hsuffixed separator).1,
    fun _ => hflat.2, fun separator _ => (hsuffixed separator).2⟩
  · rintro rfl
    exact hread.takes_own valid
  · intro bound hfield hpair
    exact hread.takes_bound hfield hpair
  · intro htype hranged hin hknown
    exact takes_of_number? (hread.number?_isSome htype hranged hin) hknown

/-- Gems by the range of their diameter. -/
def gemSchema : Schema :=
  { Schema.empty with
    filterFields := [⟨"diameter", none, .number, some .between, [], none⟩] }

theorem single_of_restore_gems :
    gemSchema.validate = .ok () ∧
    (restore gemSchema "diameter_min=%2030").filters.get? "diameter_min" = some (.text " 30") ∧
    (∃ p, FlatQuery.single gemSchema "diameter_min" (.text " 30") = [("diameter", p)]) ∧
    ∃ p, SuffixedQuery.single "__" gemSchema "diameter_min" (.text " 30") =
      [("diameter__gte", p)] := by
  have valid : gemSchema.validate = .ok () := rfl
  have hget : (restore gemSchema "diameter_min=%2030").filters.get? "diameter_min" =
      some (.text " 30") := by decide +kernel
  have hpair : gemSchema.pairedKey? "diameter_min" = some ⟨"diameter", .min, .number⟩ := by
    decide +kernel
  have hfield : gemSchema.field? "diameter_min" = none := by decide
  have hnumber : (FilterValue.text " 30").number?.isSome = true := by decide +kernel
  obtain ⟨f, hread, -, hbound, -, hflat, hsuffixed, -⟩ := single_of_restore valid hget
  obtain rfl : f = ⟨"diameter", none, .number, some .between, [], none⟩ := by
    simpa [gemSchema] using hread.mem
  obtain ⟨hflatTakes, htakes⟩ := hbound .min hfield hpair
  have hflatName : FlatQuery.filterName gemSchema "diameter_min" = "diameter" := by
    rw [FlatQuery.filterName, hpair]
    rfl
  have hname : SuffixedQuery.filterName "__" gemSchema "diameter_min" = "diameter__gte" := by
    decide +kernel
  rw [← hflatName, ← hname]
  exact ⟨valid, hget, hflat hflatTakes,
    hsuffixed "__" ((htakes fun hlists => absurd hlists.2 (by decide)).mpr fun _ _ => hnumber)⟩

/-- A bound that is no number is read and emitted as part of a range, but not by itself. -/
theorem single_of_restore_wide :
    gemSchema.validate = .ok () ∧
    (restore gemSchema "diameter_min=wide").filters.entries = [("diameter_min", .text "wide")] ∧
    FlatQuery.single gemSchema "diameter_min" (.text "wide") = [("diameter", .text "wide:")] ∧
    ∀ separator, SuffixedQuery.single separator gemSchema "diameter_min" (.text "wide") = [] := by
  refine ⟨rfl, by decide +kernel, by decide +kernel, fun separator => ?_⟩
  have hpair : gemSchema.pairedKey? "diameter_min" = some ⟨"diameter", .min, .number⟩ := by
    decide +kernel
  have hfield : gemSchema.field? "diameter_min" = none := by decide
  have hnumber : (FilterValue.text "wide").number? = none := by decide +kernel
  apply (SuffixedQuery.single_of_takes separator rfl).2
  rintro ⟨base, type, op, heq, htakes⟩
  obtain ⟨rfl, rfl, rfl⟩ : "diameter" = base ∧ .number = type ∧ RangeBound.min.operator = op := by
    simpa [SuffixedQuery.target?, hfield, hpair] using heq
  simpa [hnumber] using htakes rfl rfl (by decide)

end Link

end Listing
