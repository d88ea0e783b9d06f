import Mathlib.Data.List.Basic
import Listing.Proofs.Backends

namespace Listing

/-- The state in which a filter is stored as it is, also an empty one. -/
def State.storing (s : State) (key : String) (value : FilterValue) : State :=
  { s with filters := s.filters.insert key value }

/-- Whether a key is no field of a schema and no bound of one. -/
structure Schema.Unknown (schema : Schema) (key : String) : Prop where
  field : schema.field? key = none
  pair : schema.pairedKey? key = none

/-- Whether a key is one of the two bounds of a field of which an active filter names a bound. -/
def State.Completes (schema : Schema) (s : State) (key : String) : Prop :=
  ∃ entry ∈ s.activeFilters, ∃ pair, schema.pairedKey? entry.1 = some pair ∧
    ∃ bound, key = schema.rangeSuffixes.keyFor pair.base bound

/-- Whether a key is one of the two bounds of a field whose range decides a parameter. -/
def State.CompletesDecided (schema : Schema) (s : State) (key : String) : Prop :=
  ∃ entry e pair, (FlatQuery.compiler schema).Decides s entry e ∧
    schema.pairedKey? entry.1 = some pair ∧
      ∃ bound, key = schema.rangeSuffixes.keyFor pair.base bound

section

variable {schema : Schema} {s : State} {key : String} {value : FilterValue}

theorem State.activeFilters_storing (fresh : key ∉ s.filters.keys) (value : FilterValue) :
    (s.storing key value).activeFilters =
      s.activeFilters ++ if value.isEmpty then [] else [(key, value)] := by
  rw [activeFilters, storing, OrderedMap.entries_insert_of_not_mem fresh, List.filter_append]
  congr 1
  cases hvalue : value.isEmpty <;> simp [hvalue]

/-- A filter that gives nothing leaves nothing behind. -/
theorem State.filterMap_storing {β : Type} (f : String × FilterValue → Option β)
    (fresh : key ∉ s.filters.keys) (value : FilterValue) (hnone : f (key, value) = none) :
    (s.storing key value).activeFilters.filterMap f = s.activeFilters.filterMap f := by
  rw [activeFilters_storing fresh, List.filterMap_append]
  split
  next => simp
  next => simp [hnone]

theorem Schema.tests_storing (unknown : schema.Unknown key) (fresh : key ∉ s.filters.keys) :
    schema.tests (s.storing key value) = schema.tests s := by
  apply State.filterMap_storing _ fresh
  simp [test?, unknown.pair, unknown.field]

theorem Narrowing.apply_storing {α : Type} (unknown : schema.Unknown key)
    (fresh : key ∉ s.filters.keys) (entries : List (Entry α)) :
    apply schema (s.storing key value) entries = apply schema s entries := by
  have hfilters : ∀ entries : List (Entry α),
      byFilters schema (s.storing key value) entries = byFilters schema s entries := by
    intro entries
    rw [byFilters, byFilters, schema.tests_storing unknown fresh]
  rw [apply, apply, hfilters]
  rfl

theorem SuffixedQuery.emissions_storing (separator : String) (unknown : schema.Unknown key)
    (fresh : key ∉ s.filters.keys) :
    emissions separator schema (s.storing key value) = emissions separator schema s := by
  have hnone : filterEmission? separator schema key value = none := by
    simp [filterEmission?, target?, unknown.field, unknown.pair]
  have hfilters := State.filterMap_storing
    (fun entry => filterEmission? separator schema entry.1 entry.2) fresh value hnone
  rw [emissions, emissions, hfilters]
  rfl

end

namespace FlatQuery

variable {schema : Schema} {s : State} {key : String} {value : FilterValue}

/-- What a map says of one bound of a range. -/
def boundText (filters : OrderedMap FilterValue) (key : String) : String :=
  (((filters.get? key).filter fun value => !value.isEmpty).map FilterValue.param).getD ""

theorem encode_pairedRange (schema : Schema) (filters : OrderedMap FilterValue) (base : String) :
    (pairedRange schema filters base).encode =
      boundText filters (schema.rangeSuffixes.keyFor base .min) ++ ":" ++
        boundText filters (schema.rangeSuffixes.keyFor base .max) := by
  have hgetD : ∀ text : Option String, (text.filter (· ≠ "")).getD "" = text.getD "" := by
    intro text
    cases text with
    | none => rfl
    | some text =>
      by_cases h : text = ""
      · simp [h, Option.filter]
      · simp [h, Option.filter]
  simp only [pairedRange, Range.ofValues, Range.ofBounds, Range.encode, boundText, hgetD]

theorem boundText_insert (filters : OrderedMap FilterValue) (key : String) (value : FilterValue)
    (k : String) : boundText (filters.insert key value) k =
      if k = key then (if value.isEmpty then "" else value.param) else boundText filters k := by
  unfold boundText
  rw [OrderedMap.get?_insert]
  by_cases hk : k = key
  · cases hvalue : value.isEmpty <;> simp [hk, hvalue, Option.filter]
  · simp [hk]

theorem boundText_of_not_mem {filters : OrderedMap FilterValue} (h : key ∉ filters.keys) :
    boundText filters key = "" := by
  rw [boundText, OrderedMap.get?_eq_none_iff.mpr h]
  rfl

/-- A filter changes the range of a field exactly when it says something about one of its bounds. -/
theorem encode_pairedRange_insert_iff (schema : Schema) {filters : OrderedMap FilterValue}
    (fresh : key ∉ filters.keys) (value : FilterValue) (base : String) :
    (pairedRange schema (filters.insert key value) base).encode =
        (pairedRange schema filters base).encode ↔
      value.isEmpty = true ∨ value.param = "" ∨
        ∀ bound, key ≠ schema.rangeSuffixes.keyFor base bound := by
  rw [encode_pairedRange, encode_pairedRange]
  generalize hsaid : (if value.isEmpty then "" else value.param) = said
  have hinsert : ∀ k, boundText (filters.insert key value) k =
      if k = key then said else boundText filters k := by
    intro k
    rw [boundText_insert, hsaid]
  have hfresh := boundText_of_not_mem fresh
  have hempty : said = "" ↔ value.isEmpty = true ∨ value.param = "" := by
    rw [← hsaid]
    cases value.isEmpty <;> simp
  rw [← or_assoc, ← hempty]
  constructor
  · intro h
    by_contra hnot
    obtain ⟨hne, hbounds⟩ := not_or.mp hnot
    obtain ⟨bound, hbound⟩ := not_forall.mp hbounds
    rw [not_not] at hbound
    -- No half grows shorter, and the half that the filter speaks about grows longer.
    have hle : ∀ k, (boundText filters k).length ≤
        (boundText (filters.insert key value) k).length := by
      intro k
      rw [hinsert]
      split
      next hk => simp [hk, hfresh]
      next => exact Nat.le_refl _
    have hlt : (boundText filters key).length <
        (boundText (filters.insert key value) key).length := by
      rw [hinsert, if_pos rfl, hfresh]
      exact Nat.pos_of_ne_zero fun h0 => hne (String.length_eq_zero_iff.mp h0)
    have hlength := congrArg String.length h
    simp only [String.length_append] at hlength
    have hmin := hle (schema.rangeSuffixes.keyFor base .min)
    have hmax := hle (schema.rangeSuffixes.keyFor base .max)
    cases bound with
    | min =>
      rw [← hbound] at hmin hlength
      omega
    | max =>
      rw [← hbound] at hmax hlength
      omega
  · have hkeep : ∀ k, (said = "" ∨ key ≠ k) →
        boundText (filters.insert key value) k = boundText filters k := by
      rintro k (hsaid | hk)
      · rw [hinsert]
        split
        next hk => rw [hk, hfresh, hsaid]
        next => rfl
      · rw [hinsert, if_neg (Ne.symm hk)]
    intro h
    rw [hkeep _ (h.imp_right fun h => h .min), hkeep _ (h.imp_right fun h => h .max)]

theorem filterEmission?_insert_iff (fresh : key ∉ s.filters.keys) (entry : String × FilterValue) :
    filterEmission? schema (s.filters.insert key value) entry.1 entry.2 =
        filterEmission? schema s.filters entry.1 entry.2 ↔
      ∀ pair, schema.pairedKey? entry.1 = some pair →
        value.isEmpty = true ∨ value.param = "" ∨
          ∀ bound, key ≠ schema.rangeSuffixes.keyFor pair.base bound := by
  unfold filterEmission?
  cases schema.pairedKey? entry.1 with
  | none => simp
  | some pair =>
    have hrange := encode_pairedRange_insert_iff schema fresh value pair.base
    simp [← hrange]

/-- Whether a filter emits, and under which name, does not depend on the other filters. -/
theorem map_fst_filterEmission? (schema : Schema) (filters filters' : OrderedMap FilterValue)
    (entry : String × FilterValue) :
    (filterEmission? schema filters entry.1 entry.2).map Prod.fst =
      (filterEmission? schema filters' entry.1 entry.2).map Prod.fst := by
  unfold filterEmission?
  cases schema.pairedKey? entry.1 <;> rfl

theorem exists_filterEmission? {filters : OrderedMap FilterValue}
    (filters' : OrderedMap FilterValue) {entry : String × FilterValue} {e : String × Param}
    (h : filterEmission? schema filters entry.1 entry.2 = some e) :
    ∃ e', filterEmission? schema filters' entry.1 entry.2 = some e' ∧ e'.1 = e.1 := by
  have hname := map_fst_filterEmission? schema filters' filters entry
  rw [h, Option.map_some] at hname
  exact Option.map_eq_some_iff.mp hname

theorem filterMap_eq_filterMap_iff {α β : Type} {f g : α → Option β}
    (h : ∀ x, (f x).isSome = (g x).isSome) (xs : List α) :
    xs.filterMap f = xs.filterMap g ↔ ∀ x ∈ xs, f x = g x := by
  induction xs with
  | nil => simp
  | cons x xs ih =>
    have hx := h x
    rw [List.forall_mem_cons, ← ih, List.filterMap_cons, List.filterMap_cons]
    cases hf : f x with
    | none =>
      cases hg : g x with
      | none => simp
      | some b => simp [hf, hg] at hx
    | some a =>
      cases hg : g x with
      | none => simp [hf, hg] at hx
      | some b => simp

/-- What the filters emit when an unknown key, which emits nothing, is stored. -/
theorem filters_storing (unknown : schema.Unknown key) (fresh : key ∉ s.filters.keys)
    (value : FilterValue) :
    (compiler schema).filters (s.storing key value) = s.activeFilters.filterMap fun entry =>
      filterEmission? schema (s.filters.insert key value) entry.1 entry.2 := by
  have hnone : filterEmission? schema (s.filters.insert key value) key value = none := by
    simp [filterEmission?, unknown.pair, unknown.field]
  exact State.filterMap_storing (fun entry =>
    filterEmission? schema (s.filters.insert key value) entry.1 entry.2) fresh value hnone

theorem names_filters_storing (unknown : schema.Unknown key) (fresh : key ∉ s.filters.keys)
    (value : FilterValue) :
    ((compiler schema).filters (s.storing key value)).map Prod.fst =
      ((compiler schema).filters s).map Prod.fst := by
  rw [filters_storing unknown fresh, Compiler.filters, List.map_filterMap, List.map_filterMap]
  congr 1
  exact funext fun entry => map_fst_filterEmission? schema _ _ entry

/-- An unknown key changes the emissions of a state exactly when it says something about a bound of
a range that the state emits. -/
theorem emissions_storing_iff (unknown : schema.Unknown key) (fresh : key ∉ s.filters.keys)
    (value : FilterValue) :
    emissions schema (s.storing key value) = emissions schema s ↔
      value.isEmpty = true ∨ value.param = "" ∨ ¬s.Completes schema key := by
  have hsome : ∀ entry : String × FilterValue,
      (filterEmission? schema (s.filters.insert key value) entry.1 entry.2).isSome =
        (filterEmission? schema s.filters entry.1 entry.2).isSome := by
    intro entry
    rw [← Option.isSome_map, map_fst_filterEmission? schema _ s.filters, Option.isSome_map]
  have hemissions : emissions schema (s.storing key value) = emissions schema s ↔
      ∀ entry ∈ s.activeFilters,
        filterEmission? schema (s.filters.insert key value) entry.1 entry.2 =
          filterEmission? schema s.filters entry.1 entry.2 := by
    rw [← filterMap_eq_filterMap_iff hsome, ← filters_storing unknown fresh]
    exact List.append_left_inj _ |>.trans (List.append_left_inj _) |>.trans
      (List.append_right_inj _)
  rw [hemissions]
  simp only [filterEmission?_insert_iff fresh]
  constructor
  · intro h
    by_contra hnot
    simp only [not_or, not_not] at hnot
    obtain ⟨hactive, hparam, entry, hentry, pair, hpair, bound, hbound⟩ := hnot
    rcases h entry hentry pair hpair with hvalue | hvalue | hbounds
    · exact hactive hvalue
    · exact hparam hvalue
    · exact hbounds bound hbound
  · intro h entry hentry pair hpair
    refine h.imp_right (Or.imp_right ?_)
    intro hcompletes bound hbound
    exact hcompletes ⟨entry, hentry, pair, hpair, bound, hbound⟩

/-- A filter that decides a parameter still does so when an unknown key is stored. -/
theorem decides_storing (unknown : schema.Unknown key) (fresh : key ∉ s.filters.keys)
    {entry : String × FilterValue} {e e' : String × Param}
    (h : (compiler schema).Decides s entry e)
    (he' : filterEmission? schema (s.filters.insert key value) entry.1 entry.2 = some e')
    (hname : e'.1 = e.1) : (compiler schema).Decides (s.storing key value) entry e' := by
  obtain ⟨before, after, hentries, hafter⟩ := h.last
  refine ⟨he', ⟨before, after ++ if value.isEmpty then [] else [(key, value)], ?_, ?_⟩, ?_⟩
  · rw [State.activeFilters_storing fresh, hentries]
    simp
  · intro later hlater e₂ he₂
    have he₂ : filterEmission? schema (s.filters.insert key value) later.1 later.2 = some e₂ := he₂
    rw [hname]
    rcases List.mem_append.mp hlater with hlater | hlater
    · obtain ⟨e₁, he₁, hname₁⟩ := exists_filterEmission? s.filters he₂
      rw [← hname₁]
      exact hafter later hlater e₁ he₁
    · have hlater : later = (key, value) := by
        split at hlater
        next => cases hlater
        next => exact List.mem_singleton.mp hlater
      rw [hlater] at he₂
      simp [filterEmission?, unknown.pair, unknown.field] at he₂
  · rw [hname]
    exact h.final

/-- An unknown key that completes no range that decides a parameter changes none. -/
theorem compile_storing_of_not_completes (unknown : schema.Unknown key)
    (fresh : key ∉ s.filters.keys) (value : FilterValue) (h : ¬s.CompletesDecided schema key) :
    compile schema (s.storing key value) = compile schema s := by
  have hnames := names_filters_storing unknown fresh value
  rw [compile_eq, compile_eq]
  refine OrderedMap.eq_of_get? (OrderedMap.keys_ofList_congr ?_) fun name => ?_
  · simp only [List.map_append, hnames]
    rfl
  -- The rules other than the filters see the same state.
  rw [Compiler.get?_compile, Compiler.get?_compile]
  change ((((compiler schema).last s.activeDateRange? s.sort).reverse.lookup name).or _).or
    (((compiler schema).search s.search).reverse.lookup name) = _
  cases hlast : ((compiler schema).last s.activeDateRange? s.sort).reverse.lookup name with
  | some p => rfl
  | none =>
    have hfinal := OrderedMap.lookup_reverse_eq_none_iff.mp hlast
    congr 2
    cases hfilters : ((compiler schema).filters s).reverse.lookup name with
    | none =>
      rw [OrderedMap.lookup_reverse_eq_none_iff] at hfilters ⊢
      rwa [hnames]
    | some p =>
      obtain ⟨entry, hdecides⟩ := ((compiler schema).exists_decides_iff hfinal).mpr hfilters
      have hkeep : filterEmission? schema (s.filters.insert key value) entry.1 entry.2 =
          filterEmission? schema s.filters entry.1 entry.2 := by
        rw [filterEmission?_insert_iff fresh]
        intro pair hpair
        exact .inr (.inr fun bound hbound => h ⟨entry, _, pair, hdecides, hpair, bound, hbound⟩)
      have hstored := decides_storing unknown fresh hdecides (hkeep.trans hdecides.emits) rfl
      exact ((compiler schema).exists_decides_iff hstored.final).mp ⟨entry, hstored⟩

/-- An unknown key changes the parameters of a state exactly when it says something about a bound of
a range that decides one. -/
theorem compile_storing_iff (unknown : schema.Unknown key) (fresh : key ∉ s.filters.keys)
    (value : FilterValue) :
    compile schema (s.storing key value) = compile schema s ↔
      value.isEmpty = true ∨ value.param = "" ∨ ¬s.CompletesDecided schema key := by
  have hflat := emissions_storing_iff unknown fresh value
  constructor
  · intro h
    by_contra hnot
    simp only [not_or, not_not] at hnot
    obtain ⟨hactive, hparam, entry, e, pair, hdecides, hpair, bound, hbound⟩ := hnot
    have hemits : filterEmission? schema s.filters entry.1 entry.2 = some e := hdecides.emits
    obtain ⟨e', he', hname⟩ := exists_filterEmission? (s.filters.insert key value) hemits
    have hget := (compiler schema).get?_compile_of_decides hdecides
    have hget' := (compiler schema).get?_compile_of_decides
      (decides_storing unknown fresh hdecides he' hname)
    rw [← compile_eq, h, compile_eq, hname, hget] at hget'
    have hkeep : e' = e := Prod.ext hname (Option.some.inj hget').symm
    rw [hkeep, ← hemits, filterEmission?_insert_iff fresh] at he'
    rcases he' pair hpair with hvalue | hvalue | hbounds
    · exact hactive hvalue
    · exact hparam hvalue
    · exact hbounds bound hbound
  · rintro (hvalue | hvalue | hcompletes)
    · rw [compile, compile, hflat.mpr (.inl hvalue)]
    · rw [compile, compile, hflat.mpr (.inr (.inl hvalue))]
    · exact compile_storing_of_not_completes unknown fresh value hcompletes

end FlatQuery

/-- A filter under an unknown key changes no query with operators and nothing that is left of a
list. It changes what a query with ranges emits exactly where it says something about a bound of a
range there, and the parameters exactly where such a range decides one. -/
theorem State.compile_apply_storing {schema : Schema} {s : State} {key : String}
    (unknown : schema.Unknown key) (fresh : key ∉ s.filters.keys) (value : FilterValue) :
    (∀ separator, SuffixedQuery.compile separator schema (s.storing key value) =
      SuffixedQuery.compile separator schema s) ∧
    (∀ (α : Type) (entries : List (Entry α)),
      Narrowing.apply schema (s.storing key value) entries = Narrowing.apply schema s entries) ∧
    (FlatQuery.emissions schema (s.storing key value) = FlatQuery.emissions schema s ↔
      value.isEmpty = true ∨ value.param = "" ∨ ¬s.Completes schema key) ∧
    (value.isEmpty = true ∨ value.param = "" ∨ ¬s.Completes schema key →
      FlatQuery.compile schema (s.storing key value) = FlatQuery.compile schema s) ∧
    (FlatQuery.compile schema (s.storing key value) = FlatQuery.compile schema s ↔
      value.isEmpty = true ∨ value.param = "" ∨ ¬s.CompletesDecided schema key) := by
  have hflat := FlatQuery.emissions_storing_iff unknown fresh value
  refine ⟨?_, ?_, hflat, ?_, FlatQuery.compile_storing_iff unknown fresh value⟩
  · intro separator
    rw [SuffixedQuery.compile, SuffixedQuery.compile,
      SuffixedQuery.emissions_storing separator unknown fresh]
  · intro α entries
    exact Narrowing.apply_storing unknown fresh entries
  · intro h
    rw [FlatQuery.compile, FlatQuery.compile, hflat.mpr h]

/-- A price with two bounds. -/
def pricedSchema : Schema :=
  { Schema.empty with filterFields := [.ofKey "price" .number] }

theorem compile_apply_storing_priced :
    let s := State.empty.withFilter "price_min" (.text "5")
    pricedSchema.Unknown "colour" ∧ "colour" ∉ s.filters.keys ∧
      ¬s.Completes pricedSchema "colour" ∧
      FlatQuery.compile pricedSchema (s.storing "colour" (.text "red")) =
        FlatQuery.compile pricedSchema s := by
  intro s
  have unknown : pricedSchema.Unknown "colour" := ⟨by decide, by decide +kernel⟩
  have fresh : "colour" ∉ s.filters.keys := by decide
  have apart : ¬s.Completes pricedSchema "colour" := by
    rintro ⟨entry, hentry, pair, hpair, bound, hbound⟩
    have hactive : s.activeFilters = [("price_min", .text "5")] := by decide
    obtain rfl : entry = ("price_min", .text "5") := by simpa [hactive] using hentry
    have hprice : pricedSchema.pairedKey? "price_min" = some ⟨"price", .min, .number⟩ := by
      decide +kernel
    cases Option.some.inj (hprice.symm.trans hpair)
    cases bound <;> exact absurd hbound (by decide)
  obtain ⟨-, -, -, hflat, -⟩ := State.compile_apply_storing unknown fresh (.text "red")
  exact ⟨unknown, fresh, apart, hflat (.inr (.inr apart))⟩

/-- A schema that declares a lower bound and neither the upper one nor their field. -/
def lowerSchema : Schema :=
  { Schema.empty with filterFields := [⟨"price_min", none, .number, some .gte, [], none⟩] }

/-- An unknown key can change a query with ranges. -/
theorem compile_storing_ne :
    let s := State.empty.withFilter "price_min" (.text "5")
    lowerSchema.validate = .ok () ∧ lowerSchema.Unknown "price_max" ∧
      "price_max" ∉ s.filters.keys ∧
      (FlatQuery.compile lowerSchema s).entries = [("price", .text "5:")] ∧
      (FlatQuery.compile lowerSchema (s.storing "price_max" (.text "10"))).entries =
        [("price", .text "5:10")] := by
  refine ⟨rfl, ⟨by decide, by decide +kernel⟩, by decide, ?_, ?_⟩
  · decide +kernel
  · decide +kernel

end Listing
