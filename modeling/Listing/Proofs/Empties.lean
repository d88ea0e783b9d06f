import Listing.Narrowing
import Listing.Proofs.StateRuns
import Listing.Query.Flat
import Listing.Query.Suffixed

namespace Listing

/-- The date range without its empty bounds, if it limits a field. -/
def DateRange.pruned? (r : DateRange) : Option DateRange :=
  r.activeField?.map fun field => ⟨some field, r.lower?, r.upper?⟩

/-- The state without what says nothing: filters with empty values, empty bounds, and a date range
that limits no field. -/
def State.pruned (s : State) : State where
  search := s.search
  filters := s.filters.filter fun (_, value) => !value.isEmpty
  sort := s.sort
  dateRange := s.dateRange.bind DateRange.pruned?

/-- Limits on one field with the same bounds. -/
structure DateRange.SameLimits (a b : String × DateRange) : Prop where
  field : a.1 = b.1
  lower : a.2.lower? = b.2.lower?
  upper : a.2.upper? = b.2.upper?

theorem DateRange.hasBounds_of_activeField? {r : DateRange} {field : String}
    (h : r.activeField? = some field) : r.field = some field ∧ field ≠ "" ∧ r.hasBounds = true := by
  obtain ⟨hfield, hactive⟩ := Option.filter_eq_some_iff.mp h
  rw [Bool.and_eq_true] at hactive
  exact ⟨hfield, by simpa using hactive.1, hactive.2⟩

/-- Pruning a date range that limits a field changes neither the field nor a bound. -/
theorem DateRange.sameLimits_pruned {r : DateRange} {field : String}
    (h : r.activeField? = some field) :
    ∃ p, r.pruned? = some p ∧ p.activeField? = some field ∧ SameLimits (field, p) (field, r) := by
  obtain ⟨-, hne, hbounds⟩ := hasBounds_of_activeField? h
  have hlower : DateRange.lower? ⟨some field, r.lower?, r.upper?⟩ = r.lower? := by
    simp [lower?, Option.filter_filter]
  have hupper : DateRange.upper? ⟨some field, r.lower?, r.upper?⟩ = r.upper? := by
    simp [upper?, Option.filter_filter]
  refine ⟨⟨some field, r.lower?, r.upper?⟩, by rw [pruned?, h, Option.map_some], ?_,
    ⟨rfl, hlower, hupper⟩⟩
  have hbounds' : DateRange.hasBounds ⟨some field, r.lower?, r.upper?⟩ = true := by
    rwa [hasBounds, hlower, hupper]
  simp [activeField?, hne, hbounds']

namespace State

variable (s : State)

theorem activeFilters_pruned : s.pruned.activeFilters = s.activeFilters := by
  rw [activeFilters, activeFilters, pruned, OrderedMap.filter, List.filter_filter]
  simp only [Bool.and_self]

theorem activeFilter?_pruned (key : String) :
    (s.pruned.filters.get? key).filter (fun value => !value.isEmpty) =
      (s.filters.get? key).filter fun value => !value.isEmpty := by
  rw [pruned, OrderedMap.get?_filter, Option.filter_filter]
  simp only [Bool.and_self]

theorem activeDateRange?_pruned :
    Option.Rel DateRange.SameLimits s.pruned.activeDateRange? s.activeDateRange? := by
  unfold activeDateRange? pruned
  cases s.dateRange with
  | none => exact .none
  | some range =>
    cases hfield : range.activeField? with
    | none => simp [DateRange.pruned?, hfield]
    | some field =>
      obtain ⟨p, hp, hactive, hlimits⟩ := DateRange.sameLimits_pruned hfield
      simpa [hp, hactive, hfield] using Option.Rel.some hlimits

/-- Nothing empty is left in a state that is pruned. -/
theorem pruned_proper : s.pruned.Proper where
  filters key value hget := by
    rw [pruned, OrderedMap.get?_filter] at hget
    simpa using (Option.filter_eq_some_iff.mp hget).2
  dateRange range hrange := by
    obtain ⟨given, -, hpruned⟩ := Option.bind_eq_some_iff.mp hrange
    obtain ⟨field, hfield, -⟩ := Option.map_eq_some_iff.mp hpruned
    obtain ⟨p, hp, hactive, -⟩ := DateRange.sameLimits_pruned hfield
    cases hp.symm.trans hpruned
    exact (DateRange.hasBounds_of_activeField? hactive).2.2

end State

section

variable {x y : Option (String × DateRange)} (h : Option.Rel DateRange.SameLimits x y)

include h

theorem FlatQuery.dateEmissions_congr : dateEmissions x = dateEmissions y := by
  cases h with
  | none => rfl
  | some limits => simp only [dateEmissions, limits.field, limits.lower, limits.upper]

theorem SuffixedQuery.dateEmissions_congr (separator : String) :
    dateEmissions separator x = dateEmissions separator y := by
  cases h with
  | none => rfl
  | some limits => simp only [dateEmissions, limits.field, limits.lower, limits.upper]

theorem Link.datePairs_congr : datePairs x = datePairs y := by
  cases h with
  | none => rfl
  | some limits => simp only [datePairs, limits.field, limits.lower, limits.upper]

theorem Narrowing.byDate_congr {α : Type} {s t : State} (hs : s.activeDateRange? = x)
    (ht : t.activeDateRange? = y) (entries : List (Entry α)) : byDate s entries = byDate t entries := by
  unfold byDate
  rw [hs, ht]
  cases h with
  | none => rfl
  | some limits => simp only [DateRange.covers, limits.field, limits.lower, limits.upper]

end

theorem FlatQuery.compile_pruned (schema : Schema) (s : State) :
    compile schema s.pruned = compile schema s := by
  have hfilter : filterEmission? schema s.pruned.filters = filterEmission? schema s.filters := by
    funext key value
    simp only [filterEmission?, pairedRange, s.activeFilter?_pruned]
  rw [compile, compile, emissions, emissions, s.activeFilters_pruned, hfilter,
    dateEmissions_congr s.activeDateRange?_pruned]
  rfl

theorem SuffixedQuery.compile_pruned (separator : String) (schema : Schema) (s : State) :
    compile separator schema s.pruned = compile separator schema s := by
  rw [compile, compile, emissions, emissions, s.activeFilters_pruned,
    dateEmissions_congr s.activeDateRange?_pruned]
  rfl

theorem Narrowing.apply_pruned {α : Type} (schema : Schema) (s : State)
    (entries : List (Entry α)) : apply schema s.pruned entries = apply schema s entries := by
  have htests : schema.tests s.pruned = schema.tests s := by
    rw [Schema.tests, Schema.tests, s.activeFilters_pruned]
  rw [apply, apply, byFilters, byFilters, htests, byDate_congr s.activeDateRange?_pruned rfl rfl]
  rfl

theorem Link.pairs_pruned (s : State) : pairs s.pruned = pairs s := by
  rw [pairs, pairs, s.activeFilters_pruned, datePairs_congr s.activeDateRange?_pruned]
  rfl

/-- Whatever reads a state reads the same in the state without its empties: queries, what is left
of a list, links, and whether anything is chosen. -/
theorem State.behaviour_pruned (s : State) :
    s.pruned.Proper ∧
    (∀ schema, FlatQuery.compile schema s.pruned = FlatQuery.compile schema s) ∧
    (∀ separator schema, SuffixedQuery.compile separator schema s.pruned =
      SuffixedQuery.compile separator schema s) ∧
    (∀ (α : Type) (schema : Schema) (entries : List (Entry α)),
      Narrowing.apply schema s.pruned entries = Narrowing.apply schema s entries) ∧
    Link.pairs s.pruned = Link.pairs s ∧
    s.pruned.hasActiveFilters = s.hasActiveFilters := by
  refine ⟨s.pruned_proper, fun schema => FlatQuery.compile_pruned schema s,
    fun separator schema => SuffixedQuery.compile_pruned separator schema s,
    fun α schema entries => Narrowing.apply_pruned schema s entries, Link.pairs_pruned s, ?_⟩
  rw [hasActiveFilters, hasActiveFilters, s.activeFilters_pruned,
    isSome_eq_of_rel s.activeDateRange?_pruned]
  rfl

end Listing
