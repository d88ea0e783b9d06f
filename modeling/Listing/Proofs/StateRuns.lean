import Listing.Proofs.LinkPairs

namespace Listing

/-- What a user can do to the state of a listing: choose, take a choice back, follow a link from the
state or start over from a link. -/
inductive Step where
  | search (text : String)
  | filter (key : String) (value : FilterValue)
  | unfilter (key : String)
  | sort (text : String)
  | dateRange (range : Option DateRange)
  | clear
  | follow (query : String)
  | restore (query : String)

namespace State

def step (schema : Schema) (s : State) : Step → State
  | .search text => s.withSearch text
  | .filter key value => s.withFilter key value
  | .unfilter key => s.withoutFilter key
  | .sort text => s.withSort text
  | .dateRange range => s.withDateRange range
  | .clear => s.cleared
  | .follow query => (Link.read schema query).applyTo s
  | .restore query => Link.restore schema query

/-- The state after some steps from the initial one. -/
def run (schema : Schema) (steps : List Step) : State :=
  steps.foldl (step schema) (initial schema)

/-- A state that stores nothing empty. -/
structure Proper (s : State) : Prop where
  filters : ∀ key value, s.filters.get? key = some value → value.isEmpty = false
  dateRange : ∀ range, s.dateRange = some range → range.hasBounds = true

end State

/-- Whether a date range names no field, or one that is declared for date ranges. -/
def Schema.Allows (schema : Schema) (range : DateRange) : Prop :=
  ∀ field, range.field = some field → field = "" ∨ ∃ d ∈ schema.dateRangeFields, d.key = field

/-- Whether the date range of a state is allowed. -/
def State.Allowed (schema : Schema) (s : State) : Prop :=
  ∀ range, s.dateRange = some range → schema.Allows range

def Step.Allowed (schema : Schema) : Step → Prop
  | .dateRange (some range) => schema.Allows range
  | _ => True

theorem Patch.dateRange_applyTo {patch : Patch} {base : State} {range : DateRange}
    (h : (patch.applyTo base).dateRange = some range) :
    patch.dateRange = some range ∨ base.dateRange = some range := by
  unfold applyTo at h
  cases hpatch : patch.dateRange with
  | some read =>
    rw [hpatch] at h
    exact .inl h
  | none =>
    rw [hpatch] at h
    exact .inr h

namespace Link

variable {schema : Schema}

/-- A date range that is read has a bound and names a declared field. -/
theorem readDateRange?_eq_some {pairs : List (String × String)} {range : DateRange}
    (h : readDateRange? schema pairs = some range) :
    range.hasBounds = true ∧ schema.Allows range := by
  obtain ⟨d, hd, hrow⟩ := List.exists_of_findSome?_eq_some h
  dsimp only at hrow
  split at hrow
  next hbounds =>
    cases hrow
    have hkeep : ∀ name, (valueOf? pairs name).filter (· ≠ "") = valueOf? pairs name := by
      intro name
      simp [valueOf?, Option.filter_filter]
    constructor
    · simp only [DateRange.hasBounds, DateRange.lower?, DateRange.upper?, DateRange.ofTexts, hkeep]
      exact hbounds
    · intro field hfield
      exact .inr ⟨d, hd, Option.some.inj hfield⟩
  next => cases hrow

end Link

namespace State

variable {schema : Schema} {s : State}

theorem initial_proper (schema : Schema) : (initial schema).Proper where
  filters _ _ h := by cases h
  dateRange _ h := by cases h

theorem initial_allowed (schema : Schema) : (initial schema).Allowed schema := by
  intro range h
  cases h

theorem check_of_allowed (h : s.Allowed schema) : schema.check s = .ok () := by
  unfold Schema.check
  split
  next field hfield =>
    obtain ⟨hnamed, hne⟩ := Option.filter_eq_some_iff.mp hfield
    obtain ⟨range, hrange, hfield⟩ := Option.bind_eq_some_iff.mp hnamed
    rcases h range hrange field hfield with hempty | ⟨d, hd, hkey⟩
    · simp [hempty] at hne
    · have hfound : (schema.dateRangeField? field).isSome := by
        rw [Schema.dateRangeField?, List.find?_isSome]
        exact ⟨d, hd, by simpa using hkey⟩
      rw [if_pos hfound]
  next => rfl

theorem Proper.withFilter (h : s.Proper) (key : String) (value : FilterValue) :
    (s.withFilter key value).Proper where
  filters k v hget := by
    unfold State.withFilter at hget
    dsimp only at hget
    split at hget
    next =>
      rw [OrderedMap.get?_erase] at hget
      split at hget
      next => cases hget
      next => exact h.filters k v hget
    next hvalue =>
      rw [OrderedMap.get?_insert] at hget
      split at hget
      next =>
        cases hget
        simpa using hvalue
      next => exact h.filters k v hget
  dateRange := h.dateRange

theorem Proper.withoutFilter (h : s.Proper) (key : String) : (s.withoutFilter key).Proper where
  filters k v hget := by
    rw [State.withoutFilter, OrderedMap.get?_erase] at hget
    split at hget
    next => cases hget
    next => exact h.filters k v hget
  dateRange := h.dateRange

theorem Proper.applyTo (h : s.Proper) (query : String) :
    ((Link.read schema query).applyTo s).Proper where
  filters _ _ hget := Link.isEmpty_of_get?_readFilters hget
  dateRange range hrange := by
    rcases Patch.dateRange_applyTo hrange with hread | hbase
    · exact (Link.readDateRange?_eq_some hread).1
    · exact h.dateRange range hbase

/-- No step stores anything empty. -/
theorem Proper.step (h : s.Proper) (step : Step) : (s.step schema step).Proper := by
  cases step with
  | search text => exact ⟨h.filters, h.dateRange⟩
  | filter key value => exact h.withFilter key value
  | unfilter key => exact h.withoutFilter key
  | sort text => exact ⟨h.filters, h.dateRange⟩
  | dateRange range =>
    refine ⟨h.filters, ?_⟩
    intro stored hstored
    exact (Option.filter_eq_some_iff.mp hstored).2
  | clear =>
    constructor
    · intro key value hget
      cases hget
    · intro range hrange
      cases hrange
  | follow query => exact h.applyTo query
  | restore query => exact (initial_proper schema).applyTo query

theorem Allowed.step (h : s.Allowed schema) {step : Step} (allowed : step.Allowed schema) :
    (s.step schema step).Allowed schema := by
  intro range hrange
  have happly : ∀ {base : State} {query : String}, base.Allowed schema →
      ((Link.read schema query).applyTo base).dateRange = some range → schema.Allows range := by
    intro base query hbase happly
    rcases Patch.dateRange_applyTo happly with hread | hrange
    · exact (Link.readDateRange?_eq_some hread).2
    · exact hbase range hrange
  cases step with
  | search | filter | unfilter | sort => exact h range hrange
  | dateRange given =>
    obtain ⟨rfl, -⟩ := Option.filter_eq_some_iff.mp hrange
    exact allowed
  | clear => cases hrange
  | follow query => exact happly h hrange
  | restore query => exact happly (initial_allowed schema) hrange

/-- What holds of the initial state and is kept by every step of a run holds after the run. -/
theorem run_induction {P : State → Prop} {steps : List Step} (hinit : P (initial schema))
    (hstep : ∀ s, ∀ step ∈ steps, P s → P (s.step schema step)) : P (run schema steps) :=
  List.foldlRecOn steps (State.step schema) hinit fun s hs step hmem => hstep s step hmem hs

theorem run_proper (schema : Schema) (steps : List Step) : (run schema steps).Proper :=
  run_induction (initial_proper schema) fun _ step _ h => h.step step

theorem run_allowed {steps : List Step} (allowed : ∀ step ∈ steps, step.Allowed schema) :
    (run schema steps).Allowed schema :=
  run_induction (initial_allowed schema) fun _ step hmem h => h.step (allowed step hmem)

theorem activeFilters_of_proper (h : s.Proper) : s.activeFilters = s.filters.entries := by
  rw [activeFilters, List.filter_eq_self]
  intro entry hentry
  simpa using h.filters entry.1 entry.2 (OrderedMap.get?_eq_some_iff.mpr hentry)

/-- No run stores an empty filter or a date range without bounds, and no link of a run has an empty
value. A run whose date ranges are limits on declared fields passes the check after every step. -/
theorem run_sound (schema : Schema) (steps : List Step) :
    (∀ entry ∈ (run schema steps).filters.entries, entry.2.isEmpty = false) ∧
    (run schema steps).activeFilters = (run schema steps).filters.entries ∧
    (∀ range, (run schema steps).dateRange = some range → range.hasBounds = true) ∧
    (∀ pair ∈ Link.pairs (run schema steps), pair.2 ≠ "") ∧
    ((∀ step ∈ steps, step.Allowed schema) →
      ∀ n, schema.check (run schema (steps.take n)) = .ok ()) := by
  have hproper := run_proper schema steps
  refine ⟨?_, activeFilters_of_proper hproper, hproper.dateRange, Link.pairs_nonempty _, ?_⟩
  · intro entry hentry
    exact hproper.filters entry.1 entry.2 (OrderedMap.get?_eq_some_iff.mpr hentry)
  · intro allowed n
    apply check_of_allowed
    exact run_allowed fun step hmem => allowed step (List.mem_of_mem_take hmem)

/-- Days that can be limited by date. -/
def calendarSchema : Schema := { Schema.empty with dateRangeFields := [⟨"day", none⟩] }

theorem run_sound_calendar :
    let steps := [.dateRange (some ⟨some "day", some "2024-05-01", none⟩), .filter "day" (.list []),
      .follow "?day_to=2024-05-31&q=", .clear, .restore "search=may"]
    (∀ step ∈ steps, step.Allowed calendarSchema) ∧
      ∀ n, calendarSchema.check (run calendarSchema (steps.take n)) = .ok () := by
  intro steps
  have hday : calendarSchema.Allows ⟨some "day", some "2024-05-01", none⟩ := by
    rintro field ⟨⟩
    exact .inr ⟨⟨"day", none⟩, by decide, rfl⟩
  have allowed : ∀ step ∈ steps, step.Allowed calendarSchema := by
    intro step hstep
    simp only [steps, List.mem_cons, List.not_mem_nil, or_false] at hstep
    rcases hstep with rfl | rfl | rfl | rfl | rfl
    · exact hday
    all_goals trivial
  obtain ⟨-, -, -, -, hcheck⟩ := run_sound calendarSchema steps
  exact ⟨allowed, hcheck allowed⟩

end State

end Listing
