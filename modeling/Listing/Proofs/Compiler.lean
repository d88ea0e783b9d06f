import Listing.Proofs.SameStates
import Listing.Query.Params

namespace Listing

namespace Param

theorem same_symm {p q : Param} (h : p.same q = true) : q.same p = true := by
  cases p with
  | text a =>
    cases q with
    | text b => simpa [same, eq_comm] using h
    | number b => cases h
  | number a =>
    cases q with
    | text b => cases h
    | number b =>
      obtain ⟨place, ha, hb⟩ := Double.same_iff.mp h
      exact Double.same_iff.mpr ⟨place, hb, ha⟩

theorem same_trans {p q r : Param} (h : p.same q = true) (h' : q.same r = true) :
    p.same r = true := by
  cases p <;> cases q <;> cases r
  case text.text.text a b c =>
    have hab : a = b := of_decide_eq_true h
    rwa [hab]
  case number.number.number a b c =>
    obtain ⟨place, ha, hb⟩ := Double.same_iff.mp h
    obtain ⟨place', hb', hc⟩ := Double.same_iff.mp h'
    rw [hb, Option.some.injEq] at hb'
    subst hb'
    exact Double.same_iff.mpr ⟨place, ha, hc⟩
  all_goals first | cases h | cases h'

/-- Two emissions under one name with values that are the same. -/
def SameEmission (e e' : String × Param) : Prop := e.1 = e'.1 ∧ e.2.same e'.2 = true

end Param

/-- A way to write states as parameters: the search, then one emission for each filter, and last
the date range and the sort order. Filters that are the same are written the same. -/
structure Compiler where
  search : String → List (String × Param)
  filter? : OrderedMap FilterValue → String → FilterValue → Option (String × Param)
  last : Option (String × DateRange) → String → List (String × Param)
  search_same : ∀ text, ∀ e ∈ search text, e.2.same e.2 = true
  last_same : ∀ range sort, ∀ e ∈ last range sort, e.2.same e.2 = true
  filter_same : ∀ (m n : OrderedMap FilterValue),
    (∀ key, Option.Rel (fun v w => FilterValue.same v w = true) (m.get? key) (n.get? key)) →
      ∀ (key : String) (v w : FilterValue), v.same w = true →
        Option.Rel Param.SameEmission (filter? m key v) (filter? n key w)

/-- The state in which a filter is taken away and set again. -/
def State.renewed (s : State) (key : String) (value : FilterValue) : State :=
  (s.withoutFilter key).withFilter key value

namespace State

variable {s : State} {key : String} {value : FilterValue}

theorem renewed_filters (hv : (key, value) ∈ s.activeFilters) :
    (s.renewed key value).filters = (s.filters.erase key).insert key value := by
  obtain ⟨-, hactive⟩ := mem_activeFilters.mp hv
  dsimp only at hactive
  rw [renewed, withFilter, hactive]
  rfl

/-- Setting a filter again changes nothing that equality of states can see. -/
theorem same_renewed (hs : s.same s = true) (hv : (key, value) ∈ s.activeFilters) :
    s.same (s.renewed key value) = true := by
  have hget : ∀ k, (s.renewed key value).filters.get? k = s.filters.get? k := by
    intro k
    rw [renewed_filters hv, OrderedMap.get?_insert, OrderedMap.get?_erase]
    split
    next hk =>
      rw [hk]
      exact (mem_activeFilters.mp hv).1.symm
    next => rfl
  refine same_iff.mpr ⟨rfl, ?_, rfl, rfl⟩
  intro k
  rw [hget]
  exact (same_iff.mp hs).2.1 k

/-- A filter that is set again stands after the others. -/
theorem activeFilters_renewed (hv : (key, value) ∈ s.activeFilters) :
    ∃ others, (s.renewed key value).activeFilters = others ++ [(key, value)] := by
  have hkey : key ∉ (s.filters.erase key).keys := by
    rw [OrderedMap.keys_erase]
    simp
  rw [activeFilters, renewed_filters hv, OrderedMap.entries_insert_of_not_mem hkey,
    List.filter_append]
  refine ⟨_, congrArg _ ?_⟩
  obtain ⟨-, hactive⟩ := mem_activeFilters.mp hv
  dsimp only at hactive
  simp [hactive]

end State

namespace Compiler

variable (c : Compiler) {s t : State}

def filters (s : State) : List (String × Param) :=
  s.activeFilters.filterMap fun (key, value) => c.filter? s.filters key value

def compile (s : State) : Params :=
  .ofEmissions (c.search s.search ++ c.filters s ++ c.last s.activeDateRange? s.sort)

/-- Whether the filters of a state say the same wherever several of them decide a parameter. -/
def Agrees (s : State) : Prop :=
  ∀ e ∈ c.filters s, ∀ e' ∈ c.filters s, e.1 = e'.1 →
    e.1 ∉ (c.last s.activeDateRange? s.sort).map Prod.fst → e.2.same e'.2 = true

theorem get?_compile (s : State) (name : String) :
    (c.compile s).get? name = (((c.last s.activeDateRange? s.sort).reverse.lookup name).or
      ((c.filters s).reverse.lookup name)).or ((c.search s.search).reverse.lookup name) := by
  rw [compile, Params.ofEmissions, OrderedMap.get?_ofList, List.reverse_append, List.reverse_append,
    List.lookup_append, List.lookup_append, Option.or_assoc]

/-- A name that comes from nothing after the filters has what the last of them emits. -/
theorem get?_compile_of_final {name : String} {p : Param}
    (hfinal : name ∉ (c.last s.activeDateRange? s.sort).map Prod.fst)
    (hfilters : (c.filters s).reverse.lookup name = some p) :
    (c.compile s).get? name = some p := by
  have hlast := OrderedMap.lookup_reverse_eq_none_iff.mpr hfinal
  rw [c.get?_compile, hlast, hfilters]
  rfl

/-- Whether a filter is the last one of a state that emits under its name, which neither the date
range nor the sort order emits. -/
structure Decides (s : State) (entry : String × FilterValue) (e : String × Param) : Prop where
  emits : c.filter? s.filters entry.1 entry.2 = some e
  last : ∃ before after, s.activeFilters = before ++ entry :: after ∧
    ∀ later ∈ after, ∀ e', c.filter? s.filters later.1 later.2 = some e' → e'.1 ≠ e.1
  final : e.1 ∉ (c.last s.activeDateRange? s.sort).map Prod.fst

theorem Decides.mem_activeFilters {c : Compiler} {entry : String × FilterValue}
    {e : String × Param} (h : c.Decides s entry e) : entry ∈ s.activeFilters := by
  obtain ⟨before, after, hentries, -⟩ := h.last
  simp [hentries]

theorem exists_decides_iff {name : String} {p : Param}
    (hfinal : name ∉ (c.last s.activeDateRange? s.sort).map Prod.fst) :
    (∃ entry, c.Decides s entry (name, p)) ↔ (c.filters s).reverse.lookup name = some p := by
  rw [filters, OrderedMap.lookup_reverse_filterMap_eq_some_iff]
  constructor
  · rintro ⟨entry, hemits, ⟨before, after, hentries, hafter⟩, -⟩
    exact ⟨before, entry, after, hentries, hemits, hafter⟩
  · rintro ⟨before, entry, after, hentries, hemits, hafter⟩
    exact ⟨entry, hemits, ⟨before, after, hentries, hafter⟩, hfinal⟩

theorem get?_compile_of_decides {entry : String × FilterValue} {e : String × Param}
    (h : c.Decides s entry e) : (c.compile s).get? e.1 = some e.2 :=
  c.get?_compile_of_final h.final ((c.exists_decides_iff h.final).mp ⟨entry, h⟩)

/-- Whether parameters have, under each name that the filters decide, what the last of them emits. -/
def LastDecides (s : State) (params : Params) : Prop :=
  ∀ e ∈ c.filters s, e.1 ∉ (c.last s.activeDateRange? s.sort).map Prod.fst →
    ∃ entry p, c.Decides s entry (e.1, p) ∧ params.get? e.1 = some p

theorem compile_lastDecides (s : State) : c.LastDecides s (c.compile s) := by
  intro e he hfinal
  have hne : (c.filters s).reverse.lookup e.1 ≠ none := fun hnone =>
    OrderedMap.lookup_reverse_eq_none_iff.mp hnone (List.mem_map_of_mem he)
  obtain ⟨p, hp⟩ := Option.ne_none_iff_exists'.mp hne
  obtain ⟨entry, hdecides⟩ := (c.exists_decides_iff hfinal).mpr hp
  exact ⟨entry, p, hdecides, c.get?_compile_of_decides hdecides⟩

/-- A filter that is set again decides the parameter it emits. -/
theorem exists_decides_renewed (hs : s.same s = true) {key : String} {value : FilterValue}
    (hv : (key, value) ∈ s.activeFilters) {e : String × Param}
    (he : c.filter? s.filters key value = some e)
    (hfinal : e.1 ∉ (c.last s.activeDateRange? s.sort).map Prod.fst) :
    ∃ p, c.Decides (s.renewed key value) (key, value) (e.1, p) ∧ e.2.same p = true := by
  have hsame := State.same_renewed hs hv
  have hvalue : value.same value = true := by
    have hrel := (State.same_iff.mp hs).2.1 key
    rw [(State.mem_activeFilters.mp hv).1] at hrel
    obtain ⟨v, hget, hsame⟩ := exists_of_rel_some hrel
    cases hget
    exact hsame
  have hrel := c.filter_same s.filters (s.renewed key value).filters (State.same_iff.mp hsame).2.1
    key value value hvalue
  rw [he] at hrel
  obtain ⟨⟨name, p⟩, he', hname, hparam⟩ := exists_of_rel_some hrel
  dsimp only at hname
  subst hname
  obtain ⟨others, hothers⟩ := State.activeFilters_renewed hv
  exact ⟨p, ⟨he', ⟨others, [], hothers, by simp⟩, hfinal⟩, hparam⟩

theorem exists_emission (h : s.same t = true) {e : String × Param} (he : e ∈ c.filters s) :
    ∃ e' ∈ c.filters t, Param.SameEmission e e' := by
  obtain ⟨⟨key, v⟩, hv, he⟩ := List.mem_filterMap.mp he
  obtain ⟨w, hw, hsame⟩ := State.exists_activeFilter h hv
  have hrel := c.filter_same s.filters t.filters (State.same_iff.mp h).2.1 key v w hsame
  dsimp only at he
  rw [he] at hrel
  obtain ⟨e', he', hemission⟩ := exists_of_rel_some hrel
  exact ⟨e', List.mem_filterMap.mpr ⟨(key, w), hw, he'⟩, hemission⟩

/-- Where the filters agree, it does not matter which of them comes last. -/
theorem lookup_filters_rel (agrees : c.Agrees s) (h : s.same t = true) {name : String}
    (hlast : name ∉ (c.last s.activeDateRange? s.sort).map Prod.fst) :
    Option.Rel (fun p q => Param.same p q = true) ((c.filters s).reverse.lookup name)
      ((c.filters t).reverse.lookup name) := by
  cases hs : (c.filters s).reverse.lookup name with
  | none =>
    have ht : (c.filters t).reverse.lookup name = none := by
      rw [OrderedMap.lookup_reverse_eq_none_iff, List.mem_map] at hs ⊢
      rintro ⟨e, he, rfl⟩
      obtain ⟨e', he', hname, -⟩ := c.exists_emission (State.same_symm h) he
      exact hs ⟨e', he', hname.symm⟩
    rw [ht]
    exact .none
  | some p =>
    have hp := OrderedMap.mem_of_lookup_reverse hs
    cases ht : (c.filters t).reverse.lookup name with
    | none =>
      obtain ⟨e, he, hname, -⟩ := c.exists_emission h hp
      rw [OrderedMap.lookup_reverse_eq_none_iff] at ht
      exact absurd (List.mem_map.mpr ⟨e, he, hname.symm⟩) ht
    | some q =>
      have hq := OrderedMap.mem_of_lookup_reverse ht
      obtain ⟨e, he, hname, hsame⟩ := c.exists_emission (State.same_symm h) hq
      exact .some (Param.same_trans (agrees _ hp e he hname hlast) (Param.same_symm hsame))

theorem compile_same (agrees : c.Agrees s) (h : s.same t = true) :
    (c.compile s).same (c.compile t) = true := by
  obtain ⟨hsearch, -, hsort, -⟩ := State.same_iff.mp h
  have hrefl : ∀ entries : List (String × Param), (∀ e ∈ entries, e.2.same e.2 = true) →
      ∀ name, Option.Rel (fun p q => Param.same p q = true) (entries.reverse.lookup name)
        (entries.reverse.lookup name) := by
    intro entries hentries name
    cases hp : entries.reverse.lookup name with
    | none => exact .none
    | some p => exact .some (hentries _ (OrderedMap.mem_of_lookup_reverse hp))
  rw [Params.same, OrderedMap.sameBy_iff]
  intro name
  rw [c.get?_compile, c.get?_compile, ← hsearch, ← hsort, ← State.activeDateRange?_of_same h]
  -- What comes last decides a name, else the filters do, and else the search.
  have hlast := hrefl _ (c.last_same s.activeDateRange? s.sort) name
  cases hl : (c.last s.activeDateRange? s.sort).reverse.lookup name with
  | some p =>
    rw [hl] at hlast
    simpa using hlast
  | none =>
    rw [OrderedMap.lookup_reverse_eq_none_iff] at hl
    have hfilters := c.lookup_filters_rel agrees h hl
    have hfirst := hrefl _ (c.search_same s.search) name
    generalize (c.filters s).reverse.lookup name = x, (c.filters t).reverse.lookup name = y
      at hfilters
    cases hfilters with
    | none => simpa using hfirst
    | some hsame => simpa using hsame

/-- Where the filters do not agree, setting one of them again can be seen in the parameters. -/
theorem agrees_of_compile_same (hs : s.same s = true)
    (h : ∀ t, s.same t = true → (c.compile s).same (c.compile t) = true) : c.Agrees s := by
  intro e he e' he' hname hlast
  -- Each of the two filters decides the parameter once it is set again.
  have hcompiled : ∀ e'' ∈ c.filters s, e''.1 = e.1 → ∃ q,
      (c.compile s).get? e.1 = some q ∧ q.same e''.2 = true := by
    intro e'' he'' hname
    obtain ⟨⟨key, value⟩, hv, he''⟩ := List.mem_filterMap.mp he''
    obtain ⟨p, hdecides, hsame⟩ := c.exists_decides_renewed hs hv he'' (by rwa [hname])
    have hp := c.get?_compile_of_decides hdecides
    rw [hname] at hp
    have hrel := rel_swap (OrderedMap.sameBy_iff.mp (h _ (State.same_renewed hs hv)) e.1)
      fun _ _ => Param.same_symm
    rw [hp] at hrel
    obtain ⟨q, hq, hpq⟩ := exists_of_rel_some hrel
    exact ⟨q, hq, Param.same_symm (Param.same_trans hsame hpq)⟩
  obtain ⟨q, hq, hsame⟩ := hcompiled e he rfl
  obtain ⟨q', hq', hsame'⟩ := hcompiled e' he' hname.symm
  rw [hq, Option.some.injEq] at hq'
  subst hq'
  exact Param.same_trans (Param.same_symm hsame) hsame'

end Compiler

end Listing
