import Listing.Proofs.EmissionRules

namespace Listing

/-- All emissions in the order in which they are made. -/
def Emitted.row (e : Emitted) : List (String × Param) :=
  e.search ++ e.filters ++ e.dateRange ++ e.sort

/-- The names that some rule other than the search emits. -/
def Emitted.chosenNames (e : Emitted) : List String :=
  (e.filters ++ e.dateRange ++ e.sort).map Prod.fst

namespace Params

/-- Parameters with exactly the names of a row of emissions, in the order in which the names first
come there, where each has the value that comes last. -/
structure LeftBy (params : Params) (row : List (String × Param)) : Prop where
  names : ∀ name, name ∈ params.keys ↔ name ∈ row.map Prod.fst
  once : params.keys.Nodup
  first : params.keys.Pairwise fun a b =>
    (row.map Prod.fst).idxOf a < (row.map Prod.fst).idxOf b
  last : ∀ name value, params.get? name = some value ↔
    ∃ before after, row = before ++ (name, value) :: after ∧ name ∉ after.map Prod.fst

theorem leftBy_ofEmissions (row : List (String × Param)) : (ofEmissions row).LeftBy row where
  names := OrderedMap.mem_keys_ofList row
  once := (ofEmissions row).keys_nodup
  first := OrderedMap.keys_ofList_pairwise row
  last name value := by
    rw [ofEmissions, OrderedMap.get?_ofList, OrderedMap.lookup_reverse_eq_some_iff]

/-- Parameters that a later rule decides before an earlier one, and within a rule the last
emission. -/
def Follows (params : Params) (e : Emitted) : Prop :=
  params.LeftBy e.row ∧ ∀ name, params.get? name =
    (((e.sort.reverse.lookup name).or (e.dateRange.reverse.lookup name)).or
      (e.filters.reverse.lookup name)).or (e.search.reverse.lookup name)

theorem follows_ofEmissions (e : Emitted) : (ofEmissions e.row).Follows e := by
  refine ⟨leftBy_ofEmissions e.row, ?_⟩
  intro name
  rw [ofEmissions, OrderedMap.get?_ofList, Emitted.row]
  simp only [List.reverse_append, List.lookup_append, Option.or_assoc]

/-- The search decides no name that another rule emits. -/
theorem Follows.get?_eq {p q : Params} {e e' : Emitted} (h : p.Follows e) (h' : q.Follows e')
    (hfilters : e.filters = e'.filters) (hdate : e.dateRange = e'.dateRange)
    (hsort : e.sort = e'.sort) {name : String} (hname : name ∈ e.chosenNames) :
    p.get? name = q.get? name := by
  have hlast : ∃ value, ((e.sort.reverse.lookup name).or (e.dateRange.reverse.lookup name)).or
      (e.filters.reverse.lookup name) = some value := by
    have hne : (e.filters ++ e.dateRange ++ e.sort).reverse.lookup name ≠ none := fun hnone =>
      OrderedMap.lookup_reverse_eq_none_iff.mp hnone hname
    obtain ⟨value, hvalue⟩ := Option.ne_none_iff_exists'.mp hne
    refine ⟨value, ?_⟩
    simpa only [List.reverse_append, List.lookup_append, Option.or_assoc] using hvalue
  obtain ⟨value, hvalue⟩ := hlast
  rw [h.2, h'.2, ← hfilters, ← hdate, ← hsort, hvalue, Option.some_or, Option.some_or]

end Params

theorem FlatQuery.compile_follows (schema : Schema) (s : State) :
    (compile schema s).Follows (emitted schema s) :=
  Params.follows_ofEmissions (emitted schema s)

theorem SuffixedQuery.compile_follows (separator : String) (schema : Schema) (s : State) :
    (compile separator schema s).Follows (emitted separator schema s) :=
  Params.follows_ofEmissions (emitted separator schema s)

/-- The rules of either kind of query make one row of emissions of a state. The query has the names
of the row, in the order of the first emissions and with the values of the last ones, so that the
sort order beats the date range, the date range the filters, a later filter an earlier one and every
filter the search. Another search text changes no parameter whose name another rule emits. -/
theorem Params.compile_follows_rules (separator : String) (schema : Schema) (s : State) :
    (∃ e, (∀ e', (FlatQuery.rules schema).Emit s e' ↔ e' = e) ∧
      (FlatQuery.compile schema s).Follows e ∧
      ∀ search, ∀ name ∈ e.chosenNames,
        (FlatQuery.compile schema (s.withSearch search)).get? name =
          (FlatQuery.compile schema s).get? name) ∧
    (∃ e, (∀ e', (SuffixedQuery.rules separator schema).Emit s e' ↔ e' = e) ∧
      (SuffixedQuery.compile separator schema s).Follows e ∧
      ∀ search, ∀ name ∈ e.chosenNames,
        (SuffixedQuery.compile separator schema (s.withSearch search)).get? name =
          (SuffixedQuery.compile separator schema s).get? name) := by
  have hflat := FlatQuery.compile_follows schema
  have hsuffixed := SuffixedQuery.compile_follows separator schema
  refine ⟨⟨FlatQuery.emitted schema s, fun _ => FlatQuery.rules_emit_iff, hflat s, ?_⟩,
    ⟨SuffixedQuery.emitted separator schema s, fun _ => SuffixedQuery.rules_emit_iff, hsuffixed s,
      ?_⟩⟩
  · intro search name hname
    exact (Params.Follows.get?_eq (hflat s) (hflat (s.withSearch search)) rfl rfl rfl hname).symm
  · intro search name hname
    exact (Params.Follows.get?_eq (hsuffixed s) (hsuffixed (s.withSearch search)) rfl rfl rfl
      hname).symm

/-- Shelves that are searched by name and room, with a date that can be a filter and a range. -/
def shelfSchema : Schema :=
  { Schema.empty with
    searchFields := [.ofKey "name" .string, .ofKey "room" .string]
    filterFields := [⟨"name", none, .string, some .like, [], none⟩, .ofKey "price" .number,
      ⟨"made", none, .date, some .gte, [], none⟩]
    dateRangeFields := [⟨"made", none⟩] }

/-- A search with a filter on the name, a lower bound, a filter on the date and a range of dates. -/
def shelfChoice : State :=
  let searched := (State.empty.withSearch "oak").withSort "name:asc"
  let named := (searched.withFilter "name" (.text "ash")).withFilter "price_min" (.text "5")
  (named.withFilter "made" (.text "2024-01-01")).withDateRange
    (some (.ofTexts "made" (some "2024-05-01") none))

def shelfFlat : Emitted where
  search := [("name", .text "oak"), ("room", .text "oak")]
  filters := [("name", .text "ash"), ("price", .text "5:"), ("made", .text "2024-01-01")]
  dateRange := [("made", .text "20240501000000:")]
  sort := [("sort", .text "name:asc")]

def shelfSuffixed : Emitted where
  search := [("name__like", .text "oak"), ("room__like", .text "oak")]
  filters := [("name__like", .text "ash"), ("price__gte", .number (.ofInt 5)),
    ("made__gte", .text "2024-01-01")]
  dateRange := [("made__gte", .text "2024-05-01")]
  sort := [("sort", .text "name:asc")]

/-- A filter decides the name that the search emits too, and the range of dates that of a filter. -/
theorem Params.compile_follows_rules_shelf :
    ((FlatQuery.rules shelfSchema).Emit shelfChoice shelfFlat ∧
      (FlatQuery.compile shelfSchema (shelfChoice.withSearch "elm")).get? "name" =
        some (.text "ash") ∧
      (FlatQuery.compile shelfSchema shelfChoice).get? "room" = some (.text "oak") ∧
      (FlatQuery.compile shelfSchema shelfChoice).get? "made" = some (.text "20240501000000:")) ∧
    (SuffixedQuery.rules "__" shelfSchema).Emit shelfChoice shelfSuffixed ∧
      (SuffixedQuery.compile "__" shelfSchema (shelfChoice.withSearch "elm")).get? "name__like" =
        some (.text "ash") ∧
      (SuffixedQuery.compile "__" shelfSchema shelfChoice).get? "price__gte" =
        some (.number (.ofInt 5)) ∧
      (SuffixedQuery.compile "__" shelfSchema shelfChoice).get? "made__gte" =
        some (.text "2024-05-01") := by
  obtain ⟨⟨e, honly, ⟨-, hrules⟩, hsearch⟩, e', hsuffixedOnly, ⟨-, hsuffixedRules⟩,
    hsuffixedSearch⟩ := compile_follows_rules "__" shelfSchema shelfChoice
  have hflat : (FlatQuery.rules shelfSchema).Emit shelfChoice shelfFlat :=
    FlatQuery.rules_emit_iff.mpr (by decide +kernel)
  have hsuffixed : (SuffixedQuery.rules "__" shelfSchema).Emit shelfChoice shelfSuffixed :=
    SuffixedQuery.rules_emit_iff.mpr (by decide +kernel)
  obtain rfl := (honly _).mp hflat
  obtain rfl := (hsuffixedOnly _).mp hsuffixed
  refine ⟨⟨hflat, ?_, ?_, ?_⟩, hsuffixed, ?_, ?_, ?_⟩
  · rw [hsearch "elm" "name" (by decide), hrules]
    rfl
  · rw [hrules]
    rfl
  · rw [hrules]
    rfl
  · rw [hsuffixedSearch "elm" "name__like" (by decide), hsuffixedRules]
    rfl
  · rw [hsuffixedRules]
    rfl
  · rw [hsuffixedRules]
    rfl

end Listing
