import Listing.Proofs.FieldOrder
import Listing.Proofs.Records
import Listing.State.Document

namespace Listing

open Json

namespace FilterValue

/-- Whether a document can hold a value: infinities and `nan` have no place in one. -/
def hasDocument : FilterValue → Bool
  | .number n => n.isFinite
  | _ => true

theorem read?_printed (v : FilterValue) :
    read? v.json.printed = if v.hasDocument then some v else none := by
  cases v with
  | text s => rfl
  | bool b => rfl
  | number n =>
    rw [json, printed, Numeral.printed, hasDocument]
    split <;> rfl
  | list values =>
    have htext : ∀ s : String, Written.text? ((printed ∘ Json.text) s) = some s := fun _ => rfl
    rw [json, printed, printedItems_eq, List.map_map, read?, Document.mapM_map_some htext]
    rfl

/-- Of the values that are not empty, only the infinities have no document. -/
theorem hasDocument_eq_false_iff {v : FilterValue} (h : v.isEmpty = false) :
    v.hasDocument = false ↔ ∃ negative, v = .number (.infinity negative) := by
  constructor
  · intro hnone
    cases v with
    | text s => cases hnone
    | bool b => cases hnone
    | list values => cases hnone
    | number n =>
      cases n with
      | nan => cases h
      | ranked negative rank =>
        exact ⟨negative, congrArg number (Double.eq_infinity (of_decide_eq_false hnone))⟩
  · rintro ⟨negative, rfl⟩
    simp [hasDocument, Double.infinity, Double.isFinite]

end FilterValue

theorem DateRange.read?_printed (r : DateRange) : read? r.json.printed = some r := by
  obtain ⟨field, start, stop⟩ := r
  cases field <;> cases start <;> cases stop <;> rfl

namespace State

theorem readFilters?_printed (filters : OrderedMap FilterValue) :
    readFilters? (Json.object (filters.entries.map fun e => (e.1, e.2.json))).printed =
      if filters.entries.all (fun e => e.2.hasDocument) then some filters else none := by
  have hfilter : ∀ e : String × FilterValue, readFilter? (some e.1, e.2.json.printed) =
      if e.2.hasDocument then some e else none := by
    intro e
    rw [readFilter?, FilterValue.read?_printed]
    cases e.2.hasDocument <;> rfl
  have hread := Document.mapM_written hfilter filters.entries
  have hkeep := OrderedMap.entries_ofList_iff.mpr filters.keys_nodup
  simp only [printed, printedMembers_eq, List.map_map, readFilters?, Function.comp_def, hread]
  split
  next => exact congrArg some (OrderedMap.ext hkeep)
  next => rfl

/-- The state that is read from the text of a state's document. -/
def reread? (s : State) : Option State := (Written.parse? s.json.compact).bind State.read?

/-- The record that a state stands in. -/
def members (s : State) (filters : Written) : List (String × Written) :=
  [("search", .text (some s.search)), ("filters", filters), ("sort", .text (some s.sort))] ++
    match s.dateRange with
    | some r => [("dateRange", r.json.printed)]
    | none => []

theorem record?_printed (s : State) :
    Document.record? ["search", "filters", "sort", "dateRange"] s.json.printed =
      some (s.members (Json.object (s.filters.entries.map fun e => (e.1, e.2.json))).printed) := by
  obtain ⟨search, filters, sort, range⟩ := s
  rw [json, printed, printedMembers_eq]
  generalize (Json.object (filters.entries.map fun e => (e.1, e.2.json))) = node
  cases range with
  | none => rfl
  | some r => rfl

theorem optional_dateRange (s : State) (filters : Written) :
    Document.optional (s.members filters) "dateRange" DateRange.read? = some s.dateRange := by
  obtain ⟨search, map, sort, range⟩ := s
  cases range with
  | none => rfl
  | some r =>
    have hread : Document.optional (State.members ⟨search, map, sort, some r⟩ filters) "dateRange"
        DateRange.read? = (DateRange.read? r.json.printed).bind fun r => some (some r) := rfl
    rw [hread, DateRange.read?_printed, Option.bind_some]

/-- A state is read from any record of its four members. -/
theorem read?_printed (s : State) :
    read? s.json.printed =
      (readFilters? (Json.object (s.filters.entries.map fun e => (e.1, e.2.json))).printed).map
        fun filters => { s with filters := filters } := by
  generalize hnode : (Json.object (s.filters.entries.map fun e => (e.1, e.2.json))).printed = node
  have hsearch : Document.defaulted (s.members node) "search" "" Document.text? = some s.search :=
    rfl
  have hfilters : Document.defaulted (s.members node) "filters" ∅ readFilters? = readFilters? node :=
    rfl
  have hsort : Document.defaulted (s.members node) "sort" "" Document.text? = some s.sort := rfl
  rw [read?, record?_printed, hnode]
  simp only [Option.bind_eq_bind, Option.bind_some, hsearch, hfilters, hsort,
    optional_dateRange]
  cases readFilters? node <;> rfl

theorem reread?_eq (s : State) :
    s.reread? = if s.filters.entries.all (fun e => e.2.hasDocument) then some s else none := by
  rw [reread?, Written.parse?_compact, Option.bind_some, read?_printed, readFilters?_printed]
  split <;> rfl

end State

namespace Link

variable {schema : Schema} {query key : String}

theorem parse?_of_readValue? {f : Field} {raw : String} {n : Double}
    (h : readValue? f raw = some (.number n)) : Double.parse? (Text.trim raw) = some n := by
  unfold readValue? at h
  split at h
  next =>
    dsimp only at h
    split at h <;> cases h
  next =>
    split at h
    next =>
      split at h
      next => cases h
      next =>
        obtain ⟨m, hm, hnumber⟩ := Option.map_eq_some_iff.mp h
        obtain rfl : m = n := FilterValue.number.inj hnumber
        exact (Option.filter_eq_some_iff.mp hm).1
    next =>
      split at h
      next => cases h
      next => split at h <;> cases h
    next => cases h

/-- The number of a restored filter is what the text of its parameter names. -/
theorem exists_given_of_number {n : Double}
    (h : (restore schema query).filters.get? key = some (.number n)) :
    ∃ raw, (key, raw) ∈ given query ∧ Double.parse? (Text.trim raw) = some n := by
  have hget : (readFilters schema (given query)).get? key = some (.number n) := h
  rw [get?_readFilters] at hget
  obtain ⟨f, -, hf⟩ := List.exists_of_findSome?_eq_some hget
  split at hf
  next =>
    obtain ⟨raw, hraw, hvalue⟩ := Option.bind_eq_some_iff.mp hf
    have hlookup := (Option.filter_eq_some_iff.mp hraw).1
    obtain ⟨before, after, hgiven, -⟩ := List.lookup_eq_some_iff.mp hlookup
    exact ⟨raw, by simp [hgiven], parse?_of_readValue? hvalue⟩
  next => cases hf

theorem hasDocument_restore_iff :
    (restore schema query).filters.entries.all (fun e => e.2.hasDocument) = true ↔
      ∀ key negative,
        (restore schema query).filters.get? key ≠ some (.number (.infinity negative)) := by
  have hvalue : ∀ {key v}, (restore schema query).filters.get? key = some v →
      (v.hasDocument = false ↔ ∃ negative, v = .number (.infinity negative)) := fun hget =>
    FilterValue.hasDocument_eq_false_iff (isEmpty_of_get?_readFilters hget)
  rw [List.all_eq_true]
  constructor
  · intro hall key negative hget
    have hnone := (hvalue hget).mpr ⟨negative, rfl⟩
    have hsome := hall _ (OrderedMap.get?_eq_some_iff.mp hget)
    exact absurd (hnone.symm.trans hsome) (by decide)
  · rintro hfinite ⟨key, v⟩ hmem
    have hget := OrderedMap.get?_eq_some_iff.mpr hmem
    by_contra hnone
    obtain ⟨negative, rfl⟩ := (hvalue hget).mp (Bool.eq_false_of_not_eq_true hnone)
    exact hfinite key negative hget

/-- The state that a query stands for is the same as itself and is read back from its document,
unless a parameter names an infinite number: then nothing of the state can be read. Numbers of the
document are read as the nearest doubles, as `Json.numeralOf` has it. -/
theorem restore_reread? (schema : Schema) (query : String) :
    (restore schema query).same (restore schema query) = true ∧
      ((restore schema query).reread? = some (restore schema query) ↔ ∀ key negative,
        (restore schema query).filters.get? key ≠ some (.number (.infinity negative))) ∧
      ∀ key negative,
        (restore schema query).filters.get? key = some (.number (.infinity negative)) →
          (restore schema query).reread? = none ∧ ∃ raw, (key, raw) ∈ given query ∧
            Double.parse? (Text.trim raw) = some (.infinity negative) := by
  refine ⟨restore_same_self schema query, ?_, fun key negative hget => ⟨?_, ?_⟩⟩
  · rw [← hasDocument_restore_iff, State.reread?_eq]
    split
    next hall => exact ⟨fun _ => hall, fun _ => rfl⟩
    next hall => exact iff_of_false (fun h => by cases h) hall
  · rw [State.reread?_eq, if_neg]
    intro hall
    exact hasDocument_restore_iff.mp hall key negative hget
  · exact exists_given_of_number hget

/-- Watches by their price and colour. -/
def pricedSchema : Schema :=
  { Schema.empty with
    filterFields := [⟨"price", none, .number, none, [], none⟩,
      ⟨"colour", none, .multiselect, none, [], none⟩] }

theorem restore_reread?_priced :
    (restore pricedSchema "?price=129.99&colour=red,blue").filters.entries.length = 2 ∧
      (restore pricedSchema "?price=129.99&colour=red,blue").reread? =
        some (restore pricedSchema "?price=129.99&colour=red,blue") ∧
      (restore pricedSchema "price=-1e999").reread? = none := by
  have hall : (restore pricedSchema "?price=129.99&colour=red,blue").filters.entries.all
      (fun e => e.2.hasDocument) = true := by decide +kernel
  have hinfinite : (restore pricedSchema "price=-1e999").filters.get? "price" =
      some (.number (.infinity true)) := by decide +kernel
  exact ⟨by decide +kernel, (restore_reread? _ _).2.1.mpr (hasDocument_restore_iff.mp hall),
    ((restore_reread? _ _).2.2 _ _ hinfinite).1⟩

/-- A link may name an infinite price. Its document has null in place of the price, and is refused. -/
theorem reread?_infinite_price :
    pricedSchema.validate = .ok () ∧
      (restore pricedSchema "price=inf").filters.entries =
        [("price", .number (.infinity false))] ∧
      (restore pricedSchema "price=inf").json.compact =
        "\x7b\"search\":\"\",\"filters\":\x7b\"price\":null\x7d,\"sort\":\"\"\x7d" ∧
      (restore pricedSchema "price=inf").reread? = none := by
  have hentries : (restore pricedSchema "price=inf").filters.entries =
      [("price", .number (.infinity false))] := by decide +kernel
  refine ⟨rfl, hentries, by decide +kernel, ?_⟩
  rw [State.reread?_eq, hentries]
  rfl

end Link

end Listing
