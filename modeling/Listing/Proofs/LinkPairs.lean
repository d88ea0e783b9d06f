import Listing.Link
import Listing.Proofs.FormEncoding
import Listing.Proofs.Maps

namespace Listing

namespace Link

/-- What a link says of a filter: its text, unless the filter is empty or has none. -/
def filterText? (s : State) (key : String) : Option String :=
  (((s.filters.get? key).filter fun value => !value.isEmpty).map FilterValue.param).filter (· ≠ "")

/-- What a link says of a bound of a date range. -/
def dateText? (s : State) (key : String) : Option String :=
  s.activeDateRange?.bind fun (field, range) =>
    (if key = startName field then range.lower? else none).or
      (if key = stopName field then range.upper? else none)

theorem lookup_pairOf (name value key : String) :
    (pairOf name value).lookup key =
      if key = name then (some value).filter (· ≠ "") else none := by
  unfold pairOf
  by_cases hv : value = ""
  · simp [hv, Option.filter]
  · by_cases hk : key = name <;> simp [hv, hk, Option.filter]

/-- Rows that hold only the key of their entry are looked up through the entry. -/
theorem lookup_rows {α β : Type} {entries : List (String × α)}
    (h : (entries.map Prod.fst).Nodup) {row : String → α → List (String × β)} {g : α → Option β}
    (hrow : ∀ k v key, (row k v).lookup key = if key = k then g v else none) (key : String) :
    (entries.flatMap fun (k, v) => row k v).lookup key = (entries.lookup key).bind g := by
  induction entries with
  | nil => rfl
  | cons entry rest ih =>
    obtain ⟨k, v⟩ := entry
    rw [List.map_cons, List.nodup_cons] at h
    rw [List.flatMap_cons, List.lookup_append, hrow, ih h.2]
    by_cases hk : key = k
    · subst k
      have hn : rest.lookup key = none := OrderedMap.lookup_eq_none_iff.mpr h.1
      simp [hn]
    · have hb : (key == k) = false := by simpa using hk
      simp [hk, List.lookup_cons, hb]

theorem lookup_filterPairs (s : State) (key : String) :
    (s.activeFilters.flatMap fun (k, v) => pairOf k v.param).lookup key = filterText? s key := by
  have hrows := lookup_rows (s.filters.filter fun (_, value) => !value.isEmpty).keys_nodup
    (fun k v key => lookup_pairOf k (FilterValue.param v) key) key
  have hget := s.filters.get?_filter (fun (_, value) => !value.isEmpty) key
  refine hrows.trans ?_
  rw [filterText?, ← hget]
  change Option.bind (OrderedMap.get? _ key) _ = _
  generalize OrderedMap.get? _ key = x
  cases x <;> rfl

theorem filter_nonempty_getD {x : Option String} (h : x ≠ some "") :
    (some (x.getD "")).filter (· ≠ "") = x := by
  cases x with
  | none => rfl
  | some v => simpa using h

theorem lookup_datePairs (s : State) (key : String) :
    (datePairs s.activeDateRange?).lookup key = dateText? s key := by
  unfold datePairs dateText?
  cases s.activeDateRange? with
  | none => rfl
  | some active =>
    obtain ⟨field, range⟩ := active
    have hlower : range.lower? ≠ some "" := by simp [DateRange.lower?]
    have hupper : range.upper? ≠ some "" := by simp [DateRange.upper?]
    simp only [List.lookup_append, lookup_pairOf, filter_nonempty_getD hlower,
      filter_nonempty_getD hupper, Option.bind_some]

theorem pairOf_nonempty {name value : String} : ∀ pair ∈ pairOf name value, pair.2 ≠ "" := by
  unfold pairOf
  split
  next => simp
  next h => simpa using h

/-- No pair of a link has an empty value. -/
theorem pairs_nonempty (s : State) : ∀ pair ∈ pairs s, pair.2 ≠ "" := by
  intro pair hp
  simp only [pairs, List.mem_append, List.mem_flatMap] at hp
  rcases hp with ((hp | hp) | ⟨⟨key, value⟩, -, hp⟩) | hp
  · exact pairOf_nonempty pair hp
  · exact pairOf_nonempty pair hp
  · exact pairOf_nonempty pair hp
  · unfold datePairs at hp
    split at hp
    next => simp at hp
    next =>
      rcases List.mem_append.mp hp with hp | hp
      · exact pairOf_nonempty pair hp
      · exact pairOf_nonempty pair hp

theorem valueOf?_pairs (s : State) (key : String) :
    valueOf? (pairs s) key =
      (((if key = searchName then (some s.search).filter (· ≠ "") else none).or
        (if key = sortName then (some s.sort).filter (· ≠ "") else none)).or
          (filterText? s key)).or (dateText? s key) := by
  have hlookup : (pairs s).lookup key ≠ some "" := by
    intro h
    obtain ⟨before, after, heq, -⟩ := List.lookup_eq_some_iff.mp h
    exact pairs_nonempty s (key, "") (by simp [heq]) rfl
  have hfilter : valueOf? (pairs s) key = (pairs s).lookup key := by
    unfold valueOf?
    cases hv : (pairs s).lookup key with
    | none => rfl
    | some v => simpa [hv] using hlookup
  rw [hfilter, pairs, List.lookup_append, List.lookup_append, List.lookup_append,
    lookup_filterPairs, lookup_datePairs, lookup_pairOf, lookup_pairOf]

/-- A link reads back the pairs it was written from. -/
theorem read_write (schema : Schema) (s : State) :
    read schema (write s) = readPairs schema (pairs s) := by
  unfold read write
  split
  next rest h => exact absurd h (FormEncoding.head_encode_ne _ _)
  next => simp only [FormEncoding.decode_encode]

/-- The names that are read in a link. -/
def names (schema : Schema) : List String :=
  searchName :: sortName :: (schema.filterFields.flatMap (readableKeys schema) ++
    schema.dateRangeFields.flatMap fun d => [startName d.key, stopName d.key])

section Congruence

variable {schema : Schema} {pairs pairs' : List (String × String)}

theorem readFilters_congr
    (h : ∀ key ∈ schema.filterFields.flatMap (readableKeys schema),
      valueOf? pairs key = valueOf? pairs' key) :
    readFilters schema pairs = readFilters schema pairs' := by
  unfold readFilters
  dsimp only
  congr 1
  apply List.flatMap_congr
  intro f hf
  apply List.filterMap_congr
  intro key hkey
  rw [h key (List.mem_flatMap.mpr ⟨f, hf, hkey⟩)]

theorem readDateRange?_congr
    (h : ∀ d ∈ schema.dateRangeFields, valueOf? pairs (startName d.key) =
      valueOf? pairs' (startName d.key) ∧
        valueOf? pairs (stopName d.key) = valueOf? pairs' (stopName d.key)) :
    readDateRange? schema pairs = readDateRange? schema pairs' := by
  rw [readDateRange?, readDateRange?, ← List.head?_filterMap, ← List.head?_filterMap]
  congr 1
  apply List.filterMap_congr
  intro d hd
  rw [(h d hd).1, (h d hd).2]

/-- Links are read through the values of their names only. -/
theorem readPairs_congr (h : ∀ name ∈ names schema, valueOf? pairs name = valueOf? pairs' name) :
    readPairs schema pairs = readPairs schema pairs' := by
  have hfields : ∀ key ∈ schema.filterFields.flatMap (readableKeys schema),
      valueOf? pairs key = valueOf? pairs' key := fun key hkey =>
    h key (by simp only [names, List.mem_cons, List.mem_append, hkey, true_or, or_true])
  have hdates : ∀ d ∈ schema.dateRangeFields, ∀ name ∈ [startName d.key, stopName d.key],
      valueOf? pairs name = valueOf? pairs' name := by
    intro d hd name hname
    have hmem : name ∈ schema.dateRangeFields.flatMap fun d => [startName d.key, stopName d.key] :=
      List.mem_flatMap.mpr ⟨d, hd, hname⟩
    exact h name (List.mem_cons_of_mem _ (List.mem_cons_of_mem _ (List.mem_append_right _ hmem)))
  rw [readPairs, readPairs, h searchName (by simp [names]), h sortName (by simp [names]),
    readFilters_congr hfields,
    readDateRange?_congr fun d hd => ⟨hdates d hd _ (by simp), hdates d hd _ (by simp)⟩]

end Congruence

theorem lookup_filterMap_key {β : Type} (keys : List String) (g : String → Option β) (key : String) :
    (keys.filterMap fun k => (g k).map fun value => (k, value)).lookup key =
      if key ∈ keys then g key else none := by
  induction keys with
  | nil => simp
  | cons k keys ih =>
    by_cases hk : key = k
    · subst k
      cases hg : g key with
      | none => simp [hg, ih]
      | some v => simp [hg]
    · have hb : (key == k) = false := by simpa using hk
      cases hg : g k with
      | none => simp [hg, ih, hk]
      | some v => simp [hg, ih, hk, List.lookup_cons, hb]

/-- A key is read as the first field that can read it and gives it a value. -/
theorem get?_readFilters (schema : Schema) (pairs : List (String × String)) (key : String) :
    (readFilters schema pairs).get? key = schema.filterFields.findSome? fun f =>
      if key ∈ readableKeys schema f then (valueOf? pairs key).bind (readValue? f) else none := by
  unfold readFilters
  rw [OrderedMap.get?_foldl_insertNew, OrderedMap.lookup_flatMap]
  simp only [lookup_filterMap_key]
  rfl

/-- No text that is not empty is read as an empty value. -/
theorem readValue?_isEmpty {f : Field} {raw : String} {value : FilterValue} (hraw : raw ≠ "")
    (h : readValue? f raw = some value) : value.isEmpty = false := by
  have htext : (FilterValue.text raw).isEmpty = false := by simpa [FilterValue.isEmpty] using hraw
  unfold readValue? at h
  split at h
  next =>
    dsimp only at h
    split at h
    next => cases h
    next hitems =>
      cases h
      simpa [FilterValue.isEmpty] using hitems
  next =>
    split at h
    next =>
      split at h
      next =>
        cases h
        exact htext
      next =>
        obtain ⟨n, hn, rfl⟩ := Option.map_eq_some_iff.mp h
        simpa [FilterValue.isEmpty] using (Option.filter_eq_some_iff.mp hn).2
    next =>
      cases h
      split
      next => rfl
      next =>
        split
        next => rfl
        next => exact htext
    next =>
      cases h
      exact htext

/-- A link never gives a filter an empty value. -/
theorem isEmpty_of_get?_readFilters {schema : Schema} {pairs : List (String × String)}
    {key : String} {value : FilterValue} (h : (readFilters schema pairs).get? key = some value) :
    value.isEmpty = false := by
  rw [get?_readFilters] at h
  obtain ⟨f, -, hf⟩ := List.exists_of_findSome?_eq_some h
  split at hf
  next =>
    obtain ⟨raw, hraw, hvalue⟩ := Option.bind_eq_some_iff.mp hf
    exact readValue?_isEmpty (by simpa using (Option.filter_eq_some_iff.mp hraw).2) hvalue
  next => cases hf

end Link

end Listing
