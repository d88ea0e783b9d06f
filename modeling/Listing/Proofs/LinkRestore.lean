import Listing.Proofs.LinkRoundTrip

namespace Listing

/-- The state without its filters. -/
def State.unfiltered (s : State) : State := { s with filters := ∅ }

/-- A state whose filters have keys that links can read, and of which a link can say the rest. The
values of the filters may be of any kind. -/
structure State.Addressed (schema : Schema) (s : State) : Prop where
  keys : ∀ key ∈ s.filters.keys, ∃ f ∈ schema.filterFields, key ∈ Link.readableKeys schema f
  rest : s.unfiltered.Linkable schema

theorem State.Linkable.addressed {schema : Schema} {s : State} (h : s.Linkable schema) :
    s.Addressed schema where
  keys key hkey := by
    obtain ⟨value, hget⟩ := OrderedMap.mem_keys_iff.mp hkey
    obtain ⟨f, hf, hread, -⟩ := h.exists_field hget
    exact ⟨f, hf, hread⟩
  rest := ⟨fun _ hentry => absurd hentry List.not_mem_nil, h.sort, h.dateRange⟩

namespace Link

variable {schema : Schema} {s : State}

theorem valueOf?_pairs_unfiltered (s : State) (key : String) :
    valueOf? (pairs s.unfiltered) key =
      ((if key = searchName then (some s.search).filter (· ≠ "") else none).or
        (if key = sortName then (some s.sort).filter (· ≠ "") else none)).or (dateText? s key) := by
  have hfilter : filterText? s.unfiltered key = none := rfl
  rw [valueOf?_pairs, hfilter, Option.or_none]
  rfl

/-- Where no filter speaks, a link says what it says without the filters. -/
theorem valueOf?_pairs_of_filterText? {key : String} (h : filterText? s key = none) :
    valueOf? (pairs s) key = valueOf? (pairs s.unfiltered) key := by
  rw [valueOf?_pairs_unfiltered, valueOf?_pairs, h, Option.or_none]

/-- Where nothing but a filter can speak, a link says what the filter says. -/
theorem valueOf?_pairs_of_unfiltered {key : String}
    (h : valueOf? (pairs s.unfiltered) key = none) :
    valueOf? (pairs s) key = filterText? s key := by
  rw [valueOf?_pairs_unfiltered, Option.or_eq_none_iff] at h
  rw [valueOf?_pairs, h.1, h.2, Option.none_or, Option.or_none]

theorem filterText?_eq_none_of_unreadable (h : s.Addressed schema) {key : String}
    (hkey : ∀ f ∈ schema.filterFields, key ∉ readableKeys schema f) :
    filterText? s key = none := by
  have hfresh : key ∉ s.filters.keys := by
    intro hmem
    obtain ⟨f, hf, hread⟩ := h.keys key hmem
    exact hkey f hf hread
  rw [filterText?, OrderedMap.get?_eq_none_iff.mpr hfresh]
  rfl

/-- At a key of one field a link gives the value that this field reads there. -/
theorem get?_readFilters_of_mem (apart : schema.KeysApart) {f : Field}
    (hf : f ∈ schema.filterFields) {key : String} (hk : key ∈ readableKeys schema f)
    (pairs : List (String × String)) :
    (readFilters schema pairs).get? key = (valueOf? pairs key).bind (readValue? f) := by
  have hfields : ∀ g ∈ schema.filterFields, key ∈ readableKeys schema g →
      (if key ∈ readableKeys schema g then (valueOf? pairs key).bind (readValue? g) else none) =
        (valueOf? pairs key).bind (readValue? f) := by
    intro g hg hkg
    rw [if_pos hkg, apart.eq_of_mem hf hg hk hkg]
  rw [get?_readFilters]
  cases hvalue : (valueOf? pairs key).bind (readValue? f) with
  | none =>
    rw [List.findSome?_eq_none_iff]
    intro g hg
    by_cases hkg : key ∈ readableKeys schema g
    · rw [hfields g hg hkg, hvalue]
    · rw [if_neg hkg]
  | some value =>
    refine findSome?_of_agree (q := fun g => key ∈ readableKeys schema g) hf hk ?_ ?_
    · intro g hg hkg
      rw [hfields g hg hkg, hvalue]
    · intro g hg hkg
      exact if_neg hkg

theorem get?_readFilters_eq_none {key : String}
    (hkey : ∀ f ∈ schema.filterFields, key ∉ readableKeys schema f)
    (pairs : List (String × String)) : (readFilters schema pairs).get? key = none := by
  rw [get?_readFilters, List.findSome?_eq_none_iff]
  intro f hf
  exact if_neg (hkey f hf)

/-- A written filter is read by the field of its key. -/
theorem get?_readFilters_pairs (apart : schema.KeysApart) (h : s.Addressed schema) {f : Field}
    (hf : f ∈ schema.filterFields) {key : String} (hk : key ∈ readableKeys schema f) :
    (readFilters schema (pairs s)).get? key = (filterText? s key).bind (readValue? f) := by
  have hnone : valueOf? (pairs s.unfiltered) key = none := by
    rw [valueOf?_pairs_readable apart h.rest hf hk]
    rfl
  rw [get?_readFilters_of_mem apart hf hk, valueOf?_pairs_of_unfiltered hnone]

theorem getD_filter_nonempty (text : String) (default : String) (h : text ≠ "" ∨ default = "") :
    ((some text).filter (· ≠ "")).getD default = text := by
  by_cases ht : text = ""
  · have hd : default = "" := h.resolve_left fun hne => hne ht
    simp [ht, hd, Option.filter]
  · simp [ht, Option.filter]

/-- A link gives a state back up to its filters, which are read from their texts. -/
theorem restore_write_eq (apart : schema.KeysApart) (h : s.Addressed schema) :
    restore schema (write s) = { s with filters := readFilters schema (pairs s) } := by
  have hunread : ∀ key, (∀ f ∈ schema.filterFields, key ∉ readableKeys schema f) →
      valueOf? (pairs s) key = valueOf? (pairs s.unfiltered) key := fun key hkey =>
    valueOf?_pairs_of_filterText? (filterText?_eq_none_of_unreadable h hkey)
  obtain ⟨hsearch, hsort⟩ := valueOf?_pairs_named apart h.rest
  rw [← hunread searchName fun f hf hk => (apart.named f hf _ hk).1 rfl] at hsearch
  rw [← hunread sortName fun f hf hk => (apart.named f hf _ hk).2 rfl] at hsort
  have hrange : readDateRange? schema (pairs s) = s.dateRange := by
    have hdates : readDateRange? schema (pairs s) = readDateRange? schema (pairs s.unfiltered) := by
      apply readDateRange?_congr
      intro d hd
      exact ⟨hunread _ fun f hf hk => (apart.dated f hf _ hk d hd).1 rfl,
        hunread _ fun f hf hk => (apart.dated f hf _ hk d hd).2 rfl⟩
    exact hdates.trans (readDateRange?_pairs apart h.rest)
  have hdefault : s.sort ≠ "" ∨ schema.defaultSort?.getD "" = "" := by
    rcases h.rest.sort with hne | hnone | hempty
    · exact .inl hne
    · exact .inr (by rw [hnone]; rfl)
    · exact .inr (by rw [hempty]; rfl)
  have hsearch' : (valueOf? (pairs s) searchName).getD "" = s.search := by
    rw [hsearch]
    exact getD_filter_nonempty s.search "" (.inr rfl)
  have hsort' : (valueOf? (pairs s) sortName).getD (schema.defaultSort?.getD "") = s.sort := by
    rw [hsort]
    exact getD_filter_nonempty s.sort _ hdefault
  rw [restore, read_write]
  simp [Patch.applyTo, readPairs, State.initial, State.empty, hsearch', hsort', hrange]

end Link

end Listing
