import Listing.Proofs.LinkRestore
import Listing.Proofs.StateRuns

namespace Listing

namespace OrderedMap

variable {α : Type}

/-- Puts a key at the end unless it is there. -/
def addKey (keys : List String) (key : String) : List String :=
  if key ∈ keys then keys else keys ++ [key]

theorem keys_insertNew (m : OrderedMap α) (key : String) (value : α) :
    (m.insertNew key value).keys = addKey m.keys key := by
  have hmem : m.contains key = true ↔ key ∈ m.keys := by
    rw [contains, Option.isSome_iff_exists, mem_keys_iff]
  unfold insertNew addKey
  by_cases hk : key ∈ m.keys
  · rw [if_pos hk, if_pos (hmem.mpr hk)]
  · rw [if_neg hk, if_neg (mt hmem.mp hk), keys_insert, if_neg hk]

theorem keys_foldl_insertNew (given : List (String × α)) (m : OrderedMap α) :
    (given.foldl (fun m (key, value) => m.insertNew key value) m).keys =
      (given.map Prod.fst).foldl addKey m.keys := by
  induction given generalizing m with
  | nil => rfl
  | cons entry rest ih =>
    rw [List.foldl_cons, ih, keys_insertNew]
    rfl

end OrderedMap

namespace Link

variable {schema : Schema} {s t : State}

/-- The items of a list in a link are neither blank nor divided. -/
theorem mem_readItems {raw item : String}
    (h : item ∈ ((Text.split ',' raw).map Text.trim).filter (· ≠ "")) :
    item ≠ "" ∧ Text.trim item = item ∧ ',' ∉ item.toList := by
  obtain ⟨hmem, hne⟩ := List.mem_filter.mp h
  obtain ⟨part, hpart, rfl⟩ := List.mem_map.mp hmem
  exact ⟨by simpa using hne, Text.trim_trim _, fun hcomma =>
    Text.not_mem_of_mem_split hpart (Text.mem_of_mem_trim hcomma)⟩

/-- Whatever a field reads in a link is a value that links give to the field. -/
theorem carries_of_readValue? {f : Field} {raw : String} {value : FilterValue} (hraw : raw ≠ "")
    (h : readValue? f raw = some value) : f.Carries value := by
  unfold readValue? at h
  unfold Field.Carries
  split at h
  next hlist =>
    rw [if_pos hlist]
    dsimp only at h
    split at h
    next => cases h
    next hitems =>
      cases h
      exact ⟨_, rfl, by simpa using hitems, fun item hitem => mem_readItems hitem⟩
  next hlist =>
    rw [if_neg hlist]
    cases htype : f.type <;> rw [htype] at h <;> dsimp only at h ⊢
    case number =>
      split at h
      next hranged =>
        cases h
        rw [if_pos hranged]
        exact ⟨raw, rfl, hraw⟩
      next hranged =>
        rw [if_neg hranged]
        obtain ⟨n, hn, rfl⟩ := Option.map_eq_some_iff.mp h
        exact ⟨n, rfl, by simpa using (Option.filter_eq_some_iff.mp hn).2⟩
    case boolean =>
      by_cases htrue : raw = "true"
      · rw [if_pos htrue] at h
        exact .inl ⟨true, (Option.some.inj h).symm⟩
      · rw [if_neg htrue] at h
        by_cases hfalse : raw = "false"
        · rw [if_pos hfalse] at h
          exact .inl ⟨false, (Option.some.inj h).symm⟩
        · rw [if_neg hfalse] at h
          exact .inr ⟨raw, (Option.some.inj h).symm, hraw, htrue, hfalse⟩
    all_goals
      cases h
      exact ⟨raw, rfl, hraw⟩

theorem valueOf?_ne_empty (pairs : List (String × String)) (name : String) :
    valueOf? pairs name ≠ some "" := by
  simp [valueOf?]

/-- A date range that is read is that of a declared field, and neither bound is an empty text. -/
theorem exists_field_of_readDateRange? {pairs : List (String × String)} {range : DateRange}
    (h : readDateRange? schema pairs = some range) :
    (∃ d ∈ schema.dateRangeFields, range.field = some d.key) ∧
      range.start ≠ some "" ∧ range.stop ≠ some "" := by
  obtain ⟨d, hd, hrow⟩ := List.exists_of_findSome?_eq_some h
  dsimp only at hrow
  split at hrow
  next =>
    cases hrow
    refine ⟨⟨d, hd, rfl⟩, ?_, ?_⟩ <;> simp [DateRange.ofTexts]
  next => cases hrow

theorem exists_restore_eq (schema : Schema) (query : String) :
    ∃ given, restore schema query = (readPairs schema given).applyTo (.initial schema) := by
  unfold restore read
  exact ⟨_, rfl⟩

/-- Links can say every state that a link stands for. -/
theorem restore_linkable (schema : Schema) (query : String) :
    (restore schema query).Linkable schema := by
  obtain ⟨given, hgiven⟩ := exists_restore_eq schema query
  rw [hgiven]
  constructor
  case filters =>
    intro entry hentry
    have hget := OrderedMap.get?_eq_some_iff.mpr hentry
    rw [Patch.applyTo, readPairs, get?_readFilters] at hget
    obtain ⟨f, hf, hread⟩ := List.exists_of_findSome?_eq_some hget
    split at hread
    next hkey =>
      obtain ⟨raw, hraw, hvalue⟩ := Option.bind_eq_some_iff.mp hread
      have hne : raw ≠ "" := by
        rintro rfl
        exact valueOf?_ne_empty _ _ hraw
      exact ⟨f, hf, hkey, carries_of_readValue? hne hvalue⟩
    next => cases hread
  case sort =>
    rw [Patch.applyTo, readPairs]
    cases hsort : valueOf? given sortName with
    | some sort =>
      left
      rintro rfl
      exact valueOf?_ne_empty _ _ hsort
    | none =>
      cases hdefault : schema.defaultSort? with
      | none => exact .inr (.inl rfl)
      | some sort =>
        by_cases hempty : sort = ""
        · exact .inr (.inr (congrArg some hempty))
        · left
          simpa [State.initial, hdefault] using hempty
  case dateRange =>
    intro range hrange
    have hread : readDateRange? schema given = some range :=
      (Patch.dateRange_applyTo hrange).resolve_right (by simp [State.initial, State.empty])
    obtain ⟨hfield, hstart, hstop⟩ := exists_field_of_readDateRange? hread
    exact ⟨hfield, (readDateRange?_eq_some hread).1, hstart, hstop⟩

/-- The keys at which fields read a value, in the order of the fields. -/
def givenKeys (schema : Schema) (pairs : List (String × String)) : List String :=
  schema.filterFields.flatMap fun f => (readableKeys schema f).filter fun key =>
    ((valueOf? pairs key).bind (readValue? f)).isSome

theorem keys_readFilters (schema : Schema) (pairs : List (String × String)) :
    (readFilters schema pairs).keys = (givenKeys schema pairs).foldl OrderedMap.addKey [] := by
  have hrow : ∀ f key, (((valueOf? pairs key).bind (readValue? f)).map
      fun value => (key, value)).map Prod.fst =
        Option.guard (fun key => ((valueOf? pairs key).bind (readValue? f)).isSome) key := by
    intro f key
    cases hvalue : (valueOf? pairs key).bind (readValue? f) <;> simp [Option.guard, hvalue]
  unfold readFilters givenKeys
  rw [OrderedMap.keys_foldl_insertNew, List.map_flatMap]
  simp only [List.map_filterMap, hrow, List.filterMap_eq_filter]
  rfl

/-- A link that is read and written again names the same filters in the same order. -/
theorem keys_readFilters_pairs (apart : schema.KeysApart) (query : String) :
    (readFilters schema (pairs (restore schema query))).keys =
      (restore schema query).filters.keys := by
  have linkable := restore_linkable schema query
  have hsame := OrderedMap.sameBy_iff.mp (readFilters_pairs_same apart linkable)
  obtain ⟨given, hgiven⟩ := exists_restore_eq schema query
  have hfilters : (restore schema query).filters = readFilters schema given := by
    rw [hgiven]
    rfl
  rw [hfilters] at hsame ⊢
  have hkeys : givenKeys schema (pairs (restore schema query)) = givenKeys schema given := by
    apply List.flatMap_congr
    intro f hf
    apply List.filter_congr
    intro key hk
    have hrel := hsame key
    rw [get?_readFilters_of_mem apart hf hk, get?_readFilters_of_mem apart hf hk] at hrel
    exact isSome_eq_of_rel hrel
  rw [keys_readFilters, keys_readFilters, hkeys]

theorem flatMap_filter {α β : Type} (xs : List α) (keep : α → Bool) (row : α → List β) :
    (xs.filter keep).flatMap row = xs.flatMap fun x => if keep x then row x else [] := by
  induction xs with
  | nil => rfl
  | cons x xs ih => cases hx : keep x <;> simp [hx, ih]

/-- The pairs of the filters of a state are what the link says at its keys. -/
theorem flatMap_pairOf_eq (s : State) :
    s.activeFilters.flatMap (fun (key, value) => pairOf key value.param) =
      s.filters.keys.flatMap fun key => (filterText? s key).toList.map fun text => (key, text) := by
  rw [State.activeFilters, OrderedMap.keys, List.flatMap_map, flatMap_filter]
  apply List.flatMap_congr
  rintro ⟨key, value⟩ hentry
  have hget := OrderedMap.get?_eq_some_iff.mpr hentry
  unfold filterText? pairOf
  rw [hget]
  cases hvalue : value.isEmpty with
  | true => simp [hvalue, Option.filter]
  | false =>
    by_cases hparam : value.param = ""
    · simp [hvalue, hparam, Option.filter]
    · simp [hvalue, hparam, Option.filter]

/-- States that are the same write the same link if their filters stand in the same order. -/
theorem write_eq_of_same (h : s.same t = true) (hkeys : s.filters.keys = t.filters.keys) :
    write s = write t := by
  obtain ⟨hsearch, -, hsort, -⟩ := State.same_iff.mp h
  have htext : filterText? s = filterText? t := funext (filterText?_of_same h)
  rw [write, write, pairs, pairs, flatMap_pairOf_eq, flatMap_pairOf_eq, hsearch, hsort, hkeys,
    htext, State.activeDateRange?_of_same h]

/-- A state that a link stands for is read back from the link that is written for it, and written
as the same link again, whatever the text of the first link was. -/
theorem restore_write_restore (apart : schema.KeysApart) (query : String) :
    (restore schema (write (restore schema query))).same (restore schema query) = true ∧
      write (restore schema (write (restore schema query))) = write (restore schema query) := by
  have linkable := restore_linkable schema query
  have hrestore := restore_write_eq apart linkable.addressed
  have hsame : (restore schema (write (restore schema query))).same (restore schema query) =
      true := by
    rw [hrestore, State.same_iff]
    exact ⟨rfl, OrderedMap.sameBy_iff.mp (readFilters_pairs_same apart linkable), rfl, rfl⟩
  refine ⟨hsame, write_eq_of_same hsame ?_⟩
  rw [hrestore]
  exact keys_readFilters_pairs apart query

/-- Museums that are listed by tags, price and opening. -/
def museumSchema : Schema where
  searchFields := []
  filterFields := [.ofKey "tags" .multiselect, .ofKey "price" .number, .ofKey "open" .boolean]
  sortOptions := [⟨"day:desc", "Newest"⟩]
  dateRangeFields := [⟨"day", none⟩]
  rangeSuffixes := .standard

/-- A query in no order, with a repeated name, an unknown one and an empty value. -/
def museumQuery : String :=
  "?price=1e2&open=yes&tags=a,,+b&price=7&room=1&day_to=&day_from=2024-05-01"

theorem restore_write_restore_museums : museumSchema.KeysApart ∧
    write (restore museumSchema museumQuery) =
      "sort=day%3Adesc&tags=a%2Cb&price=100&open=yes&day_from=2024-05-01" ∧
    write (restore museumSchema (write (restore museumSchema museumQuery))) =
      write (restore museumSchema museumQuery) := by
  have apart : museumSchema.KeysApart := by
    refine ⟨?_, by decide, by decide, by decide⟩
    simp only [List.disjoint_left]
    decide
  obtain ⟨-, hwrite⟩ := restore_write_restore apart museumQuery
  exact ⟨apart, by decide +kernel, hwrite⟩

end Link

end Listing
