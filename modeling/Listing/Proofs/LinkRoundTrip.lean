import Listing.Proofs.NumberText
import Listing.Proofs.SameStates

namespace Listing

/-- The keys that a link gives to filters are given to one field each, and to nothing else. -/
structure Schema.KeysApart (schema : Schema) : Prop where
  fields : schema.filterFields.Pairwise fun f g =>
    List.Disjoint (Link.readableKeys schema f) (Link.readableKeys schema g)
  named : ∀ f ∈ schema.filterFields, ∀ key ∈ Link.readableKeys schema f,
    key ≠ Link.searchName ∧ key ≠ Link.sortName
  dated : ∀ f ∈ schema.filterFields, ∀ key ∈ Link.readableKeys schema f,
    ∀ d ∈ schema.dateRangeFields, key ≠ Link.startName d.key ∧ key ≠ Link.stopName d.key
  dateKeys : ∀ d ∈ schema.dateRangeFields, d.key ≠ ""

/-- Whether a value is of the kind that links give to a field. -/
def Field.Carries (f : Field) (value : FilterValue) : Prop :=
  if f.type = .multiselect ∨ f.operator = .isIn then
    ∃ items, value = .list items ∧ items ≠ [] ∧
      ∀ item ∈ items, item ≠ "" ∧ Text.trim item = item ∧ ',' ∉ item.toList
  else
    match f.type with
    | .number =>
      if f.operator.isRanged then ∃ s, value = .text s ∧ s ≠ ""
      else ∃ n, value = .number n ∧ n.isNaN = false
    | .boolean =>
      (∃ b, value = .bool b) ∨ ∃ s, value = .text s ∧ s ≠ "" ∧ s ≠ "true" ∧ s ≠ "false"
    | _ => ∃ s, value = .text s ∧ s ≠ ""

/-- Whether a link can say everything that a state says. -/
structure State.Linkable (schema : Schema) (s : State) : Prop where
  filters : ∀ entry ∈ s.filters.entries, ∃ f ∈ schema.filterFields,
    entry.1 ∈ Link.readableKeys schema f ∧ f.Carries entry.2
  sort : s.sort ≠ "" ∨ schema.defaultSort? = none ∨ schema.defaultSort? = some ""
  dateRange : ∀ range, s.dateRange = some range →
    (∃ d ∈ schema.dateRangeFields, range.field = some d.key) ∧ range.hasBounds = true ∧
      range.start ≠ some "" ∧ range.stop ≠ some ""

namespace Link

theorem getLast?_startName (field : String) : (startName field).toList.getLast? = some 'm' := by
  simp [startName]

theorem getLast?_stopName (field : String) : (stopName field).toList.getLast? = some 'o' := by
  simp [stopName]

theorem ne_of_getLast? {a b : String} {c d : Char} (ha : a.toList.getLast? = some c)
    (hb : b.toList.getLast? = some d) (hcd : c ≠ d) : a ≠ b := by
  rintro rfl
  exact hcd (Option.some.inj (ha.symm.trans hb))

theorem startName_ne_stopName (a b : String) : startName a ≠ stopName b :=
  ne_of_getLast? (getLast?_startName a) (getLast?_stopName b) (by decide)

theorem startName_inj {a b : String} : startName a = startName b ↔ a = b := by
  simp [startName]

theorem stopName_inj {a b : String} : stopName a = stopName b ↔ a = b := by
  simp [stopName]

/-- The names of a date range are none of the fixed names. -/
theorem dateName_ne (field : String) :
    (startName field ≠ searchName ∧ startName field ≠ sortName) ∧
      stopName field ≠ searchName ∧ stopName field ≠ sortName := by
  have hsearch : searchName.toList.getLast? = some 'h' := by decide
  have hsort : sortName.toList.getLast? = some 't' := by decide
  have hstart := getLast?_startName field
  have hstop := getLast?_stopName field
  exact ⟨⟨ne_of_getLast? hstart hsearch (by decide), ne_of_getLast? hstart hsort (by decide)⟩,
    ne_of_getLast? hstop hsearch (by decide), ne_of_getLast? hstop hsort (by decide)⟩

theorem filter_items {items : List String} (h : ∀ item ∈ items, item ≠ "" ∧ Text.trim item = item) :
    (items.map Text.trim).filter (· ≠ "") = items := by
  have hmap : items.map Text.trim = items :=
    (List.map_congr_left fun item hi => (h item hi).2).trans (List.map_id items)
  rw [hmap, List.filter_eq_self]
  exact fun item hi => by simpa using (h item hi).1

end Link

theorem Double.display_ne_empty {d : Double} (h : d.isNaN = false) : d.display ≠ "" := by
  intro he
  obtain ⟨e, hparse, -⟩ := exists_parse?_display h
  rw [he] at hparse
  have hnone : parse? (Text.trim "") = none := by decide
  rw [hnone] at hparse
  cases hparse

/-- A value of the kind of a field is read back from its text. -/
theorem Field.Carries.read_param {f : Field} {value : FilterValue} (h : f.Carries value) :
    value.isEmpty = false ∧ value.param ≠ "" ∧
      ∃ v, Link.readValue? f value.param = some v ∧ v.same value = true := by
  unfold Carries at h
  split at h
  next hlist =>
    obtain ⟨items, rfl, hne, hitems⟩ := h
    have hsplit : Text.split ',' (Text.join ',' items) = items :=
      Text.split_join hne fun item hi => (hitems item hi).2.2
    have hread : Link.readValue? f (Text.join ',' items) = some (.list items) := by
      rw [Link.readValue?, if_pos hlist, hsplit,
        Link.filter_items fun item hi => ⟨(hitems item hi).1, (hitems item hi).2.1⟩]
      simp [hne]
    refine ⟨by simpa [FilterValue.isEmpty] using hne, ?_, _, hread, by simp [FilterValue.same]⟩
    intro hempty
    have hparam : Text.join ',' items = "" := hempty
    have hblank : "" ∈ items := by
      rw [← hsplit, hparam]
      decide
    exact (hitems "" hblank).1 rfl
  next hlist =>
    unfold Link.readValue?
    rw [if_neg hlist]
    have htext : ∀ s : String, s ≠ "" → (FilterValue.text s).isEmpty = false ∧
        (FilterValue.text s).param ≠ "" ∧ (FilterValue.text s).same (.text s) = true := by
      intro s hs
      exact ⟨by simpa [FilterValue.isEmpty] using hs, hs, by simp [FilterValue.same]⟩
    cases htype : f.type <;> rw [htype] at h <;> dsimp only at h ⊢
    case number =>
      split at h
      next hranged =>
        obtain ⟨s, rfl, hs⟩ := h
        obtain ⟨he, hp, hsame⟩ := htext s hs
        exact ⟨he, hp, _, by simp [hranged, FilterValue.param], hsame⟩
      next hranged =>
        obtain ⟨n, rfl, hn⟩ := h
        obtain ⟨e, hparse, hnan, hsame⟩ := Double.exists_parse?_display hn
        refine ⟨hn, Double.display_ne_empty hn, .number e, ?_, hsame⟩
        simp [hranged, FilterValue.param, hparse, hnan, Option.filter]
    case boolean =>
      rcases h with ⟨b, rfl⟩ | ⟨s, rfl, hs, htrue, hfalse⟩
      · cases b <;> exact ⟨rfl, by decide, _, rfl, by decide⟩
      · obtain ⟨he, hp, hsame⟩ := htext s hs
        exact ⟨he, hp, _, by simp [FilterValue.param, htrue, hfalse], hsame⟩
    all_goals
      obtain ⟨s, rfl, hs⟩ := h
      obtain ⟨he, hp, hsame⟩ := htext s hs
      exact ⟨he, hp, _, rfl, hsame⟩

theorem Schema.KeysApart.eq_of_mem {schema : Schema} (apart : schema.KeysApart) {f g : Field}
    {key : String} (hf : f ∈ schema.filterFields) (hg : g ∈ schema.filterFields)
    (hkf : key ∈ Link.readableKeys schema f) (hkg : key ∈ Link.readableKeys schema g) : g = f := by
  by_contra hne
  have hsymm : Std.Symm fun f g : Field =>
      List.Disjoint (Link.readableKeys schema f) (Link.readableKeys schema g) :=
    ⟨fun _ _ h => h.symm⟩
  exact apart.fields.forall hf hg (Ne.symm hne) hkf hkg

namespace State.Linkable

variable {schema : Schema} {s : State}

theorem exists_field (h : s.Linkable schema) {key : String} {value : FilterValue}
    (hget : s.filters.get? key = some value) :
    ∃ f ∈ schema.filterFields, key ∈ Link.readableKeys schema f ∧ f.Carries value :=
  h.filters (key, value) (OrderedMap.get?_eq_some_iff.mp hget)

theorem filterText?_eq (h : s.Linkable schema) (key : String) :
    Link.filterText? s key = (s.filters.get? key).map FilterValue.param := by
  unfold Link.filterText?
  cases hget : s.filters.get? key with
  | none => rfl
  | some value =>
    obtain ⟨f, -, -, hcarries⟩ := h.exists_field hget
    obtain ⟨hempty, hparam, -⟩ := hcarries.read_param
    simp [Option.filter, hempty, hparam]

/-- A name that no field can read is not the key of a filter. -/
theorem filterText?_eq_none (h : s.Linkable schema) {key : String}
    (hkey : ∀ f ∈ schema.filterFields, key ∉ Link.readableKeys schema f) :
    Link.filterText? s key = none := by
  rw [h.filterText?_eq]
  cases hget : s.filters.get? key with
  | none => rfl
  | some value =>
    obtain ⟨f, hf, hread, -⟩ := h.exists_field hget
    exact absurd hread (hkey f hf)

theorem activeDateRange?_eq (apart : schema.KeysApart) (h : s.Linkable schema) {range : DateRange}
    (hrange : s.dateRange = some range) :
    ∃ d ∈ schema.dateRangeFields, s.activeDateRange? = some (d.key, range) ∧
      range = ⟨some d.key, range.lower?, range.upper?⟩ := by
  obtain ⟨⟨d, hd, hfield⟩, hbounds, hstart, hstop⟩ := h.dateRange range hrange
  have hactive : range.activeField? = some d.key := by
    simp [DateRange.activeField?, hfield, apart.dateKeys d hd, hbounds]
  have hbound : ∀ bound : Option String, bound ≠ some "" → bound.filter (· ≠ "") = bound := by
    intro bound hne
    cases bound with
    | none => rfl
    | some text => simpa using hne
  refine ⟨d, hd, by simp [activeDateRange?, hrange, hactive], ?_⟩
  rw [DateRange.lower?, DateRange.upper?, hbound _ hstart, hbound _ hstop, ← hfield]

end State.Linkable

namespace Link

variable {schema : Schema} {s : State}

theorem findSome?_of_agree {α β : Type} {xs : List α} {p : α → Option β} {q : α → Prop} {x : α}
    {y : β} (hx : x ∈ xs) (hq : q x) (hyes : ∀ z ∈ xs, q z → p z = some y)
    (hno : ∀ z ∈ xs, ¬q z → p z = none) : xs.findSome? p = some y := by
  have hsome : (xs.findSome? p).isSome := by
    rw [List.findSome?_isSome_iff]
    exact ⟨x, hx, by simp [hyes x hx hq]⟩
  obtain ⟨v, hv⟩ := Option.isSome_iff_exists.mp hsome
  obtain ⟨z, hz, hpz⟩ := List.exists_of_findSome?_eq_some hv
  by_cases hqz : q z
  · rw [hv, ← hpz, hyes z hz hqz]
  · rw [hno z hz hqz] at hpz
    cases hpz

theorem valueOf?_pairs_dateName (apart : schema.KeysApart) (h : s.Linkable schema)
    {d : DateRangeField} (hd : d ∈ schema.dateRangeFields) :
    valueOf? (pairs s) (startName d.key) = dateText? s (startName d.key) ∧
      valueOf? (pairs s) (stopName d.key) = dateText? s (stopName d.key) := by
  obtain ⟨⟨hsearch, hsort⟩, hsearch', hsort'⟩ := dateName_ne d.key
  have hstart : filterText? s (startName d.key) = none :=
    h.filterText?_eq_none fun f hf hk => (apart.dated f hf _ hk d hd).1 rfl
  have hstop : filterText? s (stopName d.key) = none :=
    h.filterText?_eq_none fun f hf hk => (apart.dated f hf _ hk d hd).2 rfl
  constructor
  · simp [valueOf?_pairs, hsearch, hsort, hstart]
  · simp [valueOf?_pairs, hsearch', hsort', hstop]

/-- The date range of a state is found at the field it names, and at no other. -/
theorem readDateRange?_pairs (apart : schema.KeysApart) (h : s.Linkable schema) :
    readDateRange? schema (pairs s) = s.dateRange := by
  unfold readDateRange?
  cases hrange : s.dateRange with
  | none =>
    rw [List.findSome?_eq_none_iff]
    intro d hd
    obtain ⟨hstart, hstop⟩ := valueOf?_pairs_dateName apart h hd
    have hnone : ∀ key, dateText? s key = none := by
      simp [dateText?, State.activeDateRange?, hrange]
    simp [hstart, hstop, hnone]
  | some range =>
    obtain ⟨d, hd, hactive, hparts⟩ := h.activeDateRange?_eq apart hrange
    have hbounds : range.hasBounds = true := (h.dateRange range hrange).2.1
    have htexts : ∀ g : DateRangeField, g.key = d.key →
        DateRange.ofTexts g.key range.lower? range.upper? = range := by
      intro g hg
      rw [hg]
      conv => rhs; rw [hparts]
      simp [DateRange.ofTexts, DateRange.lower?, DateRange.upper?, Option.filter_filter]
    have hlower : ∀ g ∈ schema.dateRangeFields, valueOf? (pairs s) (startName g.key) =
        if g.key = d.key then range.lower? else none := by
      intro g hg
      rw [(valueOf?_pairs_dateName apart h hg).1]
      simp [dateText?, hactive, startName_inj, startName_ne_stopName]
    have hupper : ∀ g ∈ schema.dateRangeFields, valueOf? (pairs s) (stopName g.key) =
        if g.key = d.key then range.upper? else none := by
      intro g hg
      rw [(valueOf?_pairs_dateName apart h hg).2]
      simp [dateText?, hactive, stopName_inj, (startName_ne_stopName _ _).symm]
    refine findSome?_of_agree (q := fun g => g.key = d.key) hd rfl ?_ ?_
    · intro g hg hkey
      dsimp only
      rw [hlower g hg, hupper g hg, if_pos hkey, if_pos hkey, htexts g hkey]
      exact if_pos hbounds
    · intro g hg hkey
      simp [hlower g hg, hupper g hg, hkey]

/-- The text of a link at a key that a field can read is the text of the filter. -/
theorem valueOf?_pairs_readable (apart : schema.KeysApart) (h : s.Linkable schema) {f : Field}
    (hf : f ∈ schema.filterFields) {key : String} (hk : key ∈ readableKeys schema f) :
    valueOf? (pairs s) key = filterText? s key := by
  have hdate : dateText? s key = none := by
    cases hrange : s.dateRange with
    | none => simp [dateText?, State.activeDateRange?, hrange]
    | some range =>
      obtain ⟨d, hd, hactive, -⟩ := h.activeDateRange?_eq apart hrange
      obtain ⟨hstart, hstop⟩ := apart.dated f hf key hk d hd
      simp [dateText?, hactive, hstart, hstop]
  obtain ⟨hsearch, hsort⟩ := apart.named f hf key hk
  simp [valueOf?_pairs, hsearch, hsort, hdate]

/-- The search text and the sort order have names that nothing else in a link has. -/
theorem valueOf?_pairs_named (apart : schema.KeysApart) (h : s.Linkable schema) :
    valueOf? (pairs s) searchName = (some s.search).filter (· ≠ "") ∧
      valueOf? (pairs s) sortName = (some s.sort).filter (· ≠ "") := by
  have hfilter : ∀ name, name = searchName ∨ name = sortName → filterText? s name = none := by
    intro name hname
    refine h.filterText?_eq_none fun f hf hk => ?_
    obtain ⟨hsearch, hsort⟩ := apart.named f hf name hk
    exact hname.elim hsearch hsort
  have hdate : dateText? s searchName = none ∧ dateText? s sortName = none := by
    unfold dateText?
    cases s.activeDateRange? with
    | none => exact ⟨rfl, rfl⟩
    | some active =>
      obtain ⟨⟨hstart, hstart'⟩, hstop, hstop'⟩ := dateName_ne active.1
      constructor
      · simp [hstart.symm, hstop.symm]
      · simp [hstart'.symm, hstop'.symm]
  have hne : searchName ≠ sortName := by decide
  constructor
  · simp [valueOf?_pairs, hne, hfilter, hdate]
  · simp [valueOf?_pairs, hne.symm, hfilter, hdate]

/-- The filters of a state are read back with the values that they had. -/
theorem readFilters_pairs_same (apart : schema.KeysApart) (h : s.Linkable schema) :
    (readFilters schema (pairs s)).sameBy FilterValue.same s.filters = true := by
  rw [OrderedMap.sameBy_iff]
  intro key
  rw [get?_readFilters]
  cases hget : s.filters.get? key with
  | none =>
    have hnone : filterText? s key = none := by simp [filterText?, hget]
    rw [List.findSome?_eq_none_iff.mpr]
    · exact .none
    · intro f hf
      split
      next hk => rw [valueOf?_pairs_readable apart h hf hk, hnone, Option.bind_none]
      next => rfl
  | some value =>
    obtain ⟨f, hf, hk, hcarries⟩ := h.exists_field hget
    obtain ⟨-, -, v, hread, hsame⟩ := hcarries.read_param
    rw [findSome?_of_agree (q := fun g => key ∈ readableKeys schema g) (y := v) hf hk]
    · exact .some hsame
    · intro g hg hkg
      obtain rfl := apart.eq_of_mem hf hg hk hkg
      rw [if_pos hkg, valueOf?_pairs_readable apart h hg hk, h.filterText?_eq, hget]
      exact hread
    · intro g hg hkg
      exact if_neg hkg

/-- A state that links can say is read back from the link that is written for it. -/
theorem restore_write_same (apart : schema.KeysApart) (h : s.Linkable schema) :
    (restore schema (write s)).same s = true := by
  obtain ⟨hsearch, hsort⟩ := valueOf?_pairs_named apart h
  have hsearch' : (valueOf? (pairs s) searchName).getD "" = s.search := by
    rw [hsearch]
    by_cases hs : s.search = ""
    · simp [hs, Option.filter]
    · simp [hs, Option.filter]
  have hsort' : (valueOf? (pairs s) sortName).getD (schema.defaultSort?.getD "") = s.sort := by
    rw [hsort]
    by_cases hs : s.sort = ""
    · rcases h.sort with hne | hdefault | hdefault
      · exact absurd hs hne
      · simp [hs, hdefault, Option.filter]
      · simp [hs, hdefault, Option.filter]
    · simp [hs, Option.filter]
  rw [restore, read_write]
  simp [State.same, Patch.applyTo, readPairs, State.initial, State.empty, hsearch', hsort',
    readFilters_pairs_same apart h, readDateRange?_pairs apart h]

/-- Orders that are listed by status, price and day. -/
def orderSchema : Schema where
  searchFields := [.ofKey "customer" .string]
  filterFields := [.ofKey "status" .multiselect, .ofKey "price" .number, .ofKey "open" .boolean]
  sortOptions := [⟨"day:desc", "Newest"⟩]
  dateRangeFields := [⟨"day", none⟩]
  rangeSuffixes := .standard

def orderState : State where
  search := "ann & co"
  filters := .ofList [("price_max", .number (.zero true)), ("status", .list ["new", "paid"]),
    ("open", .bool true)]
  sort := "price:asc"
  dateRange := some ⟨some "day", some "2024-05-01", none⟩

theorem restore_write_orderState : orderSchema.KeysApart ∧ orderState.Linkable orderSchema ∧
    (restore orderSchema (write orderState)).same orderState = true := by
  have apart : orderSchema.KeysApart := by
    refine ⟨?_, by decide, by decide, by decide⟩
    simp only [List.disjoint_left]
    decide
  have linkable : orderState.Linkable orderSchema := by
    refine ⟨?_, .inl (by decide), ?_⟩
    · have hentries : orderState.filters.entries = [("price_max", .number (.zero true)),
        ("status", .list ["new", "paid"]), ("open", .bool true)] := by decide
      rw [hentries]
      simp only [List.forall_mem_cons]
      refine ⟨⟨.ofKey "price" .number, by decide, by decide, ?_⟩,
        ⟨.ofKey "status" .multiselect, by decide, by decide, ?_⟩,
        ⟨.ofKey "open" .boolean, by decide, by decide, ?_⟩, by simp⟩
      · exact ⟨.zero true, rfl, rfl⟩
      · exact ⟨["new", "paid"], rfl, by decide, by decide⟩
      · exact .inl ⟨true, rfl⟩
    · rintro range ⟨⟩
      exact ⟨⟨⟨"day", none⟩, by decide, rfl⟩, by decide, by decide, by decide⟩
  exact ⟨apart, linkable, restore_write_same apart linkable⟩

end Link

end Listing
