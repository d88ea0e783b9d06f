import Listing.Proofs.LinkRestore
import Listing.Proofs.RangeKeys
import Listing.Schema.Validation

namespace Listing

/-- A text that can stand between the commas of a list in a link. -/
def Link.IsItem (text : String) : Prop := text ≠ "" ∧ Text.trim text = text ∧ ',' ∉ text.toList

/-- Whether a value is of the type of a field, whatever the operator but for ranges of numbers. -/
def Field.Holds (f : Field) (value : FilterValue) : Prop :=
  match f.type with
  | .number =>
    if f.operator.isRanged then ∃ text, value = .text text ∧ text ≠ ""
    else ∃ n, value = .number n ∧ n.isNaN = false
  | .boolean => ∃ b, value = .bool b
  | .multiselect =>
    ∃ items, value = .list items ∧ items ≠ [] ∧ ∀ item ∈ items, Link.IsItem item
  | _ => ∃ text, value = .text text ∧ Link.IsItem text

/-- Whether a value is a bound for the type of a field. -/
def Field.HoldsBound (f : Field) (value : FilterValue) : Prop :=
  if f.type = .number then ∃ n, value = .number n
  else ∃ text, value = .text text ∧ Link.IsItem text

/-- The filters that a field takes at its key and at the keys of its bounds. Where an empty suffix
makes them one, the key has to name a bound to take one. -/
inductive Field.Takes (schema : Schema) (f : Field) : String → FilterValue → Prop where
  | key (value : FilterValue) (holds : f.Holds value) : Takes schema f f.key value
  | bound (bound : RangeBound) (value : FilterValue) (holds : f.HoldsBound value)
      (names : schema.rangeSuffixes.keyFor f.key bound = f.key →
        (schema.pairedKey? f.key).isSome) :
      Takes schema f (schema.rangeSuffixes.keyFor f.key bound) value

/-- A state with a sort order, whose filters are typed by the fields of a schema. -/
structure State.Typed (schema : Schema) (s : State) : Prop where
  filters : ∀ entry ∈ s.filters.entries, ∃ f ∈ schema.filterFields,
    f.Takes schema entry.1 entry.2
  sort : s.sort ≠ ""
  dateRange : ∀ range, s.dateRange = some range →
    (∃ d ∈ schema.dateRangeFields, range.field = some d.key) ∧ range.hasBounds = true ∧
      range.start ≠ some "" ∧ range.stop ≠ some ""

/-- Whether a field that links give lists tests the list as it tests the value. A list holds no
number and no truth value, and names no instant to be before or after. -/
def Test.TakesList (f : Field) (t : Test) : Prop :=
  match f.type with
  | .number => False
  | .boolean => t.operator ≠ .isIn
  | .date | .datetime => t.operator = .isIn ∨ t.value.instant? = none
  | _ => True

/-- Whether every filter on a field that links give lists for its operator is tested as the list
would be. -/
def State.TakesLists (schema : Schema) (s : State) : Prop :=
  ∀ entry ∈ s.activeFilters, ∀ f ∈ schema.filterFields, f.operator = .isIn →
    entry.1 ∈ Link.readableKeys schema f →
      ∀ t, schema.test? entry.1 entry.2 = some t → t.TakesList f

namespace Link

variable {schema : Schema}

theorem key_mem_readableKeys (schema : Schema) (f : Field) : f.key ∈ readableKeys schema f :=
  List.mem_cons_self

theorem keyFor_mem_readableKeys (schema : Schema) (f : Field) (bound : RangeBound) :
    schema.rangeSuffixes.keyFor f.key bound ∈ readableKeys schema f := by
  cases bound <;> simp [readableKeys]

theorem mem_readableKeys_of_takes {f : Field} {key : String} {value : FilterValue}
    (h : f.Takes schema key value) : key ∈ readableKeys schema f := by
  cases h with
  | key => exact key_mem_readableKeys schema f
  | bound bound => exact keyFor_mem_readableKeys schema f bound

end Link

namespace Schema

variable {schema : Schema}

/-- A field whose key is readable for another field is that field. -/
theorem KeysApart.eq_of_field? (apart : schema.KeysApart) {f g : Field}
    (hf : f ∈ schema.filterFields) {name key : String} (hg : schema.field? name = some g)
    (hkey : key ∈ Link.readableKeys schema f)
    (hread : ∀ g : Field, g.key = name → key ∈ Link.readableKeys schema g) : g = f := by
  obtain ⟨hmem, hname⟩ := mem_of_field? hg
  exact apart.eq_of_mem hf hmem hkey (hread g hname)

theorem pairedKey?_type (apart : schema.KeysApart) {f : Field} (hf : f ∈ schema.filterFields)
    {key : String} (hkey : key ∈ Link.readableKeys schema f) {pair : PairedKey}
    (h : schema.pairedKey? key = some pair) : pair.type = f.type := by
  unfold pairedKey? at h
  obtain ⟨⟨base, bound⟩, hsplit, h⟩ := Option.bind_eq_some_iff.mp h
  obtain ⟨g, hg, hpair⟩ := Option.bind_eq_some_iff.mp h
  cases hpair
  have hbase : ∀ g : Field, g.key = base → key ∈ Link.readableKeys schema g := by
    rintro g rfl
    rw [← RangeSuffixes.keyFor_of_split? hsplit]
    exact Link.keyFor_mem_readableKeys schema g bound
  have hown : ∀ g : Field, g.key = key → key ∈ Link.readableKeys schema g := by
    rintro g rfl
    exact Link.key_mem_readableKeys schema g
  cases hfield : schema.field? base with
  | some g' =>
    rw [hfield] at hg
    cases hg
    rw [apart.eq_of_field? hf hfield hkey hbase]
  | none =>
    rw [hfield] at hg
    rw [apart.eq_of_field? hf hg hkey hown]

/-- A readable key tests by the type of its field: as a bound, or by the operator of the field. -/
theorem test?_readable (apart : schema.KeysApart) {f : Field} (hf : f ∈ schema.filterFields)
    {key : String} (hkey : key ∈ Link.readableKeys schema f) {value : FilterValue} {t : Test}
    (h : schema.test? key value = some t) :
    (∀ v, schema.test? key v = some { t with value := v }) ∧ t.value = value ∧ t.type = f.type ∧
      ((t.operator = .gte ∨ t.operator = .lte) ∨
        schema.pairedKey? key = none ∧ key = f.key ∧ t.operator = f.operator) := by
  unfold test? at h ⊢
  cases hpair : schema.pairedKey? key with
  | some pair =>
    simp only [hpair, Option.some.injEq] at h
    subst h
    refine ⟨fun v => rfl, rfl, pairedKey?_type apart hf hkey hpair, .inl ?_⟩
    cases pair.bound with
    | min => exact .inl rfl
    | max => exact .inr rfl
  | none =>
    simp only [hpair] at h
    obtain ⟨g, hg, rfl⟩ := Option.map_eq_some_iff.mp h
    have hown : ∀ g : Field, g.key = key → key ∈ Link.readableKeys schema g := by
      rintro g rfl
      exact Link.key_mem_readableKeys schema g
    obtain rfl := apart.eq_of_field? hf hg hkey hown
    exact ⟨fun v => by rw [hg]; rfl, rfl, rfl, .inr ⟨rfl, (mem_of_field? hg).2.symm, rfl⟩⟩

end Schema

/-- Bounds that compare alike are tested alike. -/
theorem Operator.accepts_of_compareItem? {op : Operator} (hop : op = .gte ∨ op = .lte)
    {type : FieldType} {u v : FilterValue} {item : Json}
    (h : compareItem? type item u = compareItem? type item v) :
    op.accepts type u item = op.accepts type v item := by
  rcases hop with rfl | rfl
  · simp only [accepts, h]
  · simp only [accepts, h]

theorem compareItem?_of_param {type : FieldType} {u v : FilterValue} (hparam : u.param = v.param)
    (hnumber : type ≠ .number)
    (hinstant : type = .date ∨ type = .datetime → u.instant? = v.instant?) (item : Json) :
    compareItem? type item u = compareItem? type item v := by
  cases type with
  | number => exact absurd rfl hnumber
  | date => simp only [compareItem?, hinstant (.inl rfl)]
  | datetime => simp only [compareItem?, hinstant (.inr rfl)]
  | string | boolean | select | multiselect => simp only [compareItem?, hparam]

theorem compareItem?_display {n : Double} (hn : n.isNaN = false) (item : Json) :
    compareItem? .number item (.text n.display) = compareItem? .number item (.number n) := by
  obtain ⟨e, hparse, hnan, hsame⟩ := Double.exists_parse?_display hn
  have hnumber : (FilterValue.text n.display).number? = (FilterValue.number e).number? := by
    simp [FilterValue.number?, hparse, hnan, Option.filter]
  rw [← compareItem?_congr (v := .number e) (w := .number n) hsame]
  simp only [compareItem?, hnumber]

/-- A text is among the items of a list of it alone exactly when it equals it. -/
theorem Operator.accepts_singleton (type : FieldType) (text : String) (item : Json) :
    isIn.accepts type (.list [text]) item = isIn.accepts type (.text text) item := by
  cases item <;> simp [accepts, strictlyEqual, Json.text?]

theorem Text.join_singleton (sep : Char) (text : String) : join sep [text] = text := by
  simp [join, joined]

/-- The list of one item is tested as the item is. -/
theorem Test.TakesList.accepts_singleton {f : Field} {t : Test} (takes : t.TakesList f)
    (htype : t.type = f.type)
    (hop : (t.operator = .gte ∨ t.operator = .lte) ∨ t.operator = .isIn)
    (hvalue : t.value = .text t.value.param ∨ f.type = .boolean) (item : Json) :
    t.operator.accepts t.type (.list [t.value.param]) item =
      t.operator.accepts t.type t.value item := by
  unfold TakesList at takes
  rw [htype]
  rcases hop with hop | hop
  · have hparam : (FilterValue.list [t.value.param]).param = t.value.param :=
      Text.join_singleton ',' _
    refine Operator.accepts_of_compareItem? hop (compareItem?_of_param hparam ?_ ?_ item)
    · intro hnumber
      simp only [hnumber] at takes
    · intro hdate
      have hnot : t.operator ≠ .isIn := by
        rcases hop with hop | hop
        · simp [hop]
        · simp [hop]
      have hnone : t.value.instant? = none := by
        rcases hdate with hdate | hdate
        · simp only [hdate] at takes
          exact takes.resolve_left hnot
        · simp only [hdate] at takes
          exact takes.resolve_left hnot
      exact hnone.symm
  · have htext : t.value = .text t.value.param := by
      refine hvalue.resolve_right fun hboolean => ?_
      simp only [hboolean] at takes
      exact takes hop
    conv => rhs; rw [htext]
    rw [hop, Operator.accepts_singleton]

theorem Field.carries_singleton {f : Field} (hlist : f.type = .multiselect ∨ f.operator = .isIn)
    {text : String} (h : Link.IsItem text) : f.Carries (.list [text]) := by
  rw [Carries, if_pos hlist]
  refine ⟨[text], rfl, by simp, ?_⟩
  intro item hitem
  obtain rfl := List.mem_singleton.mp hitem
  exact h

/-- Whether a value that links give to the field has the text of a filter and is tested as it. -/
def Field.Says (f : Field) (t : Test) (u : FilterValue) : Prop :=
  f.Carries u ∧ u.param = t.value.param ∧
    ∀ item, t.operator.accepts t.type u item = t.operator.accepts t.type t.value item

/-- A value of the type of a field can be said in a link that gives the field no list. -/
theorem Field.Holds.carries {f : Field} {value : FilterValue} (h : f.Holds value)
    (hin : f.operator ≠ .isIn) : f.Carries value := by
  unfold Holds at h
  unfold Carries
  cases htype : f.type <;> simp only [htype] at h
  case multiselect =>
    rw [if_pos (.inl rfl)]
    exact h
  all_goals rw [if_neg (by simpa using hin)]
  case number => exact h
  case boolean => exact .inl h
  all_goals
    obtain ⟨text, rfl, hne, -⟩ := h
    exact ⟨text, rfl, hne⟩

theorem Field.Holds.exists_says {f : Field} {t : Test} (h : f.Holds t.value)
    (htype : t.type = f.type)
    (hop : (t.operator = .gte ∨ t.operator = .lte) ∨ t.operator = f.operator)
    (takes : f.operator = .isIn → t.TakesList f) : ∃ u, f.Says t u := by
  by_cases hin : f.operator = .isIn
  · have hsay : Link.IsItem t.value.param →
        t.value = .text t.value.param ∨ f.type = .boolean → ∃ u, f.Says t u := by
      intro hitem hvalue
      exact ⟨.list [t.value.param], carries_singleton (.inr hin) hitem, Text.join_singleton ',' _,
        (takes hin).accepts_singleton htype (hin ▸ hop) hvalue⟩
    unfold Holds at h
    cases hf : f.type <;> simp only [hf] at h
    case number =>
      have hfalse := takes hin
      simp only [Test.TakesList, hf] at hfalse
    case multiselect =>
      refine ⟨t.value, ?_, rfl, fun _ => rfl⟩
      rw [Carries, if_pos (.inr hin)]
      exact h
    case boolean =>
      obtain ⟨b, hb⟩ := h
      refine hsay ?_ (.inr hf)
      rw [hb]
      unfold Link.IsItem
      cases b <;> decide
    all_goals
      obtain ⟨text, htext, hitem⟩ := h
      refine hsay ?_ (.inl ?_)
      · rw [htext]
        exact hitem
      · rw [htext]
        rfl
  · exact ⟨t.value, h.carries hin, rfl, fun _ => rfl⟩

theorem Field.exists_says_number {f : Field} {t : Test} {n : Double} (hnumber : f.type = .number)
    (hvalue : t.value = .number n) (hn : n.isNaN = false) (htype : t.type = f.type)
    (hop : t.operator = .gte ∨ t.operator = .lte) (hin : f.operator ≠ .isIn) :
    ∃ u, f.Says t u := by
  by_cases hranged : f.operator.isRanged
  · have holds : f.Holds (.text n.display) := by
      rw [Holds, hnumber]
      simp [hranged, Double.display_ne_empty hn]
    refine ⟨.text n.display, holds.carries hin, by rw [hvalue]; rfl, fun item => ?_⟩
    rw [hvalue, htype, hnumber]
    exact Operator.accepts_of_compareItem? hop (compareItem?_display hn item)
  · have holds : f.Holds t.value := by
      rw [Holds, hnumber]
      simp [hranged, hvalue, hn]
    exact ⟨t.value, holds.carries hin, rfl, fun _ => rfl⟩

/-- The two texts that stand for truth values are read back as these, and compare as before. -/
theorem Field.exists_says_boolean {f : Field} {t : Test} {text : String} (hf : f.type = .boolean)
    (hvalue : t.value = .text text) (hne : text ≠ "") (htype : t.type = f.type)
    (hop : t.operator = .gte ∨ t.operator = .lte) (hin : f.operator ≠ .isIn) :
    ∃ u, f.Says t u := by
  have hbool : ∀ b, t.value.param = (FilterValue.bool b).param → ∃ u, f.Says t u := by
    intro b hparam
    have holds : f.Holds (.bool b) := by simp [Holds, hf]
    refine ⟨.bool b, holds.carries hin, hparam.symm, fun item => ?_⟩
    have hdate : ¬(FieldType.boolean = .date ∨ FieldType.boolean = .datetime) := by decide
    rw [htype, hf]
    exact Operator.accepts_of_compareItem? hop
      (compareItem?_of_param hparam.symm (by decide) (fun h => absurd h hdate) item)
  by_cases htrue : text = "true"
  · exact hbool true (by rw [hvalue, htrue]; rfl)
  · by_cases hfalse : text = "false"
    · exact hbool false (by rw [hvalue, hfalse]; rfl)
    · refine ⟨t.value, ?_, rfl, fun _ => rfl⟩
      rw [Carries, if_neg (by simp [hf, hin]), hf, hvalue]
      exact .inr ⟨text, rfl, hne, htrue, hfalse⟩

theorem Field.HoldsBound.exists_says {f : Field} {t : Test} (h : f.HoldsBound t.value)
    (active : t.value.isEmpty = false) (htype : t.type = f.type)
    (hop : t.operator = .gte ∨ t.operator = .lte)
    (takes : f.operator = .isIn → t.TakesList f) : ∃ u, f.Says t u := by
  unfold HoldsBound at h
  split at h
  next hnumber =>
    obtain ⟨n, hvalue⟩ := h
    have hn : n.isNaN = false := by
      rw [hvalue] at active
      exact active
    refine exists_says_number hnumber hvalue hn htype hop fun hin => ?_
    have hfalse := takes hin
    simp only [Test.TakesList, hnumber] at hfalse
  next hnumber =>
    obtain ⟨text, hvalue, hitem⟩ := h
    by_cases hlist : f.type = .multiselect ∨ f.operator = .isIn
    · have htakes : t.TakesList f := by
        rcases hlist with hmulti | hin
        · simp [Test.TakesList, hmulti]
        · exact takes hin
      have htext : t.value.param = text := by
        rw [hvalue]
        rfl
      refine ⟨.list [t.value.param], ?_, Text.join_singleton ',' _,
        htakes.accepts_singleton htype (.inl hop) (.inl (by rw [htext, hvalue]))⟩
      rw [htext]
      exact carries_singleton hlist hitem
    · have hin : f.operator ≠ .isIn := fun hin => hlist (.inr hin)
      cases hf : f.type
      case number => exact absurd hf hnumber
      case multiselect => exact absurd (.inl hf) hlist
      case boolean => exact exists_says_boolean hf hvalue hitem.1 htype hop hin
      all_goals
        have holds : f.Holds t.value := by
          rw [Holds, hf]
          exact ⟨text, hvalue, hitem⟩
        exact ⟨t.value, holds.carries hin, rfl, fun _ => rfl⟩

namespace Link

variable {schema : Schema} {s : State}

/-- A filter that tests documents is read back from its text as one that tests them alike. -/
theorem exists_read_of_takes (apart : schema.KeysApart) {f : Field} (hf : f ∈ schema.filterFields)
    {key : String} {value : FilterValue} (h : f.Takes schema key value)
    (active : value.isEmpty = false) {t : Test} (ht : schema.test? key value = some t)
    (takes : f.operator = .isIn → t.TakesList f) :
    value.param ≠ "" ∧ ∃ v t', readValue? f value.param = some v ∧ schema.test? key v = some t' ∧
      t'.passes = t.passes := by
  obtain ⟨htests, rfl, htype, hop⟩ :=
    Schema.test?_readable apart hf (mem_readableKeys_of_takes h) ht
  have hsays : ∃ u, f.Says t u := by
    cases h with
    | key _ holds =>
      refine holds.exists_says htype ?_ takes
      rcases hop with hop | ⟨-, -, hop⟩
      · exact .inl hop
      · exact .inr hop
    | bound bound _ holds names =>
      refine holds.exists_says active htype ?_ takes
      rcases hop with hop | ⟨hpair, hkey, -⟩
      · exact hop
      · have hsome := names hkey
        rw [← hkey, hpair] at hsome
        cases hsome
  obtain ⟨u, hcarries, hparam, haccepts⟩ := hsays
  obtain ⟨-, hne, v, hread, hsame⟩ := hcarries.read_param
  rw [hparam] at hne hread
  refine ⟨hne, v, _, hread, htests v, ?_⟩
  have hcongr : t.operator.accepts t.type v = t.operator.accepts t.type t.value :=
    (Operator.accepts_congr hsame t.operator t.type).trans (funext haccepts)
  funext doc
  simp only [Test.passes, Operator.test, hcongr]

end Link

namespace State.Typed

variable {schema : Schema} {s : State}

theorem addressed (h : s.Typed schema) : s.Addressed schema where
  keys key hkey := by
    obtain ⟨value, hget⟩ := OrderedMap.mem_keys_iff.mp hkey
    obtain ⟨f, hf, htakes⟩ := h.filters (key, value) (OrderedMap.get?_eq_some_iff.mp hget)
    exact ⟨f, hf, Link.mem_readableKeys_of_takes htakes⟩
  rest := ⟨fun _ hentry => absurd hentry List.not_mem_nil, .inl h.sort, h.dateRange⟩

/-- A filter with a test is written, and read back as one that tests alike. -/
theorem exists_restored (apart : schema.KeysApart) (h : s.Typed schema)
    (lists : s.TakesLists schema) {key : String} {value : FilterValue}
    (hvalue : (key, value) ∈ s.activeFilters) {t : Test} (ht : schema.test? key value = some t) :
    ∃ v t', (Link.readFilters schema (Link.pairs s)).get? key = some v ∧
      schema.test? key v = some t' ∧ t'.passes = t.passes := by
  obtain ⟨hget, hactive⟩ := State.mem_activeFilters.mp hvalue
  obtain ⟨f, hf, htakes⟩ := h.filters (key, value) (OrderedMap.get?_eq_some_iff.mp hget)
  have hkey := Link.mem_readableKeys_of_takes htakes
  obtain ⟨hne, v, t', hread, ht', hpasses⟩ := Link.exists_read_of_takes apart hf htakes hactive ht
    fun hin => lists (key, value) hvalue f hf hin hkey t ht
  refine ⟨v, t', ?_, ht', hpasses⟩
  have htext : Link.filterText? s key = some value.param := by
    simp [Link.filterText?, hget, hactive, hne, Option.filter]
  rw [Link.get?_readFilters_pairs apart h.addressed hf hkey, htext, Option.bind_some, hread]

/-- Whatever filter a link gives back was active. -/
theorem exists_written (apart : schema.KeysApart) (h : s.Typed schema) {key : String}
    {v : FilterValue} (hv : (Link.readFilters schema (Link.pairs s)).get? key = some v) :
    ∃ value, (key, value) ∈ s.activeFilters := by
  by_cases hkey : ∃ f ∈ schema.filterFields, key ∈ Link.readableKeys schema f
  · obtain ⟨f, hf, hkey⟩ := hkey
    rw [Link.get?_readFilters_pairs apart h.addressed hf hkey] at hv
    obtain ⟨text, htext, -⟩ := Option.bind_eq_some_iff.mp hv
    obtain ⟨hmap, -⟩ := Option.filter_eq_some_iff.mp htext
    obtain ⟨value, hvalue, -⟩ := Option.map_eq_some_iff.mp hmap
    obtain ⟨hget, hactive⟩ := Option.filter_eq_some_iff.mp hvalue
    exact ⟨value, State.mem_activeFilters.mpr ⟨hget, by simpa using hactive⟩⟩
  · have hnone : ∀ f ∈ schema.filterFields, key ∉ Link.readableKeys schema f :=
      fun f hf hmem => hkey ⟨f, hf, hmem⟩
    rw [Link.get?_readFilters_eq_none hnone] at hv
    cases hv

end State.Typed

namespace Schema

variable {schema : Schema} {s : State}

theorem isSome_test? (schema : Schema) (key : String) (v w : FilterValue) :
    (schema.test? key v).isSome = (schema.test? key w).isSome := by
  unfold test?
  cases schema.pairedKey? key with
  | some pair => rfl
  | none => rw [Option.isSome_map, Option.isSome_map]

theorem all_tests_iff (doc : Json) :
    (schema.tests s).all (fun t => t.passes doc) = true ↔
      ∀ key value, (key, value) ∈ s.activeFilters →
        ∀ t, schema.test? key value = some t → t.passes doc = true := by
  rw [List.all_eq_true]
  constructor
  · intro h key value hvalue t ht
    exact h t (List.mem_filterMap.mpr ⟨(key, value), hvalue, ht⟩)
  · intro h t ht
    obtain ⟨⟨key, value⟩, hvalue, ht⟩ := List.mem_filterMap.mp ht
    exact h key value hvalue t ht

/-- A state lets through what it lets through when it is read back from a link. -/
theorem keeps_restore_write (apart : schema.KeysApart) (h : s.Typed schema)
    (lists : s.TakesLists schema) :
    schema.keeps (Link.restore schema (Link.write s)) = schema.keeps s := by
  rw [Link.restore_write_eq apart h.addressed]
  have hactive : ∀ {key v}, (key, v) ∈
      ({ s with filters := Link.readFilters schema (Link.pairs s) } : State).activeFilters ↔
        (Link.readFilters schema (Link.pairs s)).get? key = some v := by
    intro key v
    rw [State.mem_activeFilters]
    exact ⟨And.left, fun hget => ⟨hget, Link.isEmpty_of_get?_readFilters hget⟩⟩
  have htests : ∀ doc, (schema.tests
      { s with filters := Link.readFilters schema (Link.pairs s) }).all (fun t => t.passes doc) =
        (schema.tests s).all fun t => t.passes doc := by
    intro doc
    rw [Bool.eq_iff_iff, all_tests_iff, all_tests_iff]
    constructor
    · intro hall key value hvalue t ht
      obtain ⟨v, t', hv, ht', hpasses⟩ := h.exists_restored apart lists hvalue ht
      rw [← hpasses]
      exact hall key v (hactive.mpr hv) t' ht'
    · intro hall key v hv t' ht'
      obtain ⟨value, hvalue⟩ := h.exists_written apart (hactive.mp hv)
      have hsome : (schema.test? key value).isSome := by
        rw [schema.isSome_test? key value v, ht']
        rfl
      obtain ⟨t, ht⟩ := Option.isSome_iff_exists.mp hsome
      obtain ⟨v', t'', hv', ht'', hpasses⟩ := h.exists_restored apart lists hvalue ht
      obtain rfl : v' = v := Option.some.inj (hv'.symm.trans (hactive.mp hv))
      obtain rfl : t'' = t' := Option.some.inj (ht''.symm.trans ht')
      rw [hpasses]
      exact hall key value hvalue t ht
  funext doc
  unfold keeps
  rw [htests]
  rfl

end Schema

namespace Link

variable {α : Type} {schema : Schema} {s : State}

/-- A link shows the list that it was made from: every state with typed filters narrows any entries
as the state does that is read back from its link, whatever the operators of the fields are. Only a
field whose operator asks for one of several values is given a list by links, and has to be tested
by it as by the value. -/
theorem apply_restore_write (apart : schema.KeysApart) (h : s.Typed schema)
    (lists : s.TakesLists schema) (entries : List (Entry α)) :
    Narrowing.apply schema (restore schema (write s)) entries =
      Narrowing.apply schema s entries := by
  have hsort : (restore schema (write s)).sort = s.sort := by
    rw [restore_write_eq apart h.addressed]
  rw [Narrowing.apply_eq_filter_sort, Narrowing.apply_eq_filter_sort, hsort,
    Schema.keeps_restore_write apart h lists]

/-- Trails with a grade, a length and the day on which they open. -/
def trailSchema : Schema where
  searchFields := [.ofKey "name" .string]
  filterFields := [⟨"grade", none, .select, some .isIn, [], none⟩,
    ⟨"length", none, .number, some .between, [], none⟩, .ofKey "opens" .date]
  sortOptions := [⟨"name:asc", "Name"⟩]
  dateRangeFields := [⟨"opens", none⟩]
  rangeSuffixes := .standard

def trailState : State where
  search := "ridge"
  filters := .ofList [("grade", .text "easy"), ("length", .text "5:20"),
    ("length_min", .number (.zero false)), ("opens_max", .text "2024-05-31")]
  sort := "length:desc"
  dateRange := some ⟨some "opens", some "2024-05-01", none⟩

theorem apply_restore_write_trails : trailSchema.KeysApart ∧ trailState.Typed trailSchema ∧
    trailState.TakesLists trailSchema ∧
    ∀ entries : List (Entry Nat),
      Narrowing.apply trailSchema (restore trailSchema (write trailState)) entries =
        Narrowing.apply trailSchema trailState entries := by
  have apart : trailSchema.KeysApart := by
    refine ⟨?_, by decide, by decide, by decide⟩
    simp only [List.disjoint_left]
    decide
  have hentries : trailState.filters.entries = [("grade", .text "easy"), ("length", .text "5:20"),
      ("length_min", .number (.zero false)), ("opens_max", .text "2024-05-31")] := by decide
  have typed : trailState.Typed trailSchema := by
    refine ⟨?_, by decide, ?_⟩
    · rw [hentries]
      simp only [List.forall_mem_cons]
      refine ⟨⟨⟨"grade", none, .select, some .isIn, [], none⟩, by decide, .key _ ?_⟩,
        ⟨⟨"length", none, .number, some .between, [], none⟩, by decide, .key _ ?_⟩,
        ⟨⟨"length", none, .number, some .between, [], none⟩, by decide, .bound .min _ ?_ ?_⟩,
        ⟨.ofKey "opens" .date, by decide, .bound .max _ ?_ ?_⟩, by simp⟩
      · exact ⟨"easy", rfl, by decide, by decide, by decide⟩
      · exact ⟨"5:20", rfl, by decide⟩
      · exact ⟨.zero false, rfl⟩
      · exact fun h => absurd h (by decide)
      · exact ⟨"2024-05-31", rfl, by decide, by decide, by decide⟩
      · exact fun h => absurd h (by decide)
    · rintro range ⟨⟩
      exact ⟨⟨⟨"opens", none⟩, by decide, rfl⟩, by decide, by decide, by decide⟩
  have lists : trailState.TakesLists trailSchema := by
    intro entry _ f hf hin _ t _
    have hselect : ∀ f ∈ trailSchema.filterFields, f.operator = .isIn → f.type = .select := by
      decide
    simp [Test.TakesList, hselect f hf hin]
  exact ⟨apart, typed, lists, apply_restore_write apart typed lists⟩

/-- Chests of which links ask for one of several counts, seals and days. -/
def chestSchema : Schema :=
  { Schema.empty with filterFields := [⟨"count", none, .number, some .isIn, [], none⟩,
      ⟨"sealed", none, .boolean, some .isIn, [], none⟩,
      ⟨"packed", none, .date, some .isIn, [], none⟩] }

def chest : Entry Nat :=
  ⟨1, .object [("count", .number (.integer 0)), ("sealed", .bool true),
    ("packed", .text "2024-05-02")]⟩

def chestState (key : String) (value : FilterValue) : State :=
  (State.empty.withSort "count:asc").withFilter key value

theorem apply_chest (s : State) : Narrowing.apply chestSchema s [chest] =
    if chestSchema.keeps s chest.doc then [chest] else [] := by
  have hsort : Narrowing.sort s.sort [chest] = [chest] := by
    unfold Narrowing.sort
    simp
  rw [Narrowing.apply_eq_filter_sort, hsort, List.filter_cons, List.filter_nil]

/-- A list of texts is no number, no truth value and no first day: a chest is lost by a link. -/
theorem apply_restore_write_ne : chestSchema.validate = .ok () ∧ chestSchema.KeysApart ∧
    ∀ filter ∈ [("count", FilterValue.number (.zero false)), ("sealed", .bool true),
        ("packed_min", .text "2024-05-01")],
      (chestState filter.1 filter.2).Typed chestSchema ∧
        Narrowing.apply chestSchema (chestState filter.1 filter.2) [chest] = [chest] ∧
        Narrowing.apply chestSchema
          (restore chestSchema (write (chestState filter.1 filter.2))) [chest] = [] := by
  have apart : chestSchema.KeysApart := by
    refine ⟨?_, by decide, by decide, by decide⟩
    simp only [List.disjoint_left]
    decide
  have typed : ∀ key value (f : Field), f ∈ chestSchema.filterFields →
      f.Takes chestSchema key value → value.isEmpty = false →
        (chestState key value).Typed chestSchema := by
    intro key value f hf htakes hactive
    have hentries : (chestState key value).filters.entries = [(key, value)] := by
      simp only [chestState, State.withFilter, hactive]
      rfl
    refine ⟨?_, ?_, ?_⟩
    · simpa [hentries] using ⟨f, hf, htakes⟩
    · change "count:asc" ≠ ""
      decide
    · rintro range ⟨⟩
  refine ⟨rfl, apart, ?_⟩
  simp only [List.forall_mem_cons, apply_chest]
  refine ⟨⟨?_, ?_, ?_⟩, ⟨?_, ?_, ?_⟩, ⟨?_, ?_, ?_⟩, by simp⟩
  · exact typed _ _ ⟨"count", none, .number, some .isIn, [], none⟩ (by decide)
      (.key _ ⟨.zero false, rfl, rfl⟩) rfl
  · rw [if_pos]
    decide +kernel
  · rw [if_neg]
    decide +kernel
  · exact typed _ _ ⟨"sealed", none, .boolean, some .isIn, [], none⟩ (by decide)
      (.key _ ⟨true, rfl⟩) rfl
  · rw [if_pos]
    decide +kernel
  · rw [if_neg]
    decide +kernel
  · exact typed _ _ ⟨"packed", none, .date, some .isIn, [], none⟩ (by decide)
      (.bound .min _ ⟨"2024-05-01", rfl, by decide, by decide, by decide⟩
        fun h => absurd h (by decide)) (by decide)
  · rw [if_pos]
    decide +kernel
  · rw [if_neg]
    decide +kernel

end Link

end Listing
