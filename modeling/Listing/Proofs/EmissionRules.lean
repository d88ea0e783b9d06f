import Listing.Proofs.RangeKeys
import Listing.Proofs.UnknownKeys

namespace Listing

/-! The rules of both kinds of query, each said as a relation between a part of a state and what it
emits. -/

/-- What the rules of a query emit. A later rule beats the rules before it. -/
@[ext]
structure Emitted where
  search : List (String × Param)
  filters : List (String × Param)
  dateRange : List (String × Param)
  sort : List (String × Param)
  deriving DecidableEq

/-- Emissions made along a row: what emits gives its emission in its turn, and what does not gives
none. -/
inductive EmittedAlong {ι : Type} (emits : ι → String × Param → Prop) :
    List ι → List (String × Param) → Prop where
  | nil : EmittedAlong emits [] []
  | emitted {x : ι} {e : String × Param} {xs : List ι} {es : List (String × Param)}
      (hx : emits x e) (hxs : EmittedAlong emits xs es) : EmittedAlong emits (x :: xs) (e :: es)
  | skipped {x : ι} {xs : List ι} {es : List (String × Param)}
      (hx : ∀ e, ¬emits x e) (hxs : EmittedAlong emits xs es) : EmittedAlong emits (x :: xs) es

theorem emittedAlong_iff {ι : Type} {emits : ι → String × Param → Prop}
    {f : ι → Option (String × Param)} (h : ∀ x e, emits x e ↔ f x = some e) {xs : List ι}
    {es : List (String × Param)} : EmittedAlong emits xs es ↔ es = xs.filterMap f := by
  constructor
  · intro hes
    induction hes with
    | nil => rfl
    | emitted hx _ ih => rw [List.filterMap_cons_some ((h _ _).mp hx), ih]
    | @skipped x _ _ hx _ ih =>
      have hnone : f x = none := by
        cases hf : f x with
        | none => rfl
        | some e => exact absurd ((h x e).mpr hf) (hx e)
      rw [List.filterMap_cons_none hnone, ih]
  · rintro rfl
    induction xs with
    | nil => exact .nil
    | cons x xs ih =>
      cases hf : f x with
      | none =>
        rw [List.filterMap_cons_none hf]
        refine .skipped (fun e he => ?_) ih
        rw [h, hf] at he
        cases he
      | some e =>
        rw [List.filterMap_cons_some hf]
        exact .emitted ((h x e).mpr hf) ih

/-- The rules of one kind of query: the names that the search is emitted under, what a filter of a
state emits, and what a state emits for its dates. -/
structure EmissionRules where
  searchNames : List String
  filter : State → String × FilterValue → String × Param → Prop
  dates : State → List (String × Param) → Prop

/-- Whether emissions are those of a state under some rules. A text that is not empty is searched
under every name, the filters emit in their order, and the sort order is emitted as it is. -/
structure EmissionRules.Emit (rules : EmissionRules) (s : State) (e : Emitted) : Prop where
  noSearch : s.search = "" → e.search = []
  search : s.search ≠ "" → e.search = rules.searchNames.map fun name => (name, .text s.search)
  filters : EmittedAlong (rules.filter s) s.filters.entries e.filters
  dateRange : rules.dates s e.dateRange
  noSort : s.sort = "" → e.sort = []
  sort : s.sort ≠ "" → e.sort = [("sort", .text s.sort)]

/-- Rules whose filters and dates emit what some functions give leave one choice of emissions. -/
theorem EmissionRules.emit_iff {rules : EmissionRules} {s : State} {e : Emitted}
    {f : String × FilterValue → Option (String × Param)} {dates : List (String × Param)}
    (hfilter : ∀ entry e, rules.filter s entry e ↔ entry.2.isEmpty = false ∧ f entry = some e)
    (hdates : ∀ es, rules.dates s es ↔ es = dates) :
    rules.Emit s e ↔ e =
      { search := if s.search = "" then []
          else rules.searchNames.map fun name => (name, .text s.search)
        filters := s.activeFilters.filterMap f
        dateRange := dates
        sort := Params.sortEmissions s.sort } := by
  -- The row runs along all filters of the state, and the function along those that are not empty.
  have hactive : ∀ entry e, rules.filter s entry e ↔
      (if !entry.2.isEmpty then f entry else none) = some e := by
    intro entry e
    rw [hfilter]
    cases entry.2.isEmpty <;> simp
  rw [Emitted.ext_iff, State.activeFilters, List.filterMap_filter, ← emittedAlong_iff hactive,
    ← hdates, Params.sortEmissions]
  dsimp only
  constructor
  · rintro ⟨hnoSearch, hsearch, hfilters, hdates, hnoSort, hsort⟩
    refine ⟨?_, hfilters, hdates, ?_⟩
    · split
      next h => exact hnoSearch h
      next h => exact hsearch h
    · split
      next h => exact hnoSort h
      next h => exact hsort h
  · rintro ⟨hsearch, hfilters, hdates, hsort⟩
    exact ⟨fun h => by rw [hsearch, if_pos h], fun h => by rw [hsearch, if_neg h], hfilters, hdates,
      fun h => by rw [hsort, if_pos h], fun h => by rw [hsort, if_neg h]; rfl⟩

/-- Whether a key names a bound of another key: it is the key of the bound, and it does not end as a
lower bound does where it is an upper one. -/
structure RangeSuffixes.Names (suffixes : RangeSuffixes) (key base : String) (bound : RangeBound) :
    Prop where
  ne : base ≠ ""
  keyFor : suffixes.keyFor base bound = key
  upper : bound = .max → ¬suffixes.min.toList <:+ key.toList

theorem RangeSuffixes.names_iff {suffixes : RangeSuffixes} {key base : String}
    {bound : RangeBound} :
    suffixes.Names key base bound ↔ suffixes.split? key = some (base, bound) := by
  rw [split?_eq_some_iff]
  exact ⟨fun h => ⟨h.ne, h.keyFor, h.upper⟩, fun ⟨hne, hkey, hupper⟩ => ⟨hne, hkey, hupper⟩⟩

namespace Schema

variable {schema : Schema} {key : String}

/-- Whether a field is the first one that a schema declares under a key. -/
def Declares (schema : Schema) (key : String) (f : Field) : Prop :=
  f.key = key ∧ ∃ before after, schema.filterFields = before ++ f :: after ∧
    ∀ g ∈ before, g.key ≠ key

theorem declares_iff {f : Field} : schema.Declares key f ↔ schema.field? key = some f := by
  rw [field?, List.find?_eq_some_iff_append, Declares, decide_eq_true_eq]
  simp

theorem not_declares_iff : (∀ f, ¬schema.Declares key f) ↔ schema.field? key = none := by
  simp only [declares_iff, Option.eq_none_iff_forall_ne_some, ne_eq]

/-- Whether a key is known as a bound: of a field that is declared, or of one that is not where the
key itself is. The type is that of the field that is declared. -/
inductive Pairs (schema : Schema) (key : String) : PairedKey → Prop where
  | base {base : String} {bound : RangeBound} {f : Field}
      (hnames : schema.rangeSuffixes.Names key base bound) (hbase : schema.Declares base f) :
      Pairs schema key ⟨base, bound, f.type⟩
  | own {base : String} {bound : RangeBound} {f : Field}
      (hnames : schema.rangeSuffixes.Names key base bound) (hbase : ∀ g, ¬schema.Declares base g)
      (hown : schema.Declares key f) : Pairs schema key ⟨base, bound, f.type⟩

theorem pairs_iff {pair : PairedKey} :
    schema.Pairs key pair ↔ schema.pairedKey? key = some pair := by
  unfold pairedKey?
  constructor
  · intro h
    cases h with
    | base hnames hbase => simp [RangeSuffixes.names_iff.mp hnames, declares_iff.mp hbase]
    | own hnames hbase hown =>
      simp [RangeSuffixes.names_iff.mp hnames, not_declares_iff.mp hbase, declares_iff.mp hown]
  · intro h
    obtain ⟨⟨base, bound⟩, hsplit, h⟩ := Option.bind_eq_some_iff.mp h
    obtain ⟨f, hf, h⟩ := Option.bind_eq_some_iff.mp h
    cases h
    have hnames := RangeSuffixes.names_iff.mpr hsplit
    cases hbase : schema.field? base with
    | some g =>
      rw [hbase] at hf
      cases hf
      exact .base hnames (declares_iff.mpr hbase)
    | none =>
      rw [hbase] at hf
      exact .own hnames (not_declares_iff.mpr hbase) (declares_iff.mpr hf)

theorem not_pairs_iff : (∀ pair, ¬schema.Pairs key pair) ↔ schema.pairedKey? key = none := by
  simp only [pairs_iff, Option.eq_none_iff_forall_ne_some, ne_eq]

end Schema

/-- What a state says of a bound: the text of a filter that is not empty, else nothing. -/
inductive State.Says (s : State) (key : String) : String → Prop where
  | chosen {value : FilterValue} (hmem : (key, value) ∈ s.filters.entries)
      (hvalue : value.isEmpty = false) : Says s key value.param
  | nothing (hmem : ∀ value, (key, value) ∈ s.filters.entries → value.isEmpty = true) :
      Says s key ""

theorem State.says_iff {s : State} {key text : String} :
    s.Says key text ↔ text = FlatQuery.boundText s.filters key := by
  unfold FlatQuery.boundText
  constructor
  · intro h
    cases h with
    | chosen hmem hvalue => simp [OrderedMap.get?_eq_some_iff.mpr hmem, hvalue, Option.filter]
    | nothing hmem =>
      cases hget : s.filters.get? key with
      | none => rfl
      | some value => simp [hmem value (OrderedMap.get?_eq_some_iff.mp hget), Option.filter]
  · rintro rfl
    cases hget : s.filters.get? key with
    | none =>
      refine .nothing fun value hmem => ?_
      rw [OrderedMap.get?_eq_some_iff.mpr hmem] at hget
      cases hget
    | some value =>
      cases hvalue : value.isEmpty with
      | false =>
        simpa [hvalue, Option.filter] using
          State.Says.chosen (OrderedMap.get?_eq_some_iff.mp hget) hvalue
      | true =>
        have hnothing : s.Says key "" := .nothing fun value' hmem => by
          rw [OrderedMap.get?_eq_some_iff.mpr hmem, Option.some.injEq] at hget
          rw [hget, hvalue]
        simpa [hvalue, Option.filter] using hnothing

/-- Whether a range limits the dates of a field: it names the field and has a bound. -/
structure DateRange.Limits (r : DateRange) (field : String) : Prop where
  names : r.field = some field
  ne : field ≠ ""
  bounded : ∃ date, date ≠ "" ∧ (r.start = some date ∨ r.stop = some date)

theorem DateRange.hasBounds_iff {r : DateRange} : r.hasBounds = true ↔
    ∃ date, date ≠ "" ∧ (r.start = some date ∨ r.stop = some date) := by
  have hbound : ∀ bound : Option String, (bound.filter (· ≠ "")).isSome = true ↔
      ∃ date, date ≠ "" ∧ bound = some date := by
    intro bound
    cases bound with
    | none => simp
    | some date => simp
  rw [hasBounds, Bool.or_eq_true, lower?, upper?, hbound, hbound, ← exists_or]
  simp only [← and_or_left]

theorem State.activeDateRange?_eq_some_iff {s : State} {field : String} {r : DateRange} :
    s.activeDateRange? = some (field, r) ↔ s.dateRange = some r ∧ r.Limits field := by
  unfold activeDateRange? DateRange.activeField?
  constructor
  · intro h
    obtain ⟨r', hr, h⟩ := Option.bind_eq_some_iff.mp h
    obtain ⟨field', hfield, h⟩ := Option.bind_eq_some_iff.mp h
    cases h
    obtain ⟨hnames, hactive⟩ := Option.filter_eq_some_iff.mp hfield
    obtain ⟨hne, hbounds⟩ : field ≠ "" ∧ r.hasBounds = true := by simpa using hactive
    exact ⟨hr, hnames, hne, DateRange.hasBounds_iff.mp hbounds⟩
  · rintro ⟨hr, hnames, hne, hbounded⟩
    simp [hr, hnames, Option.filter, hne, DateRange.hasBounds_iff.mpr hbounded]

theorem State.activeDateRange?_eq_none_iff {s : State} : s.activeDateRange? = none ↔
    ∀ r, s.dateRange = some r → ∀ field, ¬r.Limits field := by
  rw [Option.eq_none_iff_forall_ne_some, Prod.forall]
  simp only [ne_eq, activeDateRange?_eq_some_iff, not_and]
  exact ⟨fun h r hr field => h field r hr, fun h field r hr => h r hr field⟩

namespace FlatQuery

variable {schema : Schema} {s : State}

/-- What a flat query has of a filter. Under a key that names a bound it has the range of the
field, with what the state says of either bound. Under the key of another field it has the value,
which has to be a number for a number field that does not take ranges. -/
inductive FilterRule (schema : Schema) (s : State) :
    String × FilterValue → String × Param → Prop where
  | bound {key : String} {value : FilterValue} {pair : PairedKey} {min max : String}
      (hvalue : value.isEmpty = false) (hpair : schema.Pairs key pair)
      (hmin : s.Says (schema.rangeSuffixes.keyFor pair.base .min) min)
      (hmax : s.Says (schema.rangeSuffixes.keyFor pair.base .max) max) :
      FilterRule schema s (key, value) (pair.base, .text (min ++ ":" ++ max))
  | number {key : String} {value : FilterValue} {f : Field} {n : Double}
      (hvalue : value.isEmpty = false) (hpair : ∀ pair, ¬schema.Pairs key pair)
      (hfield : schema.Declares key f) (htype : f.type = .number)
      (hop : f.operator.isRanged = false) (hn : value.number? = some n) :
      FilterRule schema s (key, value) (key, .number n)
  | own {key : String} {value : FilterValue} {f : Field}
      (hvalue : value.isEmpty = false) (hpair : ∀ pair, ¬schema.Pairs key pair)
      (hfield : schema.Declares key f)
      (hown : f.type ≠ .number ∨ f.operator.isRanged = true) :
      FilterRule schema s (key, value) (key, .ofFilter value)

theorem filterRule_iff {entry : String × FilterValue} {e : String × Param} :
    FilterRule schema s entry e ↔
      entry.2.isEmpty = false ∧ filterEmission? schema s.filters entry.1 entry.2 = some e := by
  unfold filterEmission?
  constructor
  · intro h
    cases h with
    | bound hvalue hpair hmin hmax =>
      refine ⟨hvalue, ?_⟩
      simp only [Schema.pairs_iff.mp hpair, encode_pairedRange, State.says_iff.mp hmin,
        State.says_iff.mp hmax]
    | number hvalue hpair hfield htype hop hn =>
      refine ⟨hvalue, ?_⟩
      simp [Schema.not_pairs_iff.mp hpair, Schema.declares_iff.mp hfield, htype, hop, hn]
    | own hvalue hpair hfield hown =>
      refine ⟨hvalue, ?_⟩
      rcases hown with htype | hop
      · simp [Schema.not_pairs_iff.mp hpair, Schema.declares_iff.mp hfield, htype]
      · simp [Schema.not_pairs_iff.mp hpair, Schema.declares_iff.mp hfield, hop]
  · obtain ⟨key, value⟩ := entry
    rintro ⟨hvalue, h⟩
    split at h
    next pair hpair =>
      cases h
      rw [encode_pairedRange]
      exact .bound hvalue (Schema.pairs_iff.mpr hpair) (State.says_iff.mpr rfl)
        (State.says_iff.mpr rfl)
    next hpair =>
      have hpair := Schema.not_pairs_iff.mpr hpair
      split at h
      next => cases h
      next f hfield =>
        have hfield := Schema.declares_iff.mpr hfield
        split at h
        next hf =>
          obtain ⟨n, hn, rfl⟩ := Option.map_eq_some_iff.mp h
          exact .number hvalue hpair hfield hf.1 hf.2 hn
        next hf =>
          cases h
          refine .own hvalue hpair hfield ?_
          simpa [Classical.or_iff_not_imp_left] using hf

/-- The digits that stand for a bound of a date range at a time of day. A date without digits for
one and a bound that is missing have none. -/
inductive DigitsRule (time : String) : Option String → String → Prop where
  | date {date digits : String} (h : compactDate? date time = some digits) :
      DigitsRule time (some date) digits
  | unreadable {date : String} (h : compactDate? date time = none) : DigitsRule time (some date) ""
  | missing : DigitsRule time none ""

theorem digitsRule_iff {time text : String} {bound : Option String} : DigitsRule time bound text ↔
    text = ((bound.filter (· ≠ "")).bind fun date => compactDate? date time).getD "" := by
  -- The empty date has no digits, so it may stay.
  have hfilter : ((bound.filter (· ≠ "")).bind fun date => compactDate? date time) =
      bound.bind fun date => compactDate? date time := by
    cases bound with
    | none => rfl
    | some date =>
      by_cases hdate : date = ""
      · subst hdate
        rfl
      · simp [Option.filter, hdate]
  rw [hfilter]
  constructor
  · intro h
    cases h with
    | date h => simp [h]
    | unreadable h => simp [h]
    | missing => rfl
  · rintro rfl
    cases bound with
    | none => exact .missing
    | some date =>
      rw [Option.bind_some]
      cases h : compactDate? date time with
      | none => exact .unreadable h
      | some digits => exact .date h

/-- What a flat query has of the dates: from the start of the first day to the end of the last, for
a range that limits a field and has digits for one of its bounds. -/
inductive DateRule (s : State) : List (String × Param) → Prop where
  | range {r : DateRange} {field start stop : String} (hr : s.dateRange = some r)
      (hlimits : r.Limits field) (hstart : DigitsRule "000000" r.start start)
      (hstop : DigitsRule "235959" r.stop stop) (hdigits : start ≠ "" ∨ stop ≠ "") :
      DateRule s [(field, .text (start ++ ":" ++ stop))]
  | unreadable {r : DateRange} {field : String} (hr : s.dateRange = some r)
      (hlimits : r.Limits field) (hstart : DigitsRule "000000" r.start "")
      (hstop : DigitsRule "235959" r.stop "") : DateRule s []
  | inactive (h : ∀ r, s.dateRange = some r → ∀ field, ¬r.Limits field) : DateRule s []

theorem dateEmissions_of_digits {r : DateRange} {start stop : String} (field : String)
    (hstart : DigitsRule "000000" r.start start) (hstop : DigitsRule "235959" r.stop stop) :
    dateEmissions (some (field, r)) =
      if start = "" ∧ stop = "" then [] else [(field, .text (start ++ ":" ++ stop))] := by
  rw [digitsRule_iff.mp hstart, digitsRule_iff.mp hstop]
  rfl

theorem dateRule_iff {es : List (String × Param)} :
    DateRule s es ↔ es = dateEmissions s.activeDateRange? := by
  constructor
  · intro h
    cases h with
    | range hr hlimits hstart hstop hdigits =>
      rw [State.activeDateRange?_eq_some_iff.mpr ⟨hr, hlimits⟩,
        dateEmissions_of_digits _ hstart hstop, if_neg (not_and_or.mpr hdigits)]
    | unreadable hr hlimits hstart hstop =>
      rw [State.activeDateRange?_eq_some_iff.mpr ⟨hr, hlimits⟩,
        dateEmissions_of_digits _ hstart hstop, if_pos ⟨rfl, rfl⟩]
    | inactive h =>
      rw [State.activeDateRange?_eq_none_iff.mpr h]
      rfl
  · rintro rfl
    cases hactive : s.activeDateRange? with
    | none => exact .inactive (State.activeDateRange?_eq_none_iff.mp hactive)
    | some active =>
      obtain ⟨field, r⟩ := active
      obtain ⟨hr, hlimits⟩ := State.activeDateRange?_eq_some_iff.mp hactive
      have hstart : DigitsRule "000000" r.start _ := digitsRule_iff.mpr rfl
      have hstop : DigitsRule "235959" r.stop _ := digitsRule_iff.mpr rfl
      rw [dateEmissions_of_digits field hstart hstop]
      split
      next h =>
        rw [h.1] at hstart
        rw [h.2] at hstop
        exact .unreadable hr hlimits hstart hstop
      next h => exact .range hr hlimits hstart hstop (not_and_or.mp h)

/-- The rules of a flat query. -/
def rules (schema : Schema) : EmissionRules where
  searchNames := schema.searchFields.map Field.key
  filter := FilterRule schema
  dates := DateRule

/-- What each rule of a flat query emits. -/
def emitted (schema : Schema) (s : State) : Emitted where
  search := searchEmissions schema s.search
  filters := s.activeFilters.filterMap fun (key, value) =>
    filterEmission? schema s.filters key value
  dateRange := dateEmissions s.activeDateRange?
  sort := Params.sortEmissions s.sort

theorem rules_emit_iff {e : Emitted} : (rules schema).Emit s e ↔ e = emitted schema s := by
  rw [EmissionRules.emit_iff (fun _ _ => filterRule_iff) fun _ => dateRule_iff, emitted,
    searchEmissions, rules, List.map_map]
  rfl

end FlatQuery

namespace SuffixedQuery

variable {separator : String} {schema : Schema} {s : State}

/-- What a filter of a key compares, with its type and operator: the field of the key, or else the
field of the bound that the key names. -/
inductive TargetRule (schema : Schema) (key : String) : String → FieldType → Operator → Prop where
  | field {f : Field} (hfield : schema.Declares key f) :
      TargetRule schema key key f.type f.operator
  | bound {pair : PairedKey} (hfield : ∀ f, ¬schema.Declares key f)
      (hpair : schema.Pairs key pair) :
      TargetRule schema key pair.base pair.type pair.bound.operator

theorem targetRule_iff {key base : String} {type : FieldType} {op : Operator} :
    TargetRule schema key base type op ↔ target? schema key = some (base, type, op) := by
  unfold target?
  constructor
  · intro h
    cases h with
    | field hfield => rw [Schema.declares_iff.mp hfield]
    | bound hfield hpair =>
      rw [Schema.not_declares_iff.mp hfield, Schema.pairs_iff.mp hpair]
      rfl
  · intro h
    split at h
    next f hfield =>
      cases h
      exact .field (Schema.declares_iff.mpr hfield)
    next hfield =>
      obtain ⟨pair, hpair, h⟩ := Option.map_eq_some_iff.mp h
      cases h
      exact .bound (Schema.not_declares_iff.mpr hfield) (Schema.pairs_iff.mpr hpair)

/-- The name of a parameter: the key for equality, else the key with the name of the operator. -/
inductive NameRule (separator key : String) : Operator → String → Prop where
  | equal : NameRule separator key .eq key
  | operator {op : Operator} (hop : op ≠ .eq) :
      NameRule separator key op (key ++ separator ++ op.name)

theorem nameRule_iff {key name : String} {op : Operator} :
    NameRule separator key op name ↔ name = paramName separator key op := by
  unfold paramName
  constructor
  · intro h
    cases h with
    | equal => rw [if_pos rfl]
    | operator hop => rw [if_neg hop]
  · rintro rfl
    split
    next h => subst h; exact .equal
    next h => exact .operator h

/-- The value of a parameter: the text where ranges or lists are compared, a number for other number
fields, and the value itself for all other fields. -/
inductive ValueRule (value : FilterValue) : FieldType → Operator → Param → Prop where
  | text {type : FieldType} {op : Operator} (hop : op.isRanged = true ∨ op = .isIn) :
      ValueRule value type op (.text value.param)
  | number {op : Operator} {n : Double} (hranged : op.isRanged = false) (hop : op ≠ .isIn)
      (hn : value.number? = some n) : ValueRule value .number op (.number n)
  | own {type : FieldType} {op : Operator} (hranged : op.isRanged = false) (hop : op ≠ .isIn)
      (htype : type ≠ .number) : ValueRule value type op (.ofFilter value)

theorem valueRule_iff {value : FilterValue} {type : FieldType} {op : Operator} {p : Param} :
    ValueRule value type op p ↔ paramValue? type op value = some p := by
  unfold paramValue?
  constructor
  · intro h
    cases h with
    | text hop => rcases hop with hop | hop <;> simp [hop]
    | number hranged hop hn => simp [hranged, hop, hn]
    | own hranged hop htype => simp [hranged, hop, htype]
  · intro h
    split at h
    next hop =>
      cases h
      exact .text (by simpa using hop)
    next hop =>
      obtain ⟨hranged, hin⟩ : op.isRanged = false ∧ op ≠ .isIn := by simpa using hop
      split at h
      next htype =>
        subst htype
        obtain ⟨n, hn, rfl⟩ := Option.map_eq_some_iff.mp h
        exact .number hranged hin hn
      next htype =>
        cases h
        exact .own hranged hin htype

/-- What a suffixed query has of a filter. -/
inductive FilterRule (separator : String) (schema : Schema) :
    String × FilterValue → String × Param → Prop where
  | intro {key base name : String} {value : FilterValue} {type : FieldType} {op : Operator}
      {p : Param} (hvalue : value.isEmpty = false) (htarget : TargetRule schema key base type op)
      (hname : NameRule separator base op name) (hparam : ValueRule value type op p) :
      FilterRule separator schema (key, value) (name, p)

theorem filterRule_iff {entry : String × FilterValue} {e : String × Param} :
    FilterRule separator schema entry e ↔
      entry.2.isEmpty = false ∧ filterEmission? separator schema entry.1 entry.2 = some e := by
  unfold filterEmission?
  constructor
  · rintro ⟨hvalue, htarget, hname, hparam⟩
    refine ⟨hvalue, ?_⟩
    simp only [targetRule_iff.mp htarget, valueRule_iff.mp hparam, nameRule_iff.mp hname,
      Option.bind_eq_bind, Option.bind_some, Option.pure_def]
  · obtain ⟨key, value⟩ := entry
    rintro ⟨hvalue, h⟩
    obtain ⟨⟨base, type, op⟩, htarget, h⟩ := Option.bind_eq_some_iff.mp h
    obtain ⟨p, hparam, h⟩ := Option.bind_eq_some_iff.mp h
    cases h
    exact .intro hvalue (targetRule_iff.mpr htarget) (nameRule_iff.mpr rfl)
      (valueRule_iff.mpr hparam)

/-- What a suffixed query has of a bound of a date range: the date as it is, if there is one. -/
inductive BoundRule (name : String) : Option String → List (String × Param) → Prop where
  | date {date : String} (hdate : date ≠ "") : BoundRule name (some date) [(name, .text date)]
  | blank : BoundRule name (some "") []
  | missing : BoundRule name none []

theorem boundRule_iff {name : String} {bound : Option String} {es : List (String × Param)} :
    BoundRule name bound es ↔
      es = ((bound.filter (· ≠ "")).map fun date => (name, Param.text date)).toList := by
  constructor
  · intro h
    cases h with
    | date hdate => simp [Option.filter, hdate]
    | blank => rfl
    | missing => rfl
  · rintro rfl
    cases bound with
    | none => exact .missing
    | some date =>
      by_cases hdate : date = ""
      · subst hdate
        exact .blank
      · simpa [Option.filter, hdate] using @BoundRule.date name date hdate

/-- What a suffixed query has of the dates: the bounds of a range that limits a field. -/
inductive DateRule (separator : String) (s : State) : List (String × Param) → Prop where
  | range {r : DateRange} {field : String} {first last : List (String × Param)}
      (hr : s.dateRange = some r) (hlimits : r.Limits field)
      (hfirst : BoundRule (field ++ separator ++ "gte") r.start first)
      (hlast : BoundRule (field ++ separator ++ "lte") r.stop last) :
      DateRule separator s (first ++ last)
  | inactive (h : ∀ r, s.dateRange = some r → ∀ field, ¬r.Limits field) : DateRule separator s []

theorem dateRule_iff {es : List (String × Param)} :
    DateRule separator s es ↔ es = dateEmissions separator s.activeDateRange? := by
  constructor
  · intro h
    cases h with
    | range hr hlimits hfirst hlast =>
      rw [State.activeDateRange?_eq_some_iff.mpr ⟨hr, hlimits⟩, boundRule_iff.mp hfirst,
        boundRule_iff.mp hlast]
      rfl
    | inactive h =>
      rw [State.activeDateRange?_eq_none_iff.mpr h]
      rfl
  · rintro rfl
    cases hactive : s.activeDateRange? with
    | none => exact .inactive (State.activeDateRange?_eq_none_iff.mp hactive)
    | some active =>
      obtain ⟨field, r⟩ := active
      obtain ⟨hr, hlimits⟩ := State.activeDateRange?_eq_some_iff.mp hactive
      exact .range hr hlimits (boundRule_iff.mpr rfl) (boundRule_iff.mpr rfl)

/-- The rules of a suffixed query. -/
def rules (separator : String) (schema : Schema) : EmissionRules where
  searchNames := schema.searchFields.map fun f => f.key ++ separator ++ "like"
  filter _ := FilterRule separator schema
  dates := DateRule separator

/-- What each rule of a suffixed query emits. -/
def emitted (separator : String) (schema : Schema) (s : State) : Emitted where
  search := searchEmissions separator schema s.search
  filters := s.activeFilters.filterMap fun (key, value) =>
    filterEmission? separator schema key value
  dateRange := dateEmissions separator s.activeDateRange?
  sort := Params.sortEmissions s.sort

theorem rules_emit_iff {e : Emitted} :
    (rules separator schema).Emit s e ↔ e = emitted separator schema s := by
  rw [EmissionRules.emit_iff (fun _ _ => filterRule_iff) fun _ => dateRule_iff, emitted,
    searchEmissions, rules, List.map_map]
  rfl

end SuffixedQuery

end Listing
