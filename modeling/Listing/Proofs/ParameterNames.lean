import Listing.Proofs.Backends
import Listing.Proofs.LinkNarrowing

namespace Listing

theorem Operator.name_inj {op op' : Operator} (h : op.name = op'.name) : op = op' := by
  rw [← Option.some.injEq, ← ofName?_name op, ← ofName?_name op', h]

theorem Operator.underscore_not_mem_name (op : Operator) : '_' ∉ op.name.toList := by
  cases op <;> decide

namespace SuffixedQuery

/-- The key and the operator of a parameter are read off its name, unless it stands for equality. -/
theorem paramName_inj {key key' : String} {op op' : Operator} (hop : op ≠ .eq) (hop' : op' ≠ .eq)
    (h : paramName standardSeparator key op = paramName standardSeparator key' op') :
    key = key' ∧ op = op' := by
  rw [paramName, paramName, if_neg hop, if_neg hop'] at h
  have hlist : (key.toList ++ ['_']) ++ '_' :: op.name.toList =
      (key'.toList ++ ['_']) ++ '_' :: op'.name.toList := by
    simpa [standardSeparator] using congrArg String.toList h
  obtain ⟨hkey, hname⟩ := Text.eq_of_append_sep op.underscore_not_mem_name
    op'.underscore_not_mem_name hlist
  exact ⟨String.toList_inj.mp (List.append_cancel_right hkey),
    Operator.name_inj (String.toList_inj.mp hname)⟩

variable {schema : Schema}

/-- How the filter on another key gets the parameter of a declared field: as the bound that the
operator of the field stands for, or because the key of the field is that parameter. -/
inductive Clash (schema : Schema) : String → String → Prop
  | bound {key other : String} {f : Field} {pair : PairedKey}
      (declared : schema.field? key = some f) (undeclared : schema.field? other = none)
      (paired : schema.pairedKey? other = some pair) (base : pair.base = key)
      (operator : pair.bound.operator = f.operator) : Clash schema key other
  | spelled {key other base : String} {f : Field} {type : FieldType} {op : Operator}
      (declared : schema.field? key = some f) (equality : f.operator = .eq)
      (target : target? schema other = some (base, type, op)) (operator : op ≠ .eq)
      (name : key = paramName standardSeparator base op) : Clash schema key other

/-- Whether the filters on two keys get one parameter. -/
def Share (schema : Schema) (key other : String) : Prop :=
  Clash schema key other ∨ Clash schema other key

theorem target?_of_field? {key : String} {f : Field} (h : schema.field? key = some f) :
    target? schema key = some (key, f.type, f.operator) := by
  rw [target?, h]

/-- A target is a declared field, or a bound under a key that is not declared. -/
theorem target?_cases {key base : String} {type : FieldType} {op : Operator}
    (h : target? schema key = some (base, type, op)) :
    (∃ f, schema.field? key = some f ∧ base = key ∧ op = f.operator) ∨
      ∃ bound, schema.field? key = none ∧ schema.pairedKey? key = some ⟨base, bound, type⟩ ∧
        op = bound.operator := by
  unfold target? at h
  split at h
  next f hfield =>
    cases h
    exact .inl ⟨f, hfield, rfl, rfl⟩
  next hfield =>
    obtain ⟨pair, hpair, heq⟩ := Option.map_eq_some_iff.mp h
    cases heq
    exact .inr ⟨pair.bound, hfield, hpair, rfl⟩

theorem operator_ne_eq (bound : RangeBound) : bound.operator ≠ .eq := by
  cases bound <;> decide

theorem operator_inj {bound bound' : RangeBound} (h : bound.operator = bound'.operator) :
    bound = bound' := by
  cases bound with
  | min =>
    cases bound' with
    | min => rfl
    | max => cases h
  | max =>
    cases bound' with
    | min => cases h
    | max => rfl

/-- Only one key names a bound of a field. -/
theorem key_of_pairedKey? {key : String} {pair : PairedKey}
    (h : schema.pairedKey? key = some pair) :
    schema.rangeSuffixes.keyFor pair.base pair.bound = key := by
  obtain ⟨⟨base, bound⟩, hsplit, h⟩ := Option.bind_eq_some_iff.mp h
  obtain ⟨f, -, hpair⟩ := Option.bind_eq_some_iff.mp h
  cases hpair
  exact RangeSuffixes.keyFor_of_split? hsplit

variable {key base key' base' : String} {type type' : FieldType} {op op' : Operator}

theorem Clash.paramName_eq (clash : Clash schema key key')
    (h : target? schema key = some (base, type, op))
    (h' : target? schema key' = some (base', type', op')) :
    paramName standardSeparator base op = paramName standardSeparator base' op' := by
  cases clash with
  | bound declared undeclared paired base operator =>
    rw [target?_of_field? declared] at h
    cases h
    simp only [target?, undeclared, paired, Option.map_some, Option.some.injEq, Prod.mk.injEq] at h'
    rw [← h'.1, ← h'.2.2, base, operator]
  | spelled declared equality target _ name =>
    rw [target?_of_field? declared] at h
    rw [target] at h'
    cases h
    cases h'
    rw [equality, paramName, if_pos rfl, name]

/-- The name of a declared key under equality is only got by spelling it out. -/
theorem clash_of_paramName_eq (hop : op = .eq) (hop' : op' ≠ .eq)
    (h : target? schema key = some (base, type, op))
    (h' : target? schema key' = some (base', type', op'))
    (hname : paramName standardSeparator base op = paramName standardSeparator base' op') :
    Clash schema key key' := by
  rcases target?_cases h with ⟨f, hf, rfl, heq⟩ | ⟨bound, -, -, heq⟩
  · rw [hop, paramName, if_pos rfl] at hname
    exact .spelled hf (heq.symm.trans hop) h' hop' hname
  · exact absurd (heq.symm.trans hop) (operator_ne_eq bound)

/-- Two keys have one parameter exactly where one of them takes that of the other. -/
theorem paramName_eq_iff (hne : key ≠ key') (h : target? schema key = some (base, type, op))
    (h' : target? schema key' = some (base', type', op')) :
    paramName standardSeparator base op = paramName standardSeparator base' op' ↔
      Share schema key key' := by
  constructor
  · intro hname
    by_cases hop : op = .eq
    · by_cases hop' : op' = .eq
      · rw [hop, hop', paramName, paramName, if_pos rfl, if_pos rfl] at hname
        rcases target?_cases h with ⟨-, -, hbase, -⟩ | ⟨bound, -, -, heq⟩
        · rcases target?_cases h' with ⟨-, -, hbase', -⟩ | ⟨bound, -, -, heq⟩
          · exact absurd (hbase.symm.trans (hname.trans hbase')) hne
          · exact absurd (heq.symm.trans hop') (operator_ne_eq bound)
        · exact absurd (heq.symm.trans hop) (operator_ne_eq bound)
      · exact .inl (clash_of_paramName_eq hop hop' h h' hname)
    · by_cases hop' : op' = .eq
      · exact .inr (clash_of_paramName_eq hop' hop h' h hname.symm)
      · obtain ⟨rfl, rfl⟩ := paramName_inj hop hop' hname
        rcases target?_cases h with ⟨f, hf, hbase, heq⟩ | ⟨bound, hf, hpair, heq⟩
        · rcases target?_cases h' with ⟨f', hf', hbase', heq'⟩ | ⟨bound', hf', hpair', heq'⟩
          · exact absurd (hbase.symm.trans hbase') hne
          · exact .inl (.bound hf hf' hpair' hbase (heq'.symm.trans heq))
        · rcases target?_cases h' with ⟨f', hf', hbase', heq'⟩ | ⟨bound', hf', hpair', heq'⟩
          · exact .inr (.bound hf' hf hpair hbase' (heq.symm.trans heq'))
          · obtain rfl := operator_inj (heq.symm.trans heq')
            have hkey := key_of_pairedKey? hpair
            have hkey' := key_of_pairedKey? hpair'
            exact absurd (hkey.symm.trans hkey') hne
  · rintro (clash | clash)
    · exact clash.paramName_eq h h'
    · exact (clash.paramName_eq h' h).symm

/-- What the filters of a state emit, each with its key. -/
def keyedEmissions (schema : Schema) (s : State) : List (String × String × Param) :=
  s.activeFilters.filterMap fun (key, value) =>
    (filterEmission? standardSeparator schema key value).map fun e => (key, e)

variable {s : State}

theorem exists_target_of_mem {x : String × String × Param} (h : x ∈ keyedEmissions schema s) :
    ∃ base type op, target? schema x.1 = some (base, type, op) ∧
      x.2.1 = paramName standardSeparator base op := by
  obtain ⟨⟨key, value⟩, -, hx⟩ := List.mem_filterMap.mp h
  obtain ⟨e, he, rfl⟩ := Option.map_eq_some_iff.mp hx
  obtain ⟨⟨base, type, op⟩, htarget, he⟩ := Option.bind_eq_some_iff.mp he
  obtain ⟨p, -, hp⟩ := Option.bind_eq_some_iff.mp he
  cases hp
  exact ⟨base, type, op, htarget, rfl⟩

/-- Filters that emit share a parameter exactly where their keys do. -/
theorem name_eq_iff_share {x y : String × String × Param} (hx : x ∈ keyedEmissions schema s)
    (hy : y ∈ keyedEmissions schema s) (hne : x.1 ≠ y.1) :
    x.2.1 = y.2.1 ↔ Share schema x.1 y.1 := by
  obtain ⟨base, type, op, htarget, hname⟩ := exists_target_of_mem hx
  obtain ⟨base', type', op', htarget', hname'⟩ := exists_target_of_mem hy
  rw [hname, hname', paramName_eq_iff hne htarget htarget']

theorem keyedEmissions_pairwise (schema : Schema) (s : State) :
    (keyedEmissions schema s).Pairwise fun x y => x.1 ≠ y.1 := by
  have hkeys : s.activeFilters.Pairwise fun e e' => e.1 ≠ e'.1 :=
    (List.pairwise_map.mp s.filters.keys_nodup).sublist List.filter_sublist
  rw [keyedEmissions, List.pairwise_filterMap]
  refine hkeys.imp fun {e e'} hne x hx y hy => ?_
  obtain ⟨_, -, rfl⟩ := Option.map_eq_some_iff.mp hx
  obtain ⟨_, -, rfl⟩ := Option.map_eq_some_iff.mp hy
  exact hne

/-- What the filters of a state emit. -/
theorem map_snd_keyedEmissions (schema : Schema) (s : State) :
    (keyedEmissions schema s).map Prod.snd = (compiler standardSeparator schema).filters s := by
  rw [keyedEmissions, List.map_filterMap]
  refine List.filterMap_congr fun e _ => ?_
  simp [compiler]

/-- Every filter has a parameter of its own exactly where no two of them share one. -/
theorem nodup_names_iff (schema : Schema) (s : State) :
    (((keyedEmissions schema s).map Prod.snd).map Prod.fst).Nodup ↔
      (keyedEmissions schema s).Pairwise fun x y => ¬Share schema x.1 y.1 := by
  rw [List.map_map, List.Nodup, List.pairwise_map]
  have hkeys := keyedEmissions_pairwise schema s
  constructor
  · intro hnames
    refine (hnames.and hkeys).imp_of_mem fun hx hy ⟨hname, hne⟩ => ?_
    rwa [← name_eq_iff_share hx hy hne]
  · intro hshare
    refine (hshare.and hkeys).imp_of_mem fun hx hy ⟨hnot, hne⟩ hname => ?_
    exact hnot ((name_eq_iff_share hx hy hne).mp hname)

/-- A parameter that neither the date range nor the sort order emits has the value of the last
filter that emits it. -/
theorem get?_compile_of_split {before after : List (String × String × Param)} {key name : String}
    {p : Param} (h : keyedEmissions schema s = before ++ (key, name, p) :: after)
    (hlast : name ∉ (dateEmissions standardSeparator s.activeDateRange? ++
      Params.sortEmissions s.sort).map Prod.fst) :
    (compile standardSeparator schema s).get? name =
      ((after.map Prod.snd).reverse.lookup name).or (some p) := by
  have hfilters : ((compiler standardSeparator schema).filters s).reverse.lookup name =
      ((after.map Prod.snd).reverse.lookup name).or (some p) := by
    rw [← map_snd_keyedEmissions, h, List.map_append, List.map_cons, List.reverse_append,
      List.reverse_cons, List.append_assoc, List.lookup_append, List.singleton_append,
      List.lookup_cons_self]
  rw [Option.or_some] at hfilters ⊢
  rw [compile_eq]
  exact (compiler standardSeparator schema).get?_compile_of_final hlast hfilters

/-- Two filters are written under one name exactly where one of them takes the parameter of the
other, so that each filter has a parameter of its own exactly where no two of them share one. The
last of those that share a parameter decides its value. -/
theorem keyedEmissions_share (schema : Schema) (s : State) :
    (∀ x ∈ keyedEmissions schema s, ∀ y ∈ keyedEmissions schema s, x.1 ≠ y.1 →
      (x.2.1 = y.2.1 ↔ Share schema x.1 y.1)) ∧
    ((Params.ofEmissions ((keyedEmissions schema s).map Prod.snd)).entries =
        (keyedEmissions schema s).map Prod.snd ↔
      (keyedEmissions schema s).Pairwise fun x y => ¬Share schema x.1 y.1) ∧
    ∀ before after key name p, keyedEmissions schema s = before ++ (key, name, p) :: after →
      name ∉ (dateEmissions standardSeparator s.activeDateRange? ++
        Params.sortEmissions s.sort).map Prod.fst →
      ((∀ y ∈ after, ¬Share schema key y.1) →
        (compile standardSeparator schema s).get? name = some p) ∧
      ((∃ y ∈ after, Share schema key y.1) → ∃ y ∈ after, Share schema key y.1 ∧
        (compile standardSeparator schema s).get? name = some y.2.2) := by
  refine ⟨fun x hx y hy hne => name_eq_iff_share hx hy hne, ?_, ?_⟩
  · rw [Params.ofEmissions, OrderedMap.entries_ofList_iff, nodup_names_iff]
  · intro before after key name p h hlast
    have hkeys := keyedEmissions_pairwise schema s
    rw [h, List.pairwise_append, List.pairwise_cons] at hkeys
    have hmem : (key, name, p) ∈ keyedEmissions schema s := by simp [h]
    have hshare : ∀ y ∈ after, name = y.2.1 ↔ Share schema key y.1 := by
      intro y hy
      have hy' : y ∈ keyedEmissions schema s := by simp [h, hy]
      exact name_eq_iff_share hmem hy' (hkeys.2.1.1 y hy)
    rw [get?_compile_of_split h hlast]
    cases hlookup : (after.map Prod.snd).reverse.lookup name with
    | none =>
      refine ⟨fun _ => rfl, ?_⟩
      rintro ⟨y, hy, hyshare⟩
      have hname : name ∈ (after.map Prod.snd).map Prod.fst := by
        rw [(hshare y hy).mpr hyshare, List.map_map]
        exact List.mem_map_of_mem hy
      exact absurd hname (OrderedMap.lookup_reverse_eq_none_iff.mp hlookup)
    | some q =>
      obtain ⟨y, hy, hyq⟩ := List.mem_map.mp (OrderedMap.mem_of_lookup_reverse hlookup)
      have hyshare := (hshare y hy).mp (by rw [hyq])
      exact ⟨fun hnone => absurd hyshare (hnone y hy), fun _ => ⟨y, hy, hyshare, by rw [hyq]; rfl⟩⟩

/-- A schema with a key that spells the parameter of a bound. -/
def crateSchema : Schema :=
  { Schema.empty with
    filterFields := [Field.ofKey "stock" .number, Field.ofKey "stock__gte" .string] }

def crateState : State :=
  { State.empty with filters := .ofList [("stock__gte", .text "plenty"),
      ("stock", .number (.ofInt 7)), ("stock_min", .number (.ofInt 3))] }

theorem keyedEmissions_share_crates :
    let spelled := ("stock__gte", "stock__gte", Param.text "plenty")
    let stock := ("stock", "stock", Param.number (.ofInt 7))
    let bound := ("stock_min", "stock__gte", Param.number (.ofInt 3))
    keyedEmissions crateSchema crateState = [spelled, stock, bound] ∧
    Share crateSchema spelled.1 bound.1 ∧ ¬Share crateSchema stock.1 bound.1 ∧
    (compile standardSeparator crateSchema crateState).get? "stock" = some stock.2.2 ∧
    ∃ y ∈ [stock, bound], Share crateSchema spelled.1 y.1 ∧
      (compile standardSeparator crateSchema crateState).get? "stock__gte" = some y.2.2 := by
  intro spelled stock bound
  have hkeyed : keyedEmissions crateSchema crateState = [spelled, stock, bound] := by
    decide +kernel
  obtain ⟨hnames, -, hsplit⟩ := keyedEmissions_share crateSchema crateState
  rw [hkeyed] at hnames hsplit
  have hshare : Share crateSchema spelled.1 bound.1 :=
    (hnames spelled (by simp) bound (by simp) (by decide)).mp rfl
  have hapart : ¬Share crateSchema stock.1 bound.1 :=
    (not_congr (hnames stock (by simp) bound (by simp) (by decide))).mp (by decide)
  refine ⟨hkeyed, hshare, hapart, ?_, ?_⟩
  · exact (hsplit [spelled] [bound] _ _ _ rfl (by decide)).1 (by simpa using hapart)
  · exact (hsplit [] [stock, bound] _ _ _ rfl (by decide)).2 ⟨bound, by simp, hshare⟩

/-- A field of which the filters and those on its lower bound have one parameter. -/
def stockSchema : Schema :=
  { Schema.empty with filterFields := [⟨"stock", none, .number, some .gte, [], none⟩] }

def stockState : State :=
  { State.empty with filters := .ofList [("stock", .number (.ofInt 5)),
      ("stock_min", .number (.ofInt 3))] }

/-- Two filters that a list is narrowed by can leave one parameter. -/
theorem entries_compile_stock : stockSchema.validate = .ok () ∧
    keyedEmissions stockSchema stockState = [("stock", "stock__gte", .number (.ofInt 5)),
      ("stock_min", "stock__gte", .number (.ofInt 3))] ∧
    (compile standardSeparator stockSchema stockState).entries =
      [("stock__gte", .number (.ofInt 3))] ∧
    ((stockSchema.tests stockState).map fun t =>
      t.passes (.object [("stock", .number (.integer 4))])) = [false, true] := by
  refine ⟨rfl, ?_, ?_, ?_⟩
  · decide +kernel
  · decide +kernel
  · decide +kernel

end SuffixedQuery

end Listing
