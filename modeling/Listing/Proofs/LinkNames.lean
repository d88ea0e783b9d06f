import Listing.Proofs.LinkNormalForm

namespace Listing

namespace OrderedMap

/-- Keys are put into a map in the order in which they are first given. -/
theorem foldl_addKey_sublist (keys given : List String) :
    ∃ added, given.foldl addKey keys = keys ++ added ∧ added.Sublist given := by
  induction given generalizing keys with
  | nil => exact ⟨[], (List.append_nil keys).symm, .slnil⟩
  | cons key rest ih =>
    obtain ⟨added, heq, hsub⟩ := ih (addKey keys key)
    rw [List.foldl_cons, heq, addKey]
    by_cases hkey : key ∈ keys
    · exact ⟨added, by rw [if_pos hkey], hsub.cons key⟩
    · refine ⟨key :: added, ?_, hsub.cons_cons key⟩
      rw [if_neg hkey, List.append_assoc, List.singleton_append]

end OrderedMap

namespace Link

variable {schema : Schema} {before after : List (String × String)} {name : String}

theorem readPairs_eq_of_lookup {pairs pairs' : List (String × String)}
    (h : ∀ name ∈ names schema, pairs.lookup name = pairs'.lookup name) :
    readPairs schema pairs = readPairs schema pairs' := by
  apply readPairs_congr
  intro name hname
  rw [valueOf?, valueOf?, h name hname]

/-- A pair speaks at its name only, and only if no pair before it has the name. -/
theorem lookup_between (before after : List (String × String)) (pair : String × String)
    (name : String) :
    (before ++ pair :: after).lookup name =
      (before.lookup name).or (if name = pair.1 then some pair.2 else after.lookup name) := by
  obtain ⟨key, value⟩ := pair
  rw [List.lookup_append, List.lookup_cons]
  by_cases hname : name = key
  · simp [hname]
  · have hb : (name == key) = false := by simpa using hname
    simp [hname, hb]

/-- Neither undeclared names nor repetitions are read. -/
theorem readPairs_insert {pair : String × String}
    (h : pair.1 ∉ names schema ∨ pair.1 ∈ before.map Prod.fst) :
    readPairs schema (before ++ pair :: after) = readPairs schema (before ++ after) := by
  apply readPairs_eq_of_lookup
  intro name hname
  rw [lookup_between, List.lookup_append]
  split
  next heq =>
    subst heq
    have hmem : pair.1 ∈ before.map Prod.fst := h.resolve_left fun hnot => hnot hname
    cases hfirst : before.lookup pair.1 with
    | none => exact absurd hmem (OrderedMap.lookup_eq_none_iff.mp hfirst)
    | some value => rfl
  next => rfl

theorem readPairs_swap {a b : String × String} (h : a.1 ≠ b.1) :
    readPairs schema (before ++ a :: b :: after) =
      readPairs schema (before ++ b :: a :: after) := by
  apply readPairs_eq_of_lookup
  intro name _
  have hrest : ∀ pair : String × String, (pair :: after).lookup name =
      if name = pair.1 then some pair.2 else after.lookup name := fun pair =>
    lookup_between [] after pair name
  rw [lookup_between, lookup_between, hrest, hrest]
  by_cases ha : name = a.1
  · have hb : name ≠ b.1 := fun hb => h (ha.symm.trans hb)
    rw [if_pos ha, if_neg hb, if_pos ha]
  · rw [if_neg ha, if_neg ha]

/-- An empty value is read as no value, also where the name is repeated. -/
theorem readPairs_empty (h : name ∉ before.map Prod.fst) :
    readPairs schema (before ++ (name, "") :: after) =
      readPairs schema (before ++ after.filter fun pair => pair.1 ≠ name) := by
  apply readPairs_congr
  intro name' _
  rw [valueOf?, valueOf?, lookup_between, List.lookup_append, OrderedMap.lookup_filter_ne]
  by_cases hname : name' = name
  · subst hname
    rw [OrderedMap.lookup_eq_none_iff.mpr h, if_pos rfl, if_pos rfl]
    rfl
  · rw [if_neg hname, if_neg hname]

/-- The filters of a link stand in the order of the names that the schema can read. -/
theorem keys_readFilters_sublist (schema : Schema) (pairs : List (String × String)) :
    (readFilters schema pairs).keys.Sublist
      (schema.filterFields.flatMap (readableKeys schema)) := by
  obtain ⟨added, hkeys, hsub⟩ := OrderedMap.foldl_addKey_sublist [] (givenKeys schema pairs)
  rw [keys_readFilters, hkeys, List.nil_append]
  refine hsub.trans ?_
  exact List.Sublist.flatMap_right _ fun f _ => List.filter_sublist

theorem mem_keys_readFilters {pairs : List (String × String)} {key : String} :
    key ∈ (readFilters schema pairs).keys ↔ ∃ f ∈ schema.filterFields,
      key ∈ readableKeys schema f ∧
        ∃ raw, valueOf? pairs key = some raw ∧ (readValue? f raw).isSome = true := by
  rw [OrderedMap.mem_keys_iff, ← Option.isSome_iff_exists, get?_readFilters,
    List.findSome?_isSome_iff]
  refine exists_congr fun f => and_congr_right fun _ => ?_
  by_cases hkey : key ∈ readableKeys schema f
  · cases valueOf? pairs key <;> simp [hkey]
  · simp [hkey]

/-- Links are read through the first occurrences of their names. What else a link has, where it
repeats a name and in which order different names come says nothing, and its filters stand in the
order of the schema. -/
theorem readPairs_names (schema : Schema) :
    (∀ pairs pairs' : List (String × String),
      (∀ name ∈ names schema, pairs.lookup name = pairs'.lookup name) →
        readPairs schema pairs = readPairs schema pairs') ∧
    (∀ before after pair, pair.1 ∉ names schema ∨ pair.1 ∈ before.map Prod.fst →
      readPairs schema (before ++ pair :: after) = readPairs schema (before ++ after)) ∧
    (∀ (before after : List (String × String)) (a b : String × String), a.1 ≠ b.1 →
      readPairs schema (before ++ a :: b :: after) =
        readPairs schema (before ++ b :: a :: after)) ∧
    (∀ before after name, name ∉ before.map Prod.fst →
      readPairs schema (before ++ (name, "") :: after) =
        readPairs schema (before ++ after.filter fun pair => pair.1 ≠ name)) ∧
    ∀ pairs,
      (readPairs schema pairs).filters.keys.Sublist
        (schema.filterFields.flatMap (readableKeys schema)) ∧
      ∀ key, key ∈ (readPairs schema pairs).filters.keys ↔ ∃ f ∈ schema.filterFields,
        key ∈ readableKeys schema f ∧
          ∃ raw, valueOf? pairs key = some raw ∧ (readValue? f raw).isSome = true := by
  refine ⟨?_, ?_, ?_, ?_, ?_⟩
  · exact fun _ _ h => readPairs_eq_of_lookup h
  · exact fun _ _ _ h => readPairs_insert h
  · exact fun _ _ _ _ h => readPairs_swap h
  · exact fun _ _ _ h => readPairs_empty h
  · exact fun pairs => ⟨keys_readFilters_sublist schema pairs, fun _ => mem_keys_readFilters⟩

/-- Pairs with an unknown name, a repeated one and one that is empty at first. -/
def museumPairs : List (String × String) :=
  [("open", ""), ("room", "1"), ("price", "1e2"), ("tags", "a"), ("open", "yes"), ("price", "7")]

theorem readPairs_names_museums :
    (∀ name ∈ names museumSchema,
      museumPairs.lookup name = [("tags", "a"), ("open", ""), ("price", "1e2")].lookup name) ∧
    readPairs museumSchema museumPairs =
      readPairs museumSchema [("tags", "a"), ("open", ""), ("price", "1e2")] ∧
    "room" ∉ names museumSchema ∧
    readPairs museumSchema ([("open", "")] ++ ("room", "1") :: museumPairs.drop 2) =
      readPairs museumSchema ([("open", "")] ++ museumPairs.drop 2) ∧
    readPairs museumSchema (museumPairs.take 2 ++ ("price", "1e2") :: ("tags", "a") ::
        museumPairs.drop 4) =
      readPairs museumSchema (museumPairs.take 2 ++ ("tags", "a") :: ("price", "1e2") ::
        museumPairs.drop 4) ∧
    readPairs museumSchema ([] ++ ("open", "") :: museumPairs.drop 1) =
      readPairs museumSchema ([] ++ (museumPairs.drop 1).filter fun pair => pair.1 ≠ "open") ∧
    (readPairs museumSchema museumPairs).filters.keys = ["tags", "price"] := by
  obtain ⟨hagree, hinsert, hswap, hempty, -⟩ := readPairs_names museumSchema
  have hlookup : ∀ name ∈ names museumSchema,
      museumPairs.lookup name = [("tags", "a"), ("open", ""), ("price", "1e2")].lookup name := by
    decide +kernel
  have hroom : "room" ∉ names museumSchema := by decide +kernel
  exact ⟨hlookup, hagree _ _ hlookup, hroom, hinsert _ _ _ (.inl hroom),
    hswap _ _ _ _ (by decide), hempty _ _ _ List.not_mem_nil, by decide +kernel⟩

end Link

end Listing
