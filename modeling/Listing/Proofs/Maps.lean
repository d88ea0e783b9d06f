import Mathlib.Data.List.Induction
import Mathlib.Data.List.Nodup
import Mathlib.Data.List.Perm.Subperm
import Listing.OrderedMap

namespace Listing

section Rel

variable {α β γ δ : Type} {R : α → β → Prop} {x : Option α} {y : Option β}

theorem exists_of_rel_some {a : α} (h : Option.Rel R (some a) y) : ∃ b, y = some b ∧ R a b := by
  cases h with
  | some hab => exact ⟨_, rfl, hab⟩

theorem isSome_eq_of_rel (h : Option.Rel R x y) : x.isSome = y.isSome := by
  cases h with
  | none => rfl
  | some => rfl

theorem rel_map {S : γ → δ → Prop} {f : α → γ} {g : β → δ} (h : Option.Rel R x y)
    (hRS : ∀ a b, R a b → S (f a) (g b)) : Option.Rel S (x.map f) (y.map g) := by
  cases h with
  | none => exact .none
  | some hab => exact .some (hRS _ _ hab)

theorem rel_swap {S : β → α → Prop} (h : Option.Rel R x y) (hRS : ∀ a b, R a b → S b a) :
    Option.Rel S y x := by
  cases h with
  | none => exact .none
  | some hab => exact .some (hRS _ _ hab)

theorem rel_left {S : α → α → Prop} (h : Option.Rel R x y) (hRS : ∀ a b, R a b → S a a) :
    Option.Rel S x x := by
  cases h with
  | none => exact .none
  | some hab => exact .some (hRS _ _ hab)

end Rel

namespace OrderedMap

variable {α : Type}

theorem lookup_eq_some_iff_mem {entries : List (String × α)} (h : (entries.map Prod.fst).Nodup)
    {key : String} {value : α} : entries.lookup key = some value ↔ (key, value) ∈ entries := by
  induction entries with
  | nil => simp
  | cons entry rest ih =>
    obtain ⟨k, v⟩ := entry
    rw [List.map_cons, List.nodup_cons] at h
    by_cases hk : key = k
    · subst k
      simp only [List.lookup_cons_self, Option.some.injEq, List.mem_cons, Prod.mk.injEq, true_and]
      refine ⟨fun hv => .inl hv.symm, fun hm => hm.elim Eq.symm fun hm => ?_⟩
      exact absurd (List.mem_map_of_mem (f := Prod.fst) hm) h.1
    · have hb : (key == k) = false := by simpa using hk
      simp [List.lookup_cons, hb, hk, ih h.2]

theorem get?_eq_some_iff {m : OrderedMap α} {key : String} {value : α} :
    m.get? key = some value ↔ (key, value) ∈ m.entries :=
  lookup_eq_some_iff_mem m.keys_nodup

theorem mem_keys_iff {m : OrderedMap α} {key : String} :
    key ∈ m.keys ↔ ∃ value, m.get? key = some value := by
  simp only [keys, List.mem_map, get?_eq_some_iff, Prod.exists, exists_and_right, exists_eq_right]

theorem get?_eq_none_iff {m : OrderedMap α} {key : String} : m.get? key = none ↔ key ∉ m.keys := by
  rw [mem_keys_iff, Option.eq_none_iff_forall_ne_some, not_exists]

theorem filter_entries_of_get? {m : OrderedMap α} {key : String} {value : α}
    (h : m.get? key = some value) : (m.entries.filter fun e => e.1 = key) = [(key, value)] := by
  obtain ⟨before, after, hentries⟩ := List.append_of_mem (get?_eq_some_iff.mp h)
  have hnodup := m.keys_nodup
  rw [hentries, List.map_append, List.map_cons, List.nodup_middle, List.nodup_cons,
    List.mem_append, not_or] at hnodup
  have hnone : ∀ entries : List (String × α), key ∉ entries.map Prod.fst →
      (entries.filter fun e => e.1 = key) = [] := by
    intro entries hkey
    refine List.filter_eq_nil_iff.mpr fun e he heq => hkey ?_
    exact List.mem_map.mpr ⟨e, he, of_decide_eq_true heq⟩
  rw [hentries, List.filter_append, List.filter_cons, hnone before hnodup.1.1,
    hnone after hnodup.1.2]
  simp

/-- A key that is not there is put at the end. -/
theorem entries_insert_of_not_mem {m : OrderedMap α} {key : String} (h : key ∉ m.keys)
    (value : α) : (m.insert key value).entries = m.entries ++ [(key, value)] := by
  have hput : ∀ entries : List (String × α), key ∉ entries.map Prod.fst →
      put key value entries = entries ++ [(key, value)] := by
    intro entries hkey
    induction entries with
    | nil => rfl
    | cons entry rest ih =>
      obtain ⟨k, v⟩ := entry
      simp only [List.map_cons, List.mem_cons, not_or] at hkey
      have hk : ¬k = key := fun hk => hkey.1 hk.symm
      simp [put, hk, ih hkey.2]
  exact hput m.entries h

theorem get?_filter (m : OrderedMap α) (keep : String × α → Bool) (key : String) :
    (m.filter keep).get? key = (m.get? key).filter fun value => keep (key, value) := by
  apply Option.ext
  intro value
  rw [get?_eq_some_iff, Option.filter_eq_some_iff, get?_eq_some_iff]
  exact List.mem_filter

theorem get?_insertNew (m : OrderedMap α) (key : String) (value : α) (k : String) :
    (m.insertNew key value).get? k = (m.get? k).or (if k = key then some value else none) := by
  unfold insertNew
  split
  next h =>
    by_cases hk : k = key
    · subst k
      obtain ⟨v, hv⟩ := Option.isSome_iff_exists.mp h
      simp [hv]
    · simp [hk]
  next h =>
    rw [get?_insert]
    by_cases hk : k = key
    · subst k
      have hn : m.get? key = none := by simpa [contains] using h
      simp [hn]
    · simp [hk]

/-- Entries put in unless their key is there leave each key its first value. -/
theorem get?_foldl_insertNew (given : List (String × α)) (m : OrderedMap α) (key : String) :
    (given.foldl (fun m (k, v) => m.insertNew k v) m).get? key =
      (m.get? key).or (given.lookup key) := by
  induction given generalizing m with
  | nil => simp
  | cons entry rest ih =>
    obtain ⟨k, v⟩ := entry
    rw [List.foldl_cons, ih, get?_insertNew, Option.or_assoc]
    congr 1
    by_cases hk : key = k
    · simp [hk]
    · have hb : (key == k) = false := by simpa using hk
      simp [hk, List.lookup_cons, hb]

theorem get?_foldl_insert (entries : List (String × α)) (m : OrderedMap α) (key : String) :
    (entries.foldl (fun m (k, v) => m.insert k v) m).get? key =
      (entries.reverse.lookup key).or (m.get? key) := by
  induction entries generalizing m with
  | nil => simp
  | cons entry rest ih =>
    obtain ⟨k, v⟩ := entry
    rw [List.foldl_cons, ih, get?_insert, List.reverse_cons, List.lookup_append, Option.or_assoc]
    congr 1
    by_cases hk : key = k
    · simp [hk]
    · have hb : (key == k) = false := by simpa using hk
      simp [hk, List.lookup_cons, hb]

/-- The map of some entries has the last value of each key. -/
theorem get?_ofList (entries : List (String × α)) (key : String) :
    (ofList entries).get? key = entries.reverse.lookup key := by
  have hempty : (empty : OrderedMap α).get? key = none := rfl
  rw [ofList, get?_foldl_insert, hempty, Option.or_none]

theorem lookup_eq_none_iff {entries : List (String × α)} {key : String} :
    entries.lookup key = none ↔ key ∉ entries.map Prod.fst := by
  rw [List.lookup_eq_none_iff, List.mem_map]
  simp only [bne_iff_ne]
  constructor
  · rintro h ⟨e, he, rfl⟩
    exact h e he rfl
  · rintro h e he rfl
    exact h ⟨e, he, rfl⟩

theorem lookup_reverse_eq_none_iff {entries : List (String × α)} {key : String} :
    entries.reverse.lookup key = none ↔ key ∉ entries.map Prod.fst := by
  rw [lookup_eq_none_iff, List.map_reverse, List.mem_reverse]

theorem mem_of_lookup_reverse {entries : List (String × α)} {key : String} {value : α}
    (h : entries.reverse.lookup key = some value) : (key, value) ∈ entries := by
  obtain ⟨before, after, heq, -⟩ := List.lookup_eq_some_iff.mp h
  rw [← List.mem_reverse, heq]
  simp

/-- Entries make a map as they are exactly when no key is repeated. -/
theorem entries_ofList_iff {entries : List (String × α)} :
    (ofList entries).entries = entries ↔ (entries.map Prod.fst).Nodup := by
  constructor
  · intro h
    rw [← h]
    exact (ofList entries).keys_nodup
  · intro h
    have hfold : ∀ (rest : List (String × α)) (m : OrderedMap α),
        ((m.entries ++ rest).map Prod.fst).Nodup →
          (rest.foldl (fun m e => m.insert e.1 e.2) m).entries = m.entries ++ rest := by
      intro rest
      induction rest with
      | nil => exact fun m _ => (List.append_nil _).symm
      | cons entry rest ih =>
        obtain ⟨key, value⟩ := entry
        intro m hnodup
        have hkey : key ∉ m.keys := by
          rw [List.map_append, List.map_cons, List.nodup_middle, List.nodup_cons, List.mem_append,
            not_or] at hnodup
          exact hnodup.1.1
        have hentries := entries_insert_of_not_mem hkey value
        rw [List.foldl_cons, ih]
        · rw [hentries, List.append_assoc, List.singleton_append]
        · rwa [hentries, List.append_assoc, List.singleton_append]
    exact hfold entries empty h

theorem ofList_concat (entries : List (String × α)) (entry : String × α) :
    ofList (entries ++ [entry]) = (ofList entries).insert entry.1 entry.2 := by
  simp [ofList, List.foldl_append]

theorem mem_keys_ofList (entries : List (String × α)) (key : String) :
    key ∈ (ofList entries).keys ↔ key ∈ entries.map Prod.fst := by
  have hnone : key ∉ (ofList entries).keys ↔ key ∉ entries.map Prod.fst := by
    rw [← get?_eq_none_iff, get?_ofList, lookup_reverse_eq_none_iff]
  exact not_iff_not.mp hnone

/-- The keys of the map of some entries stand in the order in which they first came. -/
theorem keys_ofList_pairwise (entries : List (String × α)) :
    (ofList entries).keys.Pairwise fun a b =>
      (entries.map Prod.fst).idxOf a < (entries.map Prod.fst).idxOf b := by
  induction entries using List.reverseRecOn with
  | nil => exact .nil
  | append_singleton entries entry ih =>
    have hmem := mem_keys_ofList entries
    have hold : (ofList entries).keys.Pairwise fun a b =>
        ((entries ++ [entry]).map Prod.fst).idxOf a < ((entries ++ [entry]).map Prod.fst).idxOf b := by
      refine ih.imp_of_mem fun ha hb hlt => ?_
      rw [List.map_append, List.idxOf_append_of_mem ((hmem _).mp ha),
        List.idxOf_append_of_mem ((hmem _).mp hb)]
      exact hlt
    rw [ofList_concat, keys_insert]
    split
    next => exact hold
    next hnew =>
      have hnew : entry.1 ∉ entries.map Prod.fst := fun h => hnew ((hmem _).mpr h)
      refine List.pairwise_append.mpr ⟨hold, List.pairwise_singleton _ _, ?_⟩
      intro a ha b hb
      have hb : b = entry.1 := by simpa using hb
      have hlt := List.idxOf_lt_length_of_mem ((hmem a).mp ha)
      rw [hb, List.map_append, List.idxOf_append_of_mem ((hmem a).mp ha),
        List.idxOf_append_of_notMem hnew]
      omega

/-- The last entry of a key, with which the reversed list begins for it. -/
theorem lookup_reverse_eq_some_iff {entries : List (String × α)} {key : String} {value : α} :
    entries.reverse.lookup key = some value ↔
      ∃ before after, entries = before ++ (key, value) :: after ∧ key ∉ after.map Prod.fst := by
  constructor
  · intro h
    induction entries using List.reverseRecOn with
    | nil => cases h
    | append_singleton entries entry ih =>
      obtain ⟨k, v⟩ := entry
      rw [List.reverse_append, List.reverse_singleton, List.singleton_append, List.lookup_cons] at h
      by_cases hk : key = k
      · subst k
        have hv : v = value := by simpa using h
        exact ⟨entries, [], by rw [hv], by simp⟩
      · have hb : (key == k) = false := by simpa using hk
        rw [hb] at h
        obtain ⟨before, after, heq, hafter⟩ := ih h
        refine ⟨before, after ++ [(k, v)], by simp [heq], ?_⟩
        simpa [hk] using hafter
  · rintro ⟨before, after, rfl, hafter⟩
    have hnone := lookup_reverse_eq_none_iff.mpr hafter
    simp [List.lookup_append, hnone]

/-- The last of the entries made along a row that have a key. -/
theorem lookup_reverse_filterMap_eq_some_iff {ι : Type} {f : ι → Option (String × α)} {xs : List ι}
    {key : String} {value : α} :
    (xs.filterMap f).reverse.lookup key = some value ↔
      ∃ before x after, xs = before ++ x :: after ∧ f x = some (key, value) ∧
        ∀ y ∈ after, ∀ e, f y = some e → e.1 ≠ key := by
  rw [lookup_reverse_eq_some_iff]
  constructor
  · rintro ⟨before, after, heq, hafter⟩
    obtain ⟨xs₁, rest, rfl, -, hrest⟩ := List.filterMap_eq_append_iff.mp heq
    obtain ⟨xs₂, x, xs₃, rfl, -, hx, rfl⟩ := List.filterMap_eq_cons_iff.mp hrest
    refine ⟨xs₁ ++ xs₂, x, xs₃, by simp, hx, ?_⟩
    rintro y hy e he rfl
    exact hafter (List.mem_map_of_mem (List.mem_filterMap.mpr ⟨y, hy, he⟩))
  · rintro ⟨before, x, after, rfl, hx, hafter⟩
    refine ⟨before.filterMap f, after.filterMap f, by simp [hx], ?_⟩
    intro hkey
    obtain ⟨e, he, rfl⟩ := List.mem_map.mp hkey
    obtain ⟨y, hy, he⟩ := List.mem_filterMap.mp he
    exact hafter y hy e he rfl

/-- The order of the keys depends on no value. -/
theorem keys_ofList_congr {entries entries' : List (String × α)}
    (h : entries.map Prod.fst = entries'.map Prod.fst) :
    (ofList entries).keys = (ofList entries').keys := by
  induction entries using List.reverseRecOn generalizing entries' with
  | nil =>
    obtain rfl := List.map_eq_nil_iff.mp h.symm
    rfl
  | append_singleton entries entry ih =>
    rw [List.map_append] at h
    obtain ⟨entries', last, rfl, hentries, hlast⟩ := List.map_eq_append_iff.mp h.symm
    obtain ⟨entry', rfl, hkey⟩ := List.map_eq_singleton_iff.mp hlast
    rw [ofList_concat, ofList_concat, keys_insert, keys_insert, ih hentries.symm, hkey]

/-- Maps with the same keys in the same order are told apart by a value. -/
theorem eq_of_get? {m n : OrderedMap α} (hkeys : m.keys = n.keys)
    (hget : ∀ key, m.get? key = n.get? key) : m = n := by
  have hlen : m.entries.length = n.entries.length := by
    simpa only [keys, List.length_map] using congrArg List.length hkeys
  refine ext (List.ext_getElem hlen fun i hm hn => ?_)
  have hkey : (m.entries[i]).1 = (n.entries[i]).1 := by
    have hi := congrArg (·[i]?) hkeys
    simpa [keys, hm, hn] using hi
  have hvalue : m.get? m.entries[i].1 = some m.entries[i].2 :=
    get?_eq_some_iff.mpr (List.getElem_mem hm)
  have hvalue' : n.get? n.entries[i].1 = some n.entries[i].2 :=
    get?_eq_some_iff.mpr (List.getElem_mem hn)
  rw [hget, hkey, hvalue'] at hvalue
  exact Prod.ext hkey (Option.some.inj hvalue).symm

theorem lookup_flatMap {ι : Type} (rows : List ι) (row : ι → List (String × α)) (key : String) :
    (rows.flatMap row).lookup key = rows.findSome? fun i => (row i).lookup key := by
  induction rows with
  | nil => rfl
  | cons i rows ih =>
    rw [List.flatMap_cons, List.lookup_append, ih, List.findSome?_cons]
    cases (row i).lookup key <;> rfl

/-- Maps are the same when they have the same keys with the same values, in whatever order. -/
theorem sameBy_iff {eq : α → α → Bool} {m n : OrderedMap α} :
    m.sameBy eq n = true ↔
      ∀ key, Option.Rel (fun v w => eq v w = true) (m.get? key) (n.get? key) := by
  have hentries : (m.entries.all fun (key, value) => (n.get? key).any (eq value)) = true ↔
      ∀ key value, m.get? key = some value → ∃ w, n.get? key = some w ∧ eq value w = true := by
    simp only [List.all_eq_true, Prod.forall, Option.any_eq_true, get?_eq_some_iff]
  have hlen : ∀ o : OrderedMap α, o.size = o.keys.length := fun o => (List.length_map Prod.fst).symm
  rw [sameBy, Bool.and_eq_true, hentries, beq_iff_eq, hlen, hlen]
  constructor
  · rintro ⟨hsize, h⟩ key
    have hsub : m.keys ⊆ n.keys := by
      intro k hk
      obtain ⟨v, hv⟩ := mem_keys_iff.mp hk
      obtain ⟨w, hw, -⟩ := h k v hv
      exact mem_keys_iff.mpr ⟨w, hw⟩
    -- Equal sizes turn the inclusion of the keys into a permutation.
    have hperm : m.keys.Perm n.keys :=
      (m.keys_nodup.subperm hsub).perm_of_length_le (Nat.le_of_eq hsize.symm)
    cases hm : m.get? key with
    | some v =>
      obtain ⟨w, hw, he⟩ := h key v hm
      rw [hw]
      exact .some he
    | none =>
      have hn : n.get? key = none :=
        get?_eq_none_iff.mpr fun hk => get?_eq_none_iff.mp hm (hperm.mem_iff.mpr hk)
      rw [hn]
      exact .none
  · intro h
    have hmem : ∀ key, key ∈ m.keys ↔ key ∈ n.keys := by
      intro key
      rw [mem_keys_iff, mem_keys_iff]
      have hrel := h key
      generalize m.get? key = x at hrel
      generalize n.get? key = y at hrel
      cases hrel with
      | some => simp
      | none => simp
    refine ⟨((List.perm_ext_iff_of_nodup m.keys_nodup n.keys_nodup).mpr hmem).length_eq, ?_⟩
    intro key v hv
    have hrel := h key
    rw [hv] at hrel
    exact exists_of_rel_some hrel

end OrderedMap

end Listing
