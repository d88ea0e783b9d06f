namespace Listing

/-- A map from texts that keeps the order in which its keys came. -/
structure OrderedMap (α : Type) where
  entries : List (String × α)
  keys_nodup : (entries.map Prod.fst).Nodup

namespace OrderedMap

variable {α : Type}

def keys (m : OrderedMap α) : List String := m.entries.map Prod.fst

def size (m : OrderedMap α) : Nat := m.entries.length

def get? (m : OrderedMap α) (key : String) : Option α := m.entries.lookup key

def contains (m : OrderedMap α) (key : String) : Bool := (m.get? key).isSome

def empty : OrderedMap α := ⟨[], List.nodup_nil⟩

instance : EmptyCollection (OrderedMap α) := ⟨empty⟩

theorem ext {m n : OrderedMap α} (h : m.entries = n.entries) : m = n := by
  cases m
  cases n
  cases h
  rfl

/-- Gives a key a value: in its place if the key is there, else at the end. -/
def put (key : String) (value : α) : List (String × α) → List (String × α)
  | [] => [(key, value)]
  | (k, v) :: rest => if k = key then (key, value) :: rest else (k, v) :: put key value rest

theorem map_fst_put (key : String) (value : α) (entries : List (String × α)) :
    (put key value entries).map Prod.fst =
      if key ∈ entries.map Prod.fst then entries.map Prod.fst
      else entries.map Prod.fst ++ [key] := by
  induction entries with
  | nil => simp [put]
  | cons entry rest ih =>
    obtain ⟨k, v⟩ := entry
    by_cases hk : k = key
    · simp [put, hk]
    · have hk' : key ≠ k := fun h => hk h.symm
      by_cases hm : key ∈ rest.map Prod.fst
      · simp only [put, hk, if_false, List.map_cons, ih, hm, if_true]
        simp [hm]
      · simp only [put, hk, if_false, List.map_cons, ih, hm]
        simp [hk', hm]

theorem nodup_map_fst_put {entries : List (String × α)} (h : (entries.map Prod.fst).Nodup)
    (key : String) (value : α) : ((put key value entries).map Prod.fst).Nodup := by
  rw [map_fst_put]
  split
  next => exact h
  next hm =>
    refine List.nodup_append.mpr ⟨h, by simp, ?_⟩
    intro a ha b hb
    have hbk : b = key := by simpa using hb
    intro hab
    exact hm (hbk ▸ hab ▸ ha)

def insert (m : OrderedMap α) (key : String) (value : α) : OrderedMap α :=
  ⟨put key value m.entries, nodup_map_fst_put m.keys_nodup key value⟩

/-- Gives a key a value unless it has one. -/
def insertNew (m : OrderedMap α) (key : String) (value : α) : OrderedMap α :=
  if m.contains key then m else m.insert key value

theorem nodup_map_fst_filter {entries : List (String × α)} (h : (entries.map Prod.fst).Nodup)
    (keep : String × α → Bool) : ((entries.filter keep).map Prod.fst).Nodup :=
  h.sublist (List.filter_sublist.map Prod.fst)

/-- The entries that pass a test, in their order. -/
def filter (m : OrderedMap α) (keep : String × α → Bool) : OrderedMap α :=
  ⟨m.entries.filter keep, nodup_map_fst_filter m.keys_nodup keep⟩

/-- Takes a key away; the others keep their order. -/
def erase (m : OrderedMap α) (key : String) : OrderedMap α := m.filter fun (k, _) => k ≠ key

/-- The map of some entries, in which a repeated key keeps its first place and takes its last
value. -/
def ofList (entries : List (String × α)) : OrderedMap α :=
  entries.foldl (fun m (key, value) => m.insert key value) empty

/-- Whether two maps have the same keys with values that `eq` accepts, in any order. -/
def sameBy (eq : α → α → Bool) (m n : OrderedMap α) : Bool :=
  m.size == n.size && m.entries.all fun (key, value) => (n.get? key).any (eq value)

theorem keys_insert (m : OrderedMap α) (key : String) (value : α) :
    (m.insert key value).keys = if key ∈ m.keys then m.keys else m.keys ++ [key] :=
  map_fst_put key value m.entries

theorem lookup_put (key : String) (value : α) (entries : List (String × α)) (k : String) :
    (put key value entries).lookup k = if k = key then some value else entries.lookup k := by
  induction entries with
  | nil =>
    by_cases hk : k = key
    · simp [put, hk]
    · have hb : (k == key) = false := by simpa using hk
      simp [put, hk, List.lookup_cons, hb]
  | cons entry rest ih =>
    obtain ⟨k', v⟩ := entry
    by_cases hk' : k' = key
    · subst hk'
      by_cases hk : k = k'
      · simp [put, hk]
      · have hb : (k == k') = false := by simpa using hk
        simp [put, hk, List.lookup_cons, hb]
    · by_cases hk : k = k'
      · have hne : k ≠ key := fun h => hk' (hk ▸ h)
        have hb : (k == k') = true := by simpa using hk
        simp [put, hk', hne, List.lookup_cons, hb]
      · have hb : (k == k') = false := by simpa using hk
        simp [put, hk', List.lookup_cons, hb, ih]

theorem get?_insert (m : OrderedMap α) (key : String) (value : α) (k : String) :
    (m.insert key value).get? k = if k = key then some value else m.get? k :=
  lookup_put key value m.entries k

theorem keys_erase (m : OrderedMap α) (key : String) :
    (m.erase key).keys = m.keys.filter fun k => k ≠ key := by
  simp only [keys, erase, filter, List.filter_map]
  rfl

theorem lookup_filter_ne (entries : List (String × α)) (key k : String) :
    (entries.filter fun e => e.1 ≠ key).lookup k =
      if k = key then none else entries.lookup k := by
  induction entries with
  | nil => simp
  | cons entry rest ih =>
    obtain ⟨k', v⟩ := entry
    by_cases hk' : k' = key
    · have hf : (((k', v) :: rest).filter fun e : String × α => e.1 ≠ key) =
          rest.filter fun e => e.1 ≠ key := by simp [hk']
      rw [hf, ih]
      by_cases hk : k = key
      · simp [hk]
      · have hb : (k == k') = false := by simpa [hk'] using hk
        simp [hk, List.lookup_cons, hb]
    · have hf : (((k', v) :: rest).filter fun e : String × α => e.1 ≠ key) =
          (k', v) :: rest.filter fun e => e.1 ≠ key := by simp [hk']
      rw [hf]
      by_cases hk : k = k'
      · have hb : (k == k') = true := by simpa using hk
        have hne : k ≠ key := fun h => hk' (hk ▸ h)
        simp [List.lookup_cons, hb, hne]
      · have hb : (k == k') = false := by simpa using hk
        simp only [List.lookup_cons, hb, ih]

theorem get?_erase (m : OrderedMap α) (key k : String) :
    (m.erase key).get? k = if k = key then none else m.get? k :=
  lookup_filter_ne m.entries key k

end OrderedMap

end Listing
