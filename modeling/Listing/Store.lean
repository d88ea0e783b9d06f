import Listing.Narrowing
import Listing.Page

namespace Listing

/-- A way to a list of entries: the family, whose handles share the list, and the schema that the
list is queried with. -/
structure Handle where
  family : Nat
  schema : Schema

/-- Lists of entries that are read and written through handles. Every handle belongs to a family,
and the handles of a family share one list. -/
structure Store (α : Type) where
  families : List (List (Entry α))
  handles : List Handle
  family_lt : ∀ handle ∈ handles, handle.family < families.length

namespace Store

variable {α : Type}

def empty : Store α := ⟨[], [], by simp⟩

/-- Adds a handle of a new family that has no entries. -/
def add (store : Store α) (schema : Schema) : Store α where
  families := store.families ++ [[]]
  handles := store.handles ++ [⟨store.families.length, schema⟩]
  family_lt handle h := by
    rw [List.length_append]
    rcases List.mem_append.mp h with hold | hnew
    · exact Nat.lt_add_right _ (store.family_lt handle hold)
    · rw [List.mem_singleton.mp hnew]
      exact Nat.lt_add_one _

/-- Adds a handle of the same family, with the same schema. -/
def clone (store : Store α) (handle : Nat) : Store α where
  families := store.families
  handles := store.handles ++ store.handles[handle]?.toList
  family_lt h hmem := by
    rcases List.mem_append.mp hmem with hold | hnew
    · exact store.family_lt h hold
    · exact store.family_lt h (List.mem_of_getElem? (Option.mem_toList.mp hnew))

/-- Changes the list behind a handle. -/
def modify (store : Store α) (handle : Nat) (f : List (Entry α) → List (Entry α)) : Store α where
  families := store.handles[handle]?.elim store.families fun h => store.families.modify h.family f
  handles := store.handles
  family_lt h hmem := by
    cases store.handles[handle]? with
    | none => exact store.family_lt h hmem
    | some _ => simpa using store.family_lt h hmem

def push (store : Store α) (handle : Nat) (entry : Entry α) : Store α :=
  store.modify handle fun entries => entries ++ [entry]

def replace (store : Store α) (handle : Nat) (entries : List (Entry α)) : Store α :=
  store.modify handle fun _ => entries

/-- One handle on a list. -/
def ofEntries (schema : Schema) (entries : List (Entry α)) : Store α :=
  (empty.add schema).replace 0 entries

/-- The schema that the list behind a handle is queried with. -/
def schemaOf (store : Store α) (handle : Nat) : Schema :=
  (store.handles[handle]?.map Handle.schema).getD .empty

/-- The schema of the first handle. -/
def schema (store : Store α) : Schema := store.schemaOf 0

/-- Adds a handle of a new family that has no entries, with the schema of the first handle. -/
def share (store : Store α) : Store α := store.add store.schema

/-- The list behind a handle. -/
def entries (store : Store α) (handle : Nat) : List (Entry α) :=
  (store.handles[handle]?.bind fun h => store.families[h.family]?).getD []

def size (store : Store α) (handle : Nat) : Nat := (store.entries handle).length

def items (store : Store α) (handle : Nat) : List α := (store.entries handle).map Entry.item

/-- The items that a state leaves of the list behind a handle. -/
def query (store : Store α) (handle : Nat) (s : State) : List α :=
  (Narrowing.apply (store.schemaOf handle) s (store.entries handle)).map Entry.item

def queryPage (store : Store α) (handle : Nat) (s : State) (page limit : Nat) : Page α :=
  .ofItems (store.query handle s) page limit

section

variable {store : Store α} {handle : Nat} {h : Handle}

theorem schemaOf_eq (hhandle : store.handles[handle]? = some h) :
    store.schemaOf handle = h.schema := by
  rw [schemaOf, hhandle, Option.map_some, Option.getD_some]

theorem entries_eq {entries : List (Entry α)} (hhandle : store.handles[handle]? = some h)
    (hentries : store.families[h.family]? = some entries) : store.entries handle = entries := by
  rw [Store.entries, hhandle, Option.bind_some, hentries, Option.getD_some]

theorem families_modify (f : List (Entry α) → List (Entry α))
    (hhandle : store.handles[handle]? = some h) :
    (store.modify handle f).families = store.families.modify h.family f := by
  simp only [modify, hhandle, Option.elim_some]

end

end Store

end Listing
