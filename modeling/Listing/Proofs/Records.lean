import Mathlib.Data.List.Nodup
import Listing.Document
import Listing.Proofs.JsonText
import Listing.Proofs.Maps

namespace Listing

open Json

namespace Document

variable {α β : Type} {read : β → Option α} {write : α → β} {keeps : α → Bool}

/-- A written list is read back as a whole, if each item by itself is. -/
theorem mapM_written (h : ∀ a, read (write a) = if keeps a then some a else none) (as : List α) :
    (as.map write).mapM read = if as.all keeps then some as else none := by
  induction as with
  | nil => rfl
  | cons a as ih =>
    rw [List.map_cons, List.mapM_cons, h, ih, List.all_cons]
    cases keeps a with
    | false => rfl
    | true =>
      cases as.all keeps with
      | false => rfl
      | true => rfl

theorem mapM_map_some (h : ∀ a, read (write a) = some a) (as : List α) :
    (as.map write).mapM read = some as := by
  have hread : ∀ a, read (write a) = if (fun _ => true) a then some a else none := h
  rw [mapM_written hread, if_pos (List.all_eq_true.mpr fun _ _ => rfl)]

end Document

namespace Json

theorem printedItems_eq (items : List Json) : printedItems items = items.map printed := by
  induction items with
  | nil => rfl
  | cons item items ih => rw [printedItems, ih, List.map_cons]

theorem printedMembers_eq (members : List (String × Json)) :
    printedMembers members = members.map fun member => (some member.1, member.2.printed) := by
  induction members with
  | nil => rfl
  | cons member members ih =>
    obtain ⟨key, value⟩ := member
    rw [printedMembers, ih, List.map_cons]

/-- The members of an object for which there is a value. -/
def presentMembers (slots : List (String × Option Json)) : List (String × Json) :=
  slots.filterMap fun slot => slot.2.map fun value => (slot.1, value)

/-- The record that is read from an object. -/
def record (members : List (String × Json)) : List (String × Written) :=
  members.map fun member => (member.1, member.2.printed)

section Slots

variable {slots : List (String × Option Json)} {key : String}

theorem presentMembers_cons (key : String) (value : Option Json) :
    presentMembers ((key, value) :: slots) =
      (value.toList.map fun value => (key, value)) ++ presentMembers slots := by
  cases value with
  | none => rfl
  | some value => rfl

theorem textMember_eq (key : String) (value : Option String) :
    textMember key value = (value.map text).toList.map fun value => (key, value) := by
  cases value with
  | none => rfl
  | some value => rfl

theorem keys_presentMembers_sublist (slots : List (String × Option Json)) :
    ((presentMembers slots).map Prod.fst).Sublist (slots.map Prod.fst) := by
  induction slots with
  | nil => exact .slnil
  | cons slot slots ih =>
    obtain ⟨key, value⟩ := slot
    rw [presentMembers_cons, List.map_append, List.map_cons]
    cases value with
    | none => exact ih.cons key
    | some value => exact ih.cons_cons key

/-- An object is read as a record by the names of all members that it could have. -/
theorem record?_printed (distinct : (slots.map Prod.fst).Nodup) :
    Document.record? (slots.map Prod.fst) (object (presentMembers slots)).printed =
      some (record (presentMembers slots)) := by
  have hsub := keys_presentMembers_sublist slots
  have hmember : ∀ member : String × Written,
      Written.keyed? (some member.1, member.2) = some member := fun _ => rfl
  have hkeyed := Document.mapM_map_some hmember (record (presentMembers slots))
  have hkeys : (record (presentMembers slots)).map Prod.fst = (presentMembers slots).map Prod.fst :=
    List.map_map
  have hknown : ((record (presentMembers slots)).filter
      fun member => member.1 ∈ slots.map Prod.fst) = record (presentMembers slots) := by
    refine List.filter_eq_self.mpr fun member hmember => decide_eq_true (hsub.subset ?_)
    rw [← hkeys]
    exact List.mem_map_of_mem hmember
  have hread : Document.record? (slots.map Prod.fst) (object (presentMembers slots)).printed =
      (((record (presentMembers slots)).map fun member => (some member.1, member.2)).mapM
        Written.keyed?).bind (Document.knownMembers? (slots.map Prod.fst)) := by
    rw [record, List.map_map, printed, printedMembers_eq]
    rfl
  rw [hread, hkeyed, Option.bind_some, Document.knownMembers?, hknown, hkeys,
    if_pos (hsub.nodup distinct)]

theorem lookup_record (members : List (String × Json)) (key : String) :
    (record members).lookup key = (members.lookup key).map printed := by
  induction members with
  | nil => rfl
  | cons member members ih =>
    obtain ⟨k, value⟩ := member
    rw [record, List.map_cons, List.lookup_cons, List.lookup_cons, ← record, ih]
    cases key == k with
    | true => rfl
    | false => rfl

theorem lookup_presentMembers (distinct : (slots.map Prod.fst).Nodup) {value : Option Json}
    (h : slots.lookup key = some value) : (presentMembers slots).lookup key = value := by
  have hslot := (OrderedMap.lookup_eq_some_iff_mem distinct).mp h
  have hsub := keys_presentMembers_sublist slots
  have hmem : ∀ v, (key, v) ∈ presentMembers slots ↔ value = some v := by
    intro v
    simp only [presentMembers, List.mem_filterMap, Option.map_eq_some_iff, Prod.mk.injEq,
      Prod.exists]
    constructor
    · rintro ⟨k, w, hw, v, rfl, rfl, rfl⟩
      have hlookup := (OrderedMap.lookup_eq_some_iff_mem distinct).mpr hw
      exact Option.some.inj (h.symm.trans hlookup)
    · rintro rfl
      exact ⟨key, some v, hslot, v, rfl, rfl, rfl⟩
  apply Option.ext
  intro v
  rw [OrderedMap.lookup_eq_some_iff_mem (hsub.nodup distinct), hmem]

end Slots

/-- Whether a reading takes back every value that is written. -/
def ReadsBack {α : Type} (read : Written → Option α) (write : α → Json) : Prop :=
  ∀ a, read (write a).printed = some a

namespace ReadsBack

open Document

variable {α : Type} {read : Written → Option α} {write : α → Json}
  {slots : List (String × Option Json)} {key : String} {a : α}

theorem text : ReadsBack Document.text? Json.text := fun _ => rfl

theorem list (back : ReadsBack read write) :
    ReadsBack (list? read) fun as => .array (as.map write) := by
  intro as
  have hitems : items? (array (as.map write)).printed = some (as.map (printed ∘ write)) := by
    rw [printed, printedItems_eq, List.map_map]
    rfl
  rw [list?, hitems, Option.bind_eq_bind, Option.bind_some]
  exact mapM_map_some back as

theorem required (back : ReadsBack read write) (distinct : (slots.map Prod.fst).Nodup)
    (h : slots.lookup key = some (some (write a))) :
    required (record (presentMembers slots)) key read = some a := by
  rw [Document.required, lookup_record, lookup_presentMembers distinct h]
  exact back a

theorem defaulted (back : ReadsBack read write) (distinct : (slots.map Prod.fst).Nodup)
    {default : α} (h : slots.lookup key = some (some (write a)) ∨
      slots.lookup key = some none ∧ a = default) :
    defaulted (record (presentMembers slots)) key default read = some a := by
  rw [Document.defaulted, lookup_record]
  rcases h with h | ⟨h, rfl⟩
  · rw [lookup_presentMembers distinct h]
    exact back a
  · rw [lookup_presentMembers distinct h]
    rfl

theorem optional (back : ReadsBack read write) (distinct : (slots.map Prod.fst).Nodup)
    (present : ∀ a, (write a).printed.isNull = false) {value : Option α}
    (h : slots.lookup key = some (value.map write)) :
    optional (record (presentMembers slots)) key read = some value := by
  rw [Document.optional, lookup_record, lookup_presentMembers distinct h]
  cases value with
  | none => rfl
  | some a =>
    have hpresent : absent (write a).printed = some false := congrArg some (present a)
    have hfollow : follow (write a).printed = some (write a).printed := rfl
    simp [hfollow, hpresent, back a]

end ReadsBack

end Json

end Listing
