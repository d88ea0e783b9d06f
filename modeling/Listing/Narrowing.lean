import Listing.Item.SortKey
import Listing.State.Basic

namespace Listing

/-- An item with the document it is read through. An item that cannot be written as a document has
no entry, and whoever makes the entries of a list leaves it out. -/
structure Entry (α : Type) where
  item : α
  doc : Json

/-- Whether a document has the term, given in small letters, in one of the search fields. -/
def Schema.finds (schema : Schema) (term : List Char) (doc : Json) : Bool :=
  schema.searchFields.any fun f =>
    (doc.present? f.key).any fun value => Text.occurs term (Text.lowered value.display.toList)

/-- The tests that the filters of a state make; filters with unknown keys make none. -/
def Schema.tests (schema : Schema) (s : State) : List Test :=
  s.activeFilters.filterMap fun (key, value) => schema.test? key value

/-- Whether a document has a date at a field between the first day and the end of the last. A bound
that cannot be read limits nothing. -/
def DateRange.covers (range : DateRange) (field : String) (doc : Json) : Bool :=
  match (doc.present? field).bind Json.instant? with
  | none => false
  | some t =>
    (range.lower?.bind Calendar.Instant.parse?).all (fun start => (t.compare start).isGE) &&
      (range.upper?.bind Calendar.Instant.parse?).all fun stop => (t.compare stop.endOfDay).isLE

/-- An ascending order turned in a direction. -/
def SortDirection.turn (direction : SortDirection) (order : Ordering) : Ordering :=
  match direction with
  | .asc => order
  | .desc => order.swap

/-- The keys of a document for some specs. -/
def sortKeys (specs : List SortSpec) (doc : Json) : List SortKey :=
  specs.map fun spec => .ofItem (doc.resolve? spec.field)

/-- Compares the keys of two documents by the first spec that tells them apart. -/
def compareKeys : List SortSpec → List SortKey → List SortKey → Ordering
  | spec :: specs, a :: as, b :: bs =>
    (spec.direction.turn (a.compare b)).then (compareKeys specs as bs)
  | _, _, _ => .eq

def compareDocs (specs : List SortSpec) (a b : Json) : Ordering :=
  compareKeys specs (sortKeys specs a) (sortKeys specs b)

namespace Narrowing

variable {α : Type}

/-- The entries that have the search text, without blanks around it, in a search field. -/
def bySearch (schema : Schema) (search : String) (entries : List (Entry α)) : List (Entry α) :=
  let term := Text.lowered (Text.trimmed search.toList)
  if term.isEmpty then entries else entries.filter fun e => schema.finds term e.doc

def byFilters (schema : Schema) (s : State) (entries : List (Entry α)) : List (Entry α) :=
  let tests := schema.tests s
  entries.filter fun e => tests.all fun t => t.passes e.doc

def byDate (s : State) (entries : List (Entry α)) : List (Entry α) :=
  match s.activeDateRange? with
  | none => entries
  | some (field, range) => entries.filter fun e => range.covers field e.doc

/-- Sorts by the specs of a text; entries that no spec tells apart keep their order. The keys of an
entry are read once. -/
def sort (text : String) (entries : List (Entry α)) : List (Entry α) :=
  let specs := SortSpec.parseList text
  if specs.isEmpty then entries
  else
    let keyed := entries.map fun e => (sortKeys specs e.doc, e)
    (keyed.mergeSort fun a b => (compareKeys specs a.1 b.1).isLE).map Prod.snd

theorem sort_eq_mergeSort {text : String} (entries : List (Entry α))
    (h : SortSpec.parseList text ≠ []) :
    sort text entries =
      entries.mergeSort fun a b => (compareDocs (SortSpec.parseList text) a.doc b.doc).isLE := by
  have keyed := List.map_mergeSort
    (f := fun e : Entry α => (sortKeys (SortSpec.parseList text) e.doc, e))
    (r := fun a b => (compareDocs (SortSpec.parseList text) a.doc b.doc).isLE)
    (s := fun a b => (compareKeys (SortSpec.parseList text) a.1 b.1).isLE)
    (l := entries) fun _ _ _ _ => rfl
  rw [sort, if_neg (by simpa using h)]
  simp only [← keyed, List.map_map, Function.comp_def, List.map_id']

/-- What a state leaves of a list of entries, in its sort order. -/
def apply (schema : Schema) (s : State) (entries : List (Entry α)) : List (Entry α) :=
  sort s.sort (byDate s (byFilters schema s (bySearch schema s.search entries)))

end Narrowing

end Listing
