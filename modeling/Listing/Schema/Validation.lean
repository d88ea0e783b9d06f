import Listing.Schema.Basic

namespace Listing

namespace Schema

/-- The first fault among the fields: a key that came before, or an operator that does not go with
the type. -/
def fieldFault? (seen : List String) : List Field → Option Fault
  | [] => none
  | f :: rest =>
    if f.key ∈ seen then some (.duplicateField f.key)
    else if f.operator.isCompatible f.type then fieldFault? (f.key :: seen) rest
    else some (.incompatibleOperator f.key f.operator.name f.type.name)

/-- Whether a text is a comma-separated list of sort specs with known directions. -/
def isSortText (s : String) : Bool :=
  Text.trim s ≠ "" && (Text.split ',' s).all fun part => (SortSpec.parse part).isOk

/-- The first fault among the sort options. -/
def sortFault? (options : List SortOption) : Option Fault :=
  (options.find? fun option => !isSortText option.value).map fun option =>
    .invalidSortOption option.value

/-- Refuses a schema for its first fault; the fields come before the sort options. -/
def validate (schema : Schema) : Except Fault Unit :=
  match fieldFault? [] schema.filterFields <|> sortFault? schema.sortOptions with
  | some fault => .error fault
  | none => .ok ()

theorem validate_eq (schema : Schema) :
    schema.validate =
      match (fieldFault? [] schema.filterFields).or (sortFault? schema.sortOptions) with
      | some fault => .error fault
      | none => .ok () := by
  unfold validate
  cases fieldFault? [] schema.filterFields <;> rfl

theorem validate_eq_error_iff {schema : Schema} {fault : Fault} :
    schema.validate = .error fault ↔
      (fieldFault? [] schema.filterFields).or (sortFault? schema.sortOptions) = some fault := by
  rw [validate_eq]
  split
  next found h => simp [h]
  next h => simp [h]

theorem validate_eq_ok_iff {schema : Schema} :
    schema.validate = .ok () ↔
      fieldFault? [] schema.filterFields = none ∧ sortFault? schema.sortOptions = none := by
  rw [validate_eq, ← Option.or_eq_none_iff]
  split
  next found h => simp [h]
  next h => simp [h]

theorem sortFault?_eq_none_iff {options : List SortOption} :
    sortFault? options = none ↔ ∀ option ∈ options, isSortText option.value = true := by
  simp [sortFault?, List.find?_eq_none]

end Schema

end Listing
