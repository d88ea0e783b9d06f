import Mathlib.Data.List.Induction
import Mathlib.Data.List.Nodup
import Listing.Proofs.SortTexts

namespace Listing

/-- Whether every part of an offered sort text spells a spec. -/
def SortOption.IsReadable (option : SortOption) : Prop :=
  ∀ part ∈ Text.split ',' option.value, ∃ spec, SortSpec.Spells part spec

namespace Schema

/-- Whether fields have keys of their own, and operators that go with their types. -/
structure FieldsAgree (fields : List Field) : Prop where
  keys : (fields.map Field.key).Nodup
  operators : ∀ f ∈ fields, f.operator.isCompatible f.type = true

structure WellFormed (schema : Schema) : Prop where
  fields : FieldsAgree schema.filterFields
  sorts : ∀ option ∈ schema.sortOptions, option.IsReadable

/-- What is wrong with a schema where something first is: the fields are looked at in their order
and before the sort options, and the key of a field before its operator. -/
inductive FirstFault (schema : Schema) : Fault → Prop where
  | duplicateField (before : List Field) (f : Field) (after : List Field)
      (fields : schema.filterFields = before ++ f :: after) (agree : FieldsAgree before)
      (repeated : f.key ∈ before.map Field.key) : FirstFault schema (.duplicateField f.key)
  | incompatibleOperator (before : List Field) (f : Field) (after : List Field)
      (fields : schema.filterFields = before ++ f :: after) (agree : FieldsAgree before)
      (fresh : f.key ∉ before.map Field.key)
      (incompatible : f.operator.isCompatible f.type = false) :
      FirstFault schema (.incompatibleOperator f.key f.operator.name f.type.name)
  | invalidSortOption (before : List SortOption) (option : SortOption) (after : List SortOption)
      (agree : FieldsAgree schema.filterFields)
      (options : schema.sortOptions = before ++ option :: after)
      (readable : ∀ o ∈ before, o.IsReadable) (unreadable : ¬option.IsReadable) :
      FirstFault schema (.invalidSortOption option.value)

variable {schema : Schema} {fields before : List Field} {f : Field} {fault : Fault}

/-- Fields are checked from the keys that came before them. -/
theorem fieldFault?_append (seen : List String) (before rest : List Field) :
    fieldFault? seen (before ++ rest) =
      (fieldFault? seen before).or
        (fieldFault? ((before.map Field.key).reverse ++ seen) rest) := by
  induction before generalizing seen with
  | nil => rfl
  | cons f before ih =>
    rw [List.cons_append, fieldFault?, fieldFault?, ih, List.map_cons, List.reverse_cons,
      List.append_assoc, List.singleton_append]
    split
    next => rfl
    next =>
      split
      next => rfl
      next => rfl

/-- One more field adds a fault of its own only. -/
theorem fieldFault?_concat (before : List Field) (f : Field) :
    fieldFault? [] (before ++ [f]) =
      (fieldFault? [] before).or
        (if f.key ∈ before.map Field.key then some (.duplicateField f.key)
        else if f.operator.isCompatible f.type then none
        else some (.incompatibleOperator f.key f.operator.name f.type.name)) := by
  simp only [fieldFault?_append, fieldFault?, List.append_nil, List.mem_reverse]

theorem fieldsAgree_concat_iff :
    FieldsAgree (before ++ [f]) ↔
      FieldsAgree before ∧ f.key ∉ before.map Field.key ∧
        f.operator.isCompatible f.type = true := by
  have hkeys : ((before ++ [f]).map Field.key).Nodup ↔
      (before.map Field.key).Nodup ∧ f.key ∉ before.map Field.key := by
    rw [List.map_append, List.map_singleton, List.nodup_middle, List.append_nil, List.nodup_cons,
      and_comm]
  have hoperators : (∀ g ∈ before ++ [f], g.operator.isCompatible g.type = true) ↔
      (∀ g ∈ before, g.operator.isCompatible g.type = true) ∧
        f.operator.isCompatible f.type = true := by
    rw [List.forall_mem_append, List.forall_mem_singleton]
  constructor
  · rintro ⟨keys, operators⟩
    obtain ⟨hnodup, hfresh⟩ := hkeys.mp keys
    obtain ⟨hbefore, hf⟩ := hoperators.mp operators
    exact ⟨⟨hnodup, hbefore⟩, hfresh, hf⟩
  · rintro ⟨⟨hnodup, hbefore⟩, hfresh, hf⟩
    exact ⟨hkeys.mpr ⟨hnodup, hfresh⟩, hoperators.mpr ⟨hbefore, hf⟩⟩

theorem fieldFault?_eq_none_iff : fieldFault? [] fields = none ↔ FieldsAgree fields := by
  induction fields using List.reverseRecOn with
  | nil => exact iff_of_true rfl ⟨List.nodup_nil, by simp⟩
  | append_singleton before f ih =>
    rw [fieldFault?_concat, Option.or_eq_none_iff, ih, fieldsAgree_concat_iff]
    refine and_congr_right fun _ => ?_
    split
    next hrepeated => simp [hrepeated]
    next hfresh => simp [hfresh]

theorem fieldsAgree_of_validate (valid : schema.validate = .ok ()) :
    FieldsAgree schema.filterFields :=
  fieldFault?_eq_none_iff.mp (validate_eq_ok_iff.mp valid).1

/-- The fault of some fields is that of the first one with which the fields do not agree. -/
theorem fieldFault?_eq_some_iff :
    fieldFault? [] fields = some fault ↔
      ∃ before f after, fields = before ++ f :: after ∧ FieldsAgree before ∧
        (f.key ∈ before.map Field.key ∧ fault = .duplicateField f.key ∨
          f.key ∉ before.map Field.key ∧ f.operator.isCompatible f.type = false ∧
            fault = .incompatibleOperator f.key f.operator.name f.type.name) := by
  constructor
  · intro h
    induction fields using List.reverseRecOn with
    | nil => cases h
    | append_singleton before f ih =>
      cases hbefore : fieldFault? [] before with
      | some found =>
        rw [fieldFault?_concat, hbefore, Option.some_or] at h
        obtain ⟨front, g, after, rfl, hg⟩ := ih (hbefore.trans h)
        exact ⟨front, g, after ++ [f], by simp, hg⟩
      | none =>
        rw [fieldFault?_concat, hbefore, Option.none_or] at h
        refine ⟨before, f, [], rfl, fieldFault?_eq_none_iff.mp hbefore, ?_⟩
        split at h
        next hrepeated => exact .inl ⟨hrepeated, (Option.some.inj h).symm⟩
        next hfresh =>
          rw [Option.ite_none_left_eq_some, Bool.not_eq_true] at h
          exact .inr ⟨hfresh, h.1, (Option.some.inj h.2).symm⟩
  · rintro ⟨before, f, after, rfl, agree, hf⟩
    have hlast : fieldFault? [] (before ++ [f]) = some fault := by
      rw [fieldFault?_concat, fieldFault?_eq_none_iff.mpr agree, Option.none_or]
      rcases hf with ⟨hrepeated, rfl⟩ | ⟨hfresh, hincompatible, rfl⟩
      · rw [if_pos hrepeated]
      · rw [if_neg hfresh, if_neg (by simp [hincompatible])]
    rw [← List.singleton_append, ← List.append_assoc, fieldFault?_append, hlast, Option.some_or]

theorem sortFault?_eq_some_iff {options : List SortOption} :
    sortFault? options = some fault ↔
      ∃ before option after, options = before ++ option :: after ∧
        (∀ o ∈ before, o.IsReadable) ∧ ¬option.IsReadable ∧
          fault = .invalidSortOption option.value := by
  have hreadable : ∀ o : SortOption, isSortText o.value = true ↔ o.IsReadable :=
    fun _ => SortSpec.isSortText_iff
  simp only [sortFault?, Option.map_eq_some_iff, List.find?_eq_some_iff_append, Bool.not_eq_true',
    Bool.not_not, ← Bool.not_eq_true, hreadable]
  constructor
  · rintro ⟨option, ⟨hnot, before, after, hoptions, hbefore⟩, rfl⟩
    exact ⟨before, option, after, hoptions, hbefore, hnot, rfl⟩
  · rintro ⟨before, option, after, hoptions, hbefore, hnot, rfl⟩
    exact ⟨option, ⟨hnot, before, after, hoptions, hbefore⟩, rfl⟩

/-- A schema is accepted just when it is well-formed, and refused for its first fault. -/
theorem validate_eq_firstFault (schema : Schema) :
    (schema.validate = .ok () ↔ schema.WellFormed) ∧
      ∀ fault, schema.validate = .error fault ↔ schema.FirstFault fault := by
  constructor
  · rw [validate_eq_ok_iff, fieldFault?_eq_none_iff, sortFault?_eq_none_iff]
    simp only [SortSpec.isSortText_iff]
    exact ⟨fun ⟨fields, sorts⟩ => ⟨fields, sorts⟩, fun ⟨fields, sorts⟩ => ⟨fields, sorts⟩⟩
  · intro fault
    rw [validate_eq_error_iff, Option.or_eq_some_iff,
      fieldFault?_eq_some_iff, fieldFault?_eq_none_iff, sortFault?_eq_some_iff]
    constructor
    · rintro (⟨before, f, after, hfields, agree, hf⟩ |
        ⟨agree, before, option, after, hoptions, hbefore, hnot, rfl⟩)
      · rcases hf with ⟨hrepeated, rfl⟩ | ⟨hfresh, hincompatible, rfl⟩
        · exact .duplicateField before f after hfields agree hrepeated
        · exact .incompatibleOperator before f after hfields agree hfresh hincompatible
      · exact .invalidSortOption before option after agree hoptions hbefore hnot
    · intro h
      cases h with
      | duplicateField before f after hfields agree hrepeated =>
        exact .inl ⟨before, f, after, hfields, agree, .inl ⟨hrepeated, rfl⟩⟩
      | incompatibleOperator before f after hfields agree hfresh hincompatible =>
        exact .inl ⟨before, f, after, hfields, agree, .inr ⟨hfresh, hincompatible, rfl⟩⟩
      | invalidSortOption before option after agree hoptions hbefore hnot =>
        exact .inr ⟨agree, before, option, after, hoptions, hbefore, hnot, rfl⟩

/-- A field that repeats a key is refused for its key, whatever its operator is and whatever comes
after it. -/
example : validate
    { empty with
      filterFields := [.ofKey "price" .number, ⟨"price", none, .number, some .like, [], none⟩,
        ⟨"sealed", none, .boolean, some .range, [], none⟩]
      sortOptions := [⟨":asc", "None"⟩] } = .error (.duplicateField "price") := by
  decide +kernel

end Schema

end Listing
