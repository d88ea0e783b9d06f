import Listing.Proofs.Records
import Listing.Schema.Loading

namespace Listing

open Json Document

theorem FieldOption.readsBack : ReadsBack FieldOption.read? json := fun _ => rfl

theorem SortOption.readsBack : ReadsBack SortOption.read? json := fun _ => rfl

theorem RangeSuffixes.readsBack : ReadsBack RangeSuffixes.read? json := fun _ => rfl

theorem FieldType.readsBack : ReadsBack FieldType.read? fun type => .text type.name := by
  intro type
  have hread : FieldType.read? (Json.text type.name).printed = given (ofName? type.name) := rfl
  rw [hread, ofName?_name]
  rfl

theorem Operator.readsBack : ReadsBack Operator.read? fun op => .text op.name := by
  intro op
  have hread : Operator.read? (Json.text op.name).printed = given (ofName? op.name) := rfl
  rw [hread, ofName?_name]
  rfl

namespace DateRangeField

/-- What the document of a date-range field has at each name. -/
def slots (f : DateRangeField) : List (String × Option Json) :=
  [("key", some (.text f.key)), ("label", f.label.map .text)]

theorem nodup_names (f : DateRangeField) : (f.slots.map Prod.fst).Nodup :=
  (by decide : ["key", "label"].Nodup)

theorem json_eq (f : DateRangeField) : f.json = .object (presentMembers f.slots) := by
  rw [json, textMember_eq, slots, presentMembers_cons, presentMembers_cons, presentMembers]
  simp

theorem readsBack : ReadsBack DateRangeField.read? json := by
  intro f
  have hrecord : record? ["key", "label"] f.json.printed =
      some (record (presentMembers f.slots)) := by
    rw [f.json_eq]
    exact record?_printed f.nodup_names
  have hkey : required (record (presentMembers f.slots)) "key" text? = some f.key :=
    ReadsBack.text.required f.nodup_names rfl
  have hlabel : optional (record (presentMembers f.slots)) "label" text? = some f.label :=
    ReadsBack.text.optional f.nodup_names (fun _ => rfl) rfl
  rw [read?, hrecord]
  simp only [Option.bind_eq_bind, Option.bind_some, hkey, hlabel]
  rfl

end DateRangeField

namespace Field

/-- What the document of a field has at each name. -/
def slots (f : Field) : List (String × Option Json) :=
  [("key", some (.text f.key)), ("label", f.label.map .text), ("type", some (.text f.type.name)),
    ("operator", (f.declaredOperator.map Operator.name).map .text),
    ("options", if f.options.isEmpty then none else some (.array (f.options.map FieldOption.json))),
    ("placeholder", f.placeholder.map .text)]

theorem nodup_names (f : Field) : (f.slots.map Prod.fst).Nodup :=
  (by decide : ["key", "label", "type", "operator", "options", "placeholder"].Nodup)

theorem json_eq (f : Field) : f.json = .object (presentMembers f.slots) := by
  rw [json, textMember_eq, textMember_eq, textMember_eq, slots]
  simp only [presentMembers_cons]
  split <;> simp [presentMembers]

theorem readsBack : ReadsBack Field.read? json := by
  intro f
  have hrecord : record? ["key", "label", "type", "operator", "options", "placeholder"]
      f.json.printed = some (record (presentMembers f.slots)) := by
    rw [f.json_eq]
    exact record?_printed f.nodup_names
  have hkey : required (record (presentMembers f.slots)) "key" text? = some f.key :=
    ReadsBack.text.required f.nodup_names rfl
  have hlabel : optional (record (presentMembers f.slots)) "label" text? = some f.label :=
    ReadsBack.text.optional f.nodup_names (fun _ => rfl) rfl
  have htype : defaulted (record (presentMembers f.slots)) "type" .string FieldType.read? =
      some f.type :=
    FieldType.readsBack.defaulted f.nodup_names (.inl rfl)
  have hoperator : optional (record (presentMembers f.slots)) "operator" Operator.read? =
      some f.declaredOperator := by
    refine Operator.readsBack.optional f.nodup_names (fun _ => rfl) ?_
    exact congrArg some (Option.map_map _ _ _)
  have hoptions : defaulted (record (presentMembers f.slots)) "options" []
      (list? FieldOption.read?) = some f.options := by
    refine FieldOption.readsBack.list.defaulted f.nodup_names ?_
    have hslot : f.slots.lookup "options" =
        some (if f.options.isEmpty then none else some (.array (f.options.map FieldOption.json))) :=
      rfl
    rw [hslot]
    split
    next hempty => exact .inr ⟨rfl, List.isEmpty_iff.mp hempty⟩
    next => exact .inl rfl
  have hplaceholder : optional (record (presentMembers f.slots)) "placeholder" text? =
      some f.placeholder :=
    ReadsBack.text.optional f.nodup_names (fun _ => rfl) rfl
  rw [read?, hrecord]
  simp only [Option.bind_eq_bind, Option.bind_some, hkey, hlabel, htype, hoperator, hoptions,
    hplaceholder]
  rfl

end Field

namespace Schema

/-- What the document of a schema has at each name. -/
def slots (schema : Schema) : List (String × Option Json) :=
  [("searchFields", some (.array (schema.searchFields.map Field.json))),
    ("filterFields", some (.array (schema.filterFields.map Field.json))),
    ("sortOptions", some (.array (schema.sortOptions.map SortOption.json))),
    ("dateRangeFields", some (.array (schema.dateRangeFields.map DateRangeField.json))),
    ("rangeSuffixes", some schema.rangeSuffixes.json)]

theorem nodup_names (schema : Schema) : (schema.slots.map Prod.fst).Nodup :=
  (by decide : ["searchFields", "filterFields", "sortOptions", "dateRangeFields",
    "rangeSuffixes"].Nodup)

theorem readsBack : ReadsBack Schema.read? json := by
  intro schema
  have hnodup := schema.nodup_names
  have hrecord : record? ["searchFields", "filterFields", "sortOptions", "dateRangeFields",
      "rangeSuffixes"] schema.json.printed = some (record (presentMembers schema.slots)) :=
    record?_printed hnodup
  have hsearch : defaulted (record (presentMembers schema.slots)) "searchFields" []
      (list? Field.read?) = some schema.searchFields :=
    Field.readsBack.list.defaulted hnodup (.inl rfl)
  have hfilter : defaulted (record (presentMembers schema.slots)) "filterFields" []
      (list? Field.read?) = some schema.filterFields :=
    Field.readsBack.list.defaulted hnodup (.inl rfl)
  have hsort : defaulted (record (presentMembers schema.slots)) "sortOptions" []
      (list? SortOption.read?) = some schema.sortOptions :=
    SortOption.readsBack.list.defaulted hnodup (.inl rfl)
  have hdate : defaulted (record (presentMembers schema.slots)) "dateRangeFields" []
      (list? DateRangeField.read?) = some schema.dateRangeFields :=
    DateRangeField.readsBack.list.defaulted hnodup (.inl rfl)
  have hsuffixes : defaulted (record (presentMembers schema.slots)) "rangeSuffixes" .standard
      RangeSuffixes.read? = some schema.rangeSuffixes :=
    RangeSuffixes.readsBack.defaulted hnodup (.inl rfl)
  rw [read?, hrecord]
  simp only [Option.bind_eq_bind, Option.bind_some, hsearch, hfilter, hsort, hdate, hsuffixes]
  rfl

/-- Whatever a schema declares, valid or not, it is read back from the text of its document. -/
theorem ofJson_compact (schema : Schema) : ofJson schema.json.compact = .ok schema := by
  rw [ofJson, Written.parse?_compact, Option.bind_some, schema.readsBack]

end Schema

end Listing
