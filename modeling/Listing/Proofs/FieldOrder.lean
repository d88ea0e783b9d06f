import Listing.Proofs.SameStates
import Listing.Proofs.SchemaFaults
import Listing.Query.Flat
import Listing.Query.Suffixed

namespace Listing

namespace Schema

variable {schema : Schema} {fields : List Field}

/-- The schema with other filter fields. -/
def withFields (schema : Schema) (fields : List Field) : Schema :=
  { schema with filterFields := fields }

/-- Where keys are not repeated, a key names one field. -/
theorem field?_eq_some_iff (nodup : (schema.filterFields.map Field.key).Nodup) {key : String}
    {f : Field} : schema.field? key = some f ↔ f ∈ schema.filterFields ∧ f.key = key := by
  refine ⟨mem_of_field?, ?_⟩
  rintro ⟨hf, rfl⟩
  cases hg : schema.field? f.key with
  | none =>
    rw [field?, List.find?_eq_none] at hg
    simpa using hg f hf
  | some g =>
    obtain ⟨hmem, hkey⟩ := mem_of_field? hg
    rw [List.inj_on_of_nodup_map nodup hmem hf hkey]

/-- A field is found wherever it is declared. -/
theorem field?_withFields (valid : schema.validate = .ok ())
    (perm : fields.Perm schema.filterFields) (key : String) :
    (schema.withFields fields).field? key = schema.field? key := by
  have nodup := (fieldsAgree_of_validate valid).keys
  have nodup' : ((schema.withFields fields).filterFields.map Field.key).Nodup :=
    (perm.map Field.key).nodup_iff.mpr nodup
  apply Option.ext
  intro f
  rw [field?_eq_some_iff nodup', field?_eq_some_iff nodup]
  exact and_congr_left fun _ => perm.mem_iff

theorem pairedKey?_withFields (valid : schema.validate = .ok ())
    (perm : fields.Perm schema.filterFields) (key : String) :
    (schema.withFields fields).pairedKey? key = schema.pairedKey? key := by
  simp only [pairedKey?, field?_withFields valid perm]
  rfl

theorem tests_withFields (valid : schema.validate = .ok ())
    (perm : fields.Perm schema.filterFields) (s : State) :
    (schema.withFields fields).tests s = schema.tests s := by
  simp only [tests, test?, field?_withFields valid perm, pairedKey?_withFields valid perm]

end Schema

section

variable {schema : Schema} {fields : List Field} (valid : schema.validate = .ok ())
  (perm : fields.Perm schema.filterFields) (s : State)

include valid perm

theorem FlatQuery.compile_withFields :
    compile (schema.withFields fields) s = compile schema s := by
  simp only [compile, emissions, filterEmission?, Schema.field?_withFields valid perm,
    Schema.pairedKey?_withFields valid perm]
  rfl

theorem SuffixedQuery.compile_withFields (separator : String) :
    compile separator (schema.withFields fields) s = compile separator schema s := by
  simp only [compile, emissions, filterEmission?, target?, Schema.field?_withFields valid perm,
    Schema.pairedKey?_withFields valid perm]
  rfl

theorem Narrowing.apply_withFields {α : Type} (entries : List (Entry α)) :
    apply (schema.withFields fields) s entries = apply schema s entries := by
  simp only [apply, byFilters, Schema.tests_withFields valid perm]
  rfl

end

namespace Link

/-- The pairs of a query, with or without the question mark before it. -/
def given (query : String) : List (String × String) :=
  FormEncoding.decode <| match query.toList with
    | '?' :: rest => String.ofList rest
    | _ => query

theorem read_eq (schema : Schema) (query : String) :
    read schema query = readPairs schema (given query) := rfl

/-- The values that the fields read under a key of a query, in the order of the fields. -/
def readings (schema : Schema) (query key : String) : List FilterValue :=
  schema.filterFields.filterMap fun f =>
    if key ∈ readableKeys schema f then (valueOf? (given query) key).bind (readValue? f) else none

/-- Whether the fields that read a key of a query read one value there. -/
def Settled (schema : Schema) (query : String) : Prop :=
  ∀ key, ∀ v ∈ readings schema query key, ∀ w ∈ readings schema query key, v.same w = true

variable {schema : Schema} {fields : List Field} {query : String}

/-- The first field that reads a key decides its value. -/
theorem get?_restore (schema : Schema) (query key : String) :
    (restore schema query).filters.get? key = (readings schema query key).head? := by
  rw [restore, read_eq, readings, List.head?_filterMap]
  exact get?_readFilters schema (given query) key

theorem readings_withFields (perm : fields.Perm schema.filterFields) (query key : String) :
    (readings (schema.withFields fields) query key).Perm (readings schema query key) :=
  perm.filterMap _

/-- Only the filters of a restored state can depend on the order of the fields. -/
theorem restore_withFields_same_iff (fields : List Field) :
    (restore (schema.withFields fields) query).same (restore schema query) = true ↔
      ∀ key, Option.Rel (fun v w => FilterValue.same v w = true)
        (readings (schema.withFields fields) query key).head? (readings schema query key).head? := by
  simp only [State.same_iff, get?_restore]
  constructor
  · rintro ⟨-, h, -⟩
    exact h
  · intro h
    exact ⟨rfl, h, rfl, rfl⟩

theorem head?_rel_of_perm {xs ys : List FilterValue} (h : xs.Perm ys)
    (hsame : ∀ v ∈ ys, ∀ w ∈ ys, v.same w = true) :
    Option.Rel (fun v w => FilterValue.same v w = true) xs.head? ys.head? := by
  cases xs with
  | nil =>
    obtain rfl := h.nil_eq
    exact .none
  | cons v xs =>
    cases ys with
    | nil => exact absurd h.length_eq (by simp)
    | cons w ys => exact .some (hsame v (h.mem_iff.mp List.mem_cons_self) w List.mem_cons_self)

/-- Any value that is read under a key is the first in some order of the fields. -/
theorem exists_readings_head? {key : String} {v : FilterValue}
    (hv : v ∈ readings schema query key) :
    ∃ fields : List Field, fields.Perm schema.filterFields ∧
      (readings (schema.withFields fields) query key).head? = some v := by
  obtain ⟨f, hf, hread⟩ := List.mem_filterMap.mp hv
  refine ⟨f :: schema.filterFields.erase f, (List.perm_cons_erase hf).symm, ?_⟩
  have hfirst : readings (schema.withFields (f :: schema.filterFields.erase f)) query key =
      v :: readings (schema.withFields (schema.filterFields.erase f)) query key :=
    List.filterMap_cons_some hread
  rw [hfirst, List.head?_cons]

/-- A query stands for one state in every order of the fields exactly if it is settled. -/
theorem restore_perm_iff :
    (∀ fields : List Field, fields.Perm schema.filterFields →
      (restore (schema.withFields fields) query).same (restore schema query) = true) ↔
        Settled schema query := by
  simp only [restore_withFields_same_iff]
  constructor
  · intro h key v hv w hw
    have hfirst : ∀ u ∈ readings schema query key, ∃ first,
        (readings schema query key).head? = some first ∧ u.same first = true := by
      intro u hu
      obtain ⟨fields, perm, hhead⟩ := exists_readings_head? hu
      have hrel := h fields perm key
      rw [hhead] at hrel
      exact exists_of_rel_some hrel
    obtain ⟨first, hv, hsame⟩ := hfirst v hv
    obtain ⟨first', hw, hsame'⟩ := hfirst w hw
    cases hv.symm.trans hw
    exact FilterValue.same_trans hsame (FilterValue.same_symm hsame')
  · intro settled fields perm key
    exact head?_rel_of_perm (readings_withFields perm query key) (settled key)

end Link

/-- In a valid schema the order of the fields changes no query and nothing that is left of a list.
It changes what a link stands for exactly where two fields read one key as different values. -/
theorem Schema.behaviour_of_perm {schema : Schema} (valid : schema.validate = .ok ()) :
    (∀ fields : List Field, fields.Perm schema.filterFields → ∀ s,
      FlatQuery.compile (schema.withFields fields) s = FlatQuery.compile schema s ∧
      (∀ separator, SuffixedQuery.compile separator (schema.withFields fields) s =
        SuffixedQuery.compile separator schema s) ∧
      ∀ (α : Type) (entries : List (Entry α)),
        Narrowing.apply (schema.withFields fields) s entries = Narrowing.apply schema s entries) ∧
    ∀ query, (∀ fields : List Field, fields.Perm schema.filterFields →
      (Link.restore (schema.withFields fields) query).same (Link.restore schema query) = true) ↔
        Link.Settled schema query := by
  refine ⟨?_, fun query => Link.restore_perm_iff⟩
  intro fields perm s
  exact ⟨FlatQuery.compile_withFields valid perm s,
    fun separator => SuffixedQuery.compile_withFields valid perm s separator,
    fun α entries => Narrowing.apply_withFields valid perm s entries⟩

/-- Courses by their day, of which the first day of a search is a field of its own. -/
def courseSchema : Schema :=
  { Schema.empty with
    filterFields := [.ofKey "day" .date, ⟨"day_min", none, .date, some .gte, [], none⟩] }

theorem behaviour_of_perm_courses :
    let query := "day_min=2024-05-01&day=2024-05-02"
    let swapped := courseSchema.filterFields.reverse
    courseSchema.validate = .ok () ∧ swapped.Perm courseSchema.filterFields ∧
      swapped ≠ courseSchema.filterFields ∧ Link.Settled courseSchema query ∧
      (Link.restore (courseSchema.withFields swapped) query).same
        (Link.restore courseSchema query) = true ∧
      FlatQuery.compile (courseSchema.withFields swapped) (Link.restore courseSchema query) =
        FlatQuery.compile courseSchema (Link.restore courseSchema query) := by
  intro query swapped
  have valid : courseSchema.validate = .ok () := rfl
  have perm : swapped.Perm courseSchema.filterFields := List.reverse_perm _
  -- Both fields read a text as it is.
  have hread : ∀ f ∈ courseSchema.filterFields, ∀ raw, Link.readValue? f raw = some (.text raw) := by
    intro f hf raw
    simp only [courseSchema, List.mem_cons, List.not_mem_nil, or_false] at hf
    rcases hf with rfl | rfl <;> rfl
  have settled : Link.Settled courseSchema query := by
    intro key
    have hvalue : ∀ v ∈ Link.readings courseSchema query key, ∃ raw,
        Link.valueOf? (Link.given query) key = some raw ∧ v = .text raw := by
      intro v hv
      obtain ⟨f, hf, hv⟩ := List.mem_filterMap.mp hv
      split at hv
      next =>
        obtain ⟨raw, hraw, hv⟩ := Option.bind_eq_some_iff.mp hv
        exact ⟨raw, hraw, Option.some.inj (hv.symm.trans (hread f hf raw))⟩
      next => cases hv
    intro v hv w hw
    obtain ⟨raw, hraw, rfl⟩ := hvalue v hv
    obtain ⟨raw', hraw', rfl⟩ := hvalue w hw
    cases hraw.symm.trans hraw'
    simp [FilterValue.same]
  obtain ⟨hstate, hlink⟩ := Schema.behaviour_of_perm valid
  exact ⟨valid, perm, by decide, settled, (hlink query).mpr settled swapped perm,
    (hstate swapped perm _).1⟩

/-- A number and, as a text, the key of its lower bound. -/
def ownBoundSchema : Schema :=
  { Schema.empty with filterFields := [.ofKey "price_min" .string, .ofKey "price" .number] }

/-- The order of the fields can decide what a link stands for, while a key that names a bound has
the type of its base in either order. -/
theorem restore_withFields_ne :
    let swapped := ownBoundSchema.withFields [.ofKey "price" .number, .ofKey "price_min" .string]
    ownBoundSchema.validate = .ok () ∧ swapped.validate = .ok () ∧
      swapped.filterFields.Perm ownBoundSchema.filterFields ∧
      ownBoundSchema.pairedKey? "price_min" = some ⟨"price", .min, .number⟩ ∧
      swapped.pairedKey? "price_min" = some ⟨"price", .min, .number⟩ ∧
      (Link.restore ownBoundSchema "price_min=5").filters.entries = [("price_min", .text "5")] ∧
      (Link.restore swapped "price_min=5").filters.entries =
        [("price_min", .number (.ofInt 5))] ∧
      (Link.restore swapped "price_min=5").same
        (Link.restore ownBoundSchema "price_min=5") = false := by
  refine ⟨rfl, rfl, by decide, ?_, ?_, ?_, ?_, ?_⟩
  · decide +kernel
  · decide +kernel
  · decide +kernel
  · decide +kernel
  · decide +kernel

end Listing
