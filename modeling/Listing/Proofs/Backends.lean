import Listing.Proofs.Compiler
import Listing.Proofs.NumberText
import Listing.Query.Flat
import Listing.Query.Suffixed
import Listing.Schema.Validation

namespace Listing

namespace FilterValue

variable {v w : FilterValue}

theorem isNaN_of_number? {n : Double} (h : v.number? = some n) : n.isNaN = false := by
  cases v with
  | text s =>
    rw [number?] at h
    obtain ⟨-, hnan⟩ := Option.filter_eq_some_iff.mp h
    simpa using hnan
  | number d =>
    cases hd : d.isNaN with
    | true => simp [number?, hd] at h
    | false =>
      simp only [number?, hd, Bool.false_eq_true, if_false, Option.some.injEq] at h
      rw [← h, hd]
  | bool b =>
    simp only [number?, Option.some.injEq] at h
    rw [← h]
    rfl
  | list => simp [number?] at h

theorem number?_rel (h : v.same w = true) :
    Option.Rel (fun a b => Double.same a b = true) v.number? w.number? := by
  rcases eq_or_zeros_of_same h with rfl | ⟨m, n, rfl, rfl⟩
  · cases hn : v.number? with
    | none => exact .none
    | some n => exact .some (Double.same_self (isNaN_of_number? hn))
  · exact .some h

theorem ofFilter_same (h : v.same w = true) :
    (Param.ofFilter v).same (.ofFilter w) = true := by
  rcases eq_or_zeros_of_same h with rfl | ⟨m, n, rfl, rfl⟩
  · cases v with
    | number => exact h
    | text | bool | list => simp [Param.ofFilter, Param.same]
  · exact h

end FilterValue

theorem Params.sortEmissions_same (sort : String) :
    ∀ e ∈ sortEmissions sort, e.2.same e.2 = true := by
  unfold sortEmissions
  split
  next => simp
  next => simp [Param.same]

namespace FlatQuery

variable (schema : Schema) {m n : OrderedMap FilterValue}

theorem pairedRange_congr
    (h : ∀ key, Option.Rel (fun v w => FilterValue.same v w = true) (m.get? key) (n.get? key))
    (base : String) : pairedRange schema m base = pairedRange schema n base := by
  simp only [pairedRange, Range.ofValues, FilterValue.activeParam_of_rel (h _)]

theorem filterEmission?_rel
    (h : ∀ key, Option.Rel (fun v w => FilterValue.same v w = true) (m.get? key) (n.get? key))
    (key : String) {v w : FilterValue} (hvw : v.same w = true) :
    Option.Rel Param.SameEmission (filterEmission? schema m key v)
      (filterEmission? schema n key w) := by
  unfold filterEmission?
  split
  next pair _ =>
    rw [pairedRange_congr schema h]
    exact .some ⟨rfl, by simp [Param.same]⟩
  next =>
    split
    next => exact .none
    next f _ =>
      split
      next => exact rel_map (FilterValue.number?_rel hvw) fun _ _ hsame => ⟨rfl, hsame⟩
      next => exact .some ⟨rfl, FilterValue.ofFilter_same hvw⟩

theorem dateEmissions_same (range : Option (String × DateRange)) :
    ∀ e ∈ dateEmissions range, e.2.same e.2 = true := by
  unfold dateEmissions
  split
  next => simp
  next =>
    dsimp only
    split
    next => simp
    next => simp [Param.same]

def compiler : Compiler where
  search := searchEmissions schema
  filter? := filterEmission? schema
  last range sort := dateEmissions range ++ Params.sortEmissions sort
  search_same text := by
    unfold searchEmissions
    split
    next => simp
    next => simp [Param.same]
  last_same range sort e he := by
    rcases List.mem_append.mp he with he | he
    · exact dateEmissions_same range e he
    · exact Params.sortEmissions_same sort e he
  filter_same _ _ h key _ _ hvw := filterEmission?_rel schema h key hvw

theorem compile_eq (s : State) : compile schema s = (compiler schema).compile s := by
  simp only [compile, emissions, Compiler.compile, compiler, Compiler.filters, List.append_assoc]

end FlatQuery

namespace SuffixedQuery

variable (separator : String) (schema : Schema)

theorem paramValue?_rel {v w : FilterValue} (h : v.same w = true) (type : FieldType)
    (op : Operator) :
    Option.Rel (fun p q => Param.same p q = true) (paramValue? type op v)
      (paramValue? type op w) := by
  unfold paramValue?
  split
  next =>
    rw [FilterValue.param_eq_of_same h]
    exact .some (by simp [Param.same])
  next =>
    split
    next => exact rel_map (FilterValue.number?_rel h) fun _ _ hsame => hsame
    next => exact .some (FilterValue.ofFilter_same h)

theorem filterEmission?_rel (key : String) {v w : FilterValue} (h : v.same w = true) :
    Option.Rel Param.SameEmission (filterEmission? separator schema key v)
      (filterEmission? separator schema key w) := by
  unfold filterEmission?
  cases target? schema key with
  | none => exact .none
  | some target =>
    obtain ⟨base, type, op⟩ := target
    have hrel := paramValue?_rel h type op
    simp only [Option.bind_eq_bind, Option.bind_some]
    generalize paramValue? type op v = x, paramValue? type op w = y at hrel
    cases hrel with
    | none => exact .none
    | some hsame => exact .some ⟨rfl, hsame⟩

theorem dateEmissions_same (range : Option (String × DateRange)) :
    ∀ e ∈ dateEmissions separator range, e.2.same e.2 = true := by
  unfold dateEmissions
  split
  next => simp
  next field range =>
    intro e he
    rcases List.mem_append.mp he with he | he
    · obtain ⟨date, -, rfl⟩ := Option.map_eq_some_iff.mp (Option.mem_toList.mp he)
      simp [Param.same]
    · obtain ⟨date, -, rfl⟩ := Option.map_eq_some_iff.mp (Option.mem_toList.mp he)
      simp [Param.same]

def compiler : Compiler where
  search := searchEmissions separator schema
  filter? _ := filterEmission? separator schema
  last range sort := dateEmissions separator range ++ Params.sortEmissions sort
  search_same text := by
    unfold searchEmissions
    split
    next => simp
    next => simp [Param.same]
  last_same range sort e he := by
    rcases List.mem_append.mp he with he | he
    · exact dateEmissions_same separator range e he
    · exact Params.sortEmissions_same sort e he
  filter_same _ _ _ key _ _ hvw := filterEmission?_rel separator schema key hvw

theorem compile_eq (s : State) :
    compile separator schema s = (compiler separator schema).compile s := by
  simp only [compile, emissions, Compiler.compile, compiler, Compiler.filters, List.append_assoc]

end SuffixedQuery

/-- States that are the same leave the same entries and write one link for the same state. They are
written as the same parameters exactly where the filters agree on what they decide together; of
filters that do not agree the last one decides. -/
theorem State.behaviour_of_same (separator : String) (schema : Schema) {s t : State}
    (h : s.same t = true) :
    (∀ (α : Type) (entries : List (Entry α)),
      Narrowing.apply schema s entries = Narrowing.apply schema t entries) ∧
    (Link.restore schema (Link.write s)).same (Link.restore schema (Link.write t)) = true ∧
    ((FlatQuery.compiler schema).Agrees s ↔ ∀ u, s.same u = true →
      (FlatQuery.compile schema s).same (FlatQuery.compile schema u) = true) ∧
    ((SuffixedQuery.compiler separator schema).Agrees s ↔ ∀ u, s.same u = true →
      (SuffixedQuery.compile separator schema s).same
        (SuffixedQuery.compile separator schema u) = true) ∧
    (FlatQuery.compiler schema).LastDecides s (FlatQuery.compile schema s) ∧
    (SuffixedQuery.compiler separator schema).LastDecides s
      (SuffixedQuery.compile separator schema s) := by
  have hs := State.same_left h
  refine ⟨fun α entries => Narrowing.apply_of_same schema h entries, ?_, ?_, ?_, ?_, ?_⟩
  · rw [← Link.restore_write_of_same schema h]
    exact Link.restore_same_self schema _
  · simp only [FlatQuery.compile_eq]
    exact ⟨fun agrees _ hu => (FlatQuery.compiler schema).compile_same agrees hu,
      (FlatQuery.compiler schema).agrees_of_compile_same hs⟩
  · simp only [SuffixedQuery.compile_eq]
    exact ⟨fun agrees _ hu => (SuffixedQuery.compiler separator schema).compile_same agrees hu,
      (SuffixedQuery.compiler separator schema).agrees_of_compile_same hs⟩
  · rw [FlatQuery.compile_eq]
    exact (FlatQuery.compiler schema).compile_lastDecides s
  · rw [SuffixedQuery.compile_eq]
    exact (SuffixedQuery.compiler separator schema).compile_lastDecides s

/-- A schema in which a day and the first of its bounds decide one parameter. -/
def daySchema : Schema :=
  { Schema.empty with filterFields := [⟨"day", none, .date, some .gte, [], none⟩] }

/-- Two bounds of one day emit one range, whichever of them was set first. -/
theorem behaviour_of_same_bounds :
    let s := (State.empty.withFilter "day_min" (.text "2024-05-01")).withFilter "day_max"
      (.text "2024-05-31")
    let t := (State.empty.withFilter "day_max" (.text "2024-05-31")).withFilter "day_min"
      (.text "2024-05-01")
    s.same t = true ∧ s.filters.entries ≠ t.filters.entries ∧
      (FlatQuery.compiler daySchema).Agrees s ∧
      (FlatQuery.compile daySchema s).same (FlatQuery.compile daySchema t) = true ∧
      (Link.restore daySchema (Link.write s)).same (Link.restore daySchema (Link.write t)) = true := by
  intro s t
  have h : s.same t = true := by decide
  have agrees : (FlatQuery.compiler daySchema).Agrees s := by
    unfold Compiler.Agrees
    decide +kernel
  have hsame := State.behaviour_of_same "__" daySchema h
  exact ⟨h, by decide, agrees, hsame.2.2.1.mp agrees t h, hsame.2.1⟩

def sinceSecond : State :=
  (State.empty.withFilter "day_min" (.text "2024-05-01")).withFilter "day" (.text "2024-05-02")

/-- States that are the same can be written as different parameters. -/
theorem compile_restored_ne : daySchema.validate = .ok () ∧
    (Link.restore daySchema (Link.write sinceSecond)).same sinceSecond = true ∧
    (FlatQuery.compile daySchema (Link.restore daySchema (Link.write sinceSecond))).same
      (FlatQuery.compile daySchema sinceSecond) = false ∧
    (SuffixedQuery.compile SuffixedQuery.standardSeparator daySchema
      (Link.restore daySchema (Link.write sinceSecond))).same
        (SuffixedQuery.compile SuffixedQuery.standardSeparator daySchema sinceSecond) = false := by
  refine ⟨rfl, ?_, ?_, ?_⟩
  · decide +kernel
  · decide +kernel
  · decide +kernel

end Listing
