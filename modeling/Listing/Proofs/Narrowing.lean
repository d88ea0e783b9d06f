import Mathlib.Data.List.Perm.Basic
import Listing.Proofs.SortOrder

namespace Listing

/-- Whether the search text, the filters and the date range of a state all let a document through. -/
def Schema.keeps (schema : Schema) (s : State) (doc : Json) : Bool :=
  let term := Text.lowered (Text.trimmed s.search.toList)
  (term.isEmpty || schema.finds term doc) && (schema.tests s).all (fun t => t.passes doc) &&
    s.activeDateRange?.all fun (field, range) => range.covers field doc

/-- The states that say one thing more than a state: a filter, a search or a date range. -/
inductive State.OneMore (s : State) : State → Prop where
  | filter (filters : OrderedMap FilterValue) (key : String) (value : FilterValue)
      (fresh : key ∉ s.filters.keys) (active : value.isEmpty = false)
      (added : filters.entries.Perm ((key, value) :: s.filters.entries)) :
      OneMore s { s with filters := filters }
  | search (search : String) (blank : Text.trim s.search = "") (given : Text.trim search ≠ "") :
      OneMore s { s with search := search }
  | dateRange (range : DateRange) (unlimited : s.activeDateRange? = none)
      (active : range.activeField?.isSome) :
      OneMore s { s with dateRange := some range }

theorem Schema.tests_perm (schema : Schema) {s t : State}
    (h : t.filters.entries.Perm s.filters.entries) : (schema.tests t).Perm (schema.tests s) :=
  (h.filter _).filterMap _

theorem Schema.keeps_of_perm (schema : Schema) {s : State} {filters : OrderedMap FilterValue}
    (h : filters.entries.Perm s.filters.entries) :
    schema.keeps { s with filters := filters } = schema.keeps s := by
  have htests : (schema.tests { s with filters := filters }).Perm (schema.tests s) :=
    schema.tests_perm h
  funext doc
  unfold keeps
  rw [htests.all_eq]
  rfl

/-- Whatever passes with one more filter, search or date range passed without it. -/
theorem Schema.keeps_of_oneMore (schema : Schema) {s t : State} (h : s.OneMore t) {doc : Json}
    (hkeep : schema.keeps t doc = true) : schema.keeps s doc = true := by
  unfold keeps at hkeep ⊢
  simp only [Bool.and_eq_true] at hkeep ⊢
  obtain ⟨⟨hsearch, htests⟩, hdate⟩ := hkeep
  cases h with
  | filter filters key value fresh active added =>
    refine ⟨⟨hsearch, ?_⟩, hdate⟩
    rw [List.all_eq_true] at htests ⊢
    intro test htest
    apply htests
    rw [Schema.tests, List.mem_filterMap] at htest ⊢
    obtain ⟨entry, hentry, heq⟩ := htest
    refine ⟨entry, ?_, heq⟩
    rw [State.activeFilters, List.mem_filter] at hentry ⊢
    exact ⟨added.mem_iff.mpr (List.mem_cons_of_mem _ hentry.1), hentry.2⟩
  | search search blank given =>
    have htrim : Text.trimmed s.search.toList = [] := by
      rwa [Text.trim, String.ofList_eq_empty_iff] at blank
    have hterm : Text.lowered (Text.trimmed s.search.toList) = [] := by
      rw [htrim]
      rfl
    exact ⟨⟨by simp [hterm], htests⟩, hdate⟩
  | dateRange range unlimited active =>
    exact ⟨⟨hsearch, htests⟩, by simp [unlimited]⟩

namespace Narrowing

variable {α : Type} (schema : Schema) (s : State) (entries : List (Entry α))

/-- Narrowing keeps those of the sorted entries that pass every test. -/
theorem apply_eq_filter_sort :
    apply schema s entries = (sort s.sort entries).filter fun e => schema.keeps s e.doc := by
  have hsearch : ∀ search, bySearch schema search entries = entries.filter fun e =>
      (Text.lowered (Text.trimmed search.toList)).isEmpty ||
        schema.finds (Text.lowered (Text.trimmed search.toList)) e.doc := by
    intro search
    unfold bySearch
    dsimp only
    split
    next h => simp [h]
    next h => simp [h]
  have hdate : ∀ entries : List (Entry α), byDate s entries = entries.filter fun e =>
      s.activeDateRange?.all fun (field, range) => range.covers field e.doc := by
    intro entries
    unfold byDate
    split
    next h => simp [h]
    next h => simp [h]
  rw [filter_sort, apply, hdate, byFilters, hsearch, List.filter_filter, List.filter_filter]
  congr 1
  apply List.filter_congr
  intro e _
  simp only [Schema.keeps]
  grind

/-- Narrowing does not look at the order of the filters, loses entries and does nothing else when
the state says more, and has nothing left to do the second time. -/
theorem apply_perm_sublist_idem :
    (∀ filters : OrderedMap FilterValue, filters.entries.Perm s.filters.entries →
      apply schema { s with filters := filters } entries = apply schema s entries) ∧
    (∀ t, s.OneMore t → (apply schema t entries).Sublist (apply schema s entries)) ∧
      apply schema s (apply schema s entries) = apply schema s entries := by
  refine ⟨?_, ?_, ?_⟩
  · intro filters h
    rw [apply_eq_filter_sort, apply_eq_filter_sort, schema.keeps_of_perm h]
  · intro t h
    have hsort : t.sort = s.sort := by cases h <;> rfl
    rw [apply_eq_filter_sort, apply_eq_filter_sort, hsort]
    exact List.monotone_filter_right _ fun e he => schema.keeps_of_oneMore h he
  · rw [apply_eq_filter_sort, apply_eq_filter_sort, ← filter_sort, sort_sort, List.filter_filter]
    simp only [Bool.and_self]

/-- Two shirts, of which one has a size. -/
def shirts : List (Entry Nat) :=
  [⟨1, .object [("new", .bool true)]⟩, ⟨2, .object [("new", .bool true), ("size", .text "xl")]⟩]

def shirtSchema : Schema :=
  { Schema.empty with filterFields := [.ofKey "new" .boolean, .ofKey "size" .select] }

theorem apply_shirts_oneMore :
    let s := State.empty.withFilter "new" (.bool true)
    let t := s.withFilter "size" (.text "xl")
    let swapped := (State.empty.withFilter "size" (.text "xl")).withFilter "new" (.bool true)
    s.OneMore t ∧ t.filters.entries ≠ swapped.filters.entries ∧
      (apply shirtSchema t shirts).Sublist (apply shirtSchema s shirts) ∧
      apply shirtSchema swapped shirts = apply shirtSchema t shirts ∧
      apply shirtSchema s (apply shirtSchema s shirts) = apply shirtSchema s shirts := by
  intro s t swapped
  have more : s.OneMore t := .filter t.filters "size" (.text "xl") (by decide) rfl (by decide)
  have perm : swapped.filters.entries.Perm t.filters.entries := by decide
  obtain ⟨-, hsublist, hidem⟩ := apply_perm_sublist_idem shirtSchema s shirts
  obtain ⟨hperm, -⟩ := apply_perm_sublist_idem shirtSchema t shirts
  exact ⟨more, by decide, hsublist t more, hperm swapped.filters perm, hidem⟩

end Narrowing

end Listing
