import Mathlib.Tactic.ByContra
import Listing.Narrowing

namespace Listing

instance : Std.TransCmp Double.compareTotal :=
  inferInstanceAs (Std.TransCmp (compareOn Double.totalPlace))

instance : Std.TransCmp Calendar.Instant.compare :=
  inferInstanceAs (Std.TransCmp (compareLex (compareOn Calendar.Instant.seconds)
    (compareOn Calendar.Instant.nanos)))

namespace SortKey

theorem compare_swap (a b : SortKey) : a.compare b = (b.compare a).swap := by
  cases a <;> cases b
  case number.number a b =>
    show a.compareTotal b = (b.compareTotal a).swap
    exact Std.OrientedCmp.eq_swap
  case instant.instant a b =>
    show Calendar.Instant.compare a b = (Calendar.Instant.compare b a).swap
    exact Std.OrientedCmp.eq_swap
  case text.text a b => exact Std.OrientedOrd.eq_swap
  all_goals rfl

theorem compare_of_rank_lt {a b : SortKey} (h : a.rank < b.rank) : a.compare b = .lt := by
  cases a <;> cases b
  case number.number | instant.instant | text.text => exact absurd h (Nat.lt_irrefl _)
  case number.instant | number.text | instant.text => rfl
  all_goals simp [rank] at h

theorem rank_le_of_isLE {a b : SortKey} (h : (a.compare b).isLE = true) : a.rank ≤ b.rank := by
  by_contra hlt
  rw [compare_swap, compare_of_rank_lt (Nat.lt_of_not_le hlt)] at h
  cases h

/-- Keys of one kind are ordered by their values, and those of different kinds by the kind. -/
instance : Std.TransCmp compare where
  eq_swap {a b} := compare_swap a b
  isLE_trans {a b c} hab hbc := by
    have hle := rank_le_of_isLE hab
    have hle' := rank_le_of_isLE hbc
    by_cases hlt : a.rank < c.rank
    · rw [compare_of_rank_lt hlt]
      rfl
    · have hrank : a.rank = b.rank := by omega
      have hrank' : b.rank = c.rank := by omega
      cases a <;> cases b <;> cases hrank <;> cases c <;> cases hrank'
      case number.number.refl.number.refl a b c =>
        have htrans : Std.TransCmp Double.compareTotal := inferInstance
        exact htrans.isLE_trans hab hbc
      case instant.instant.refl.instant.refl a b c =>
        have htrans : Std.TransCmp Calendar.Instant.compare := inferInstance
        exact htrans.isLE_trans hab hbc
      case text.text.refl.text.refl => exact Std.TransOrd.isLE_trans hab hbc

end SortKey

/-- A total preorder of the keys stays one in either direction. -/
theorem SortDirection.transCmp_turn {κ : Type} {cmp : κ → κ → Ordering} [Std.TransCmp cmp]
    (direction : SortDirection) : Std.TransCmp fun a b => direction.turn (cmp a b) := by
  cases direction with
  | asc => exact inferInstanceAs (Std.TransCmp cmp)
  | desc =>
    have hturn : (fun a b => SortDirection.desc.turn (cmp a b)) = fun a b => cmp b a := by
      funext a b
      exact Std.OrientedCmp.eq_swap.symm
    rw [hturn]
    exact Std.TransCmp.opposite

/-- The order of the documents is a total preorder, whatever kinds of values the fields hold. -/
instance transCmp_compareDocs (specs : List SortSpec) : Std.TransCmp (compareDocs specs) := by
  induction specs with
  | nil =>
    exact { eq_swap := rfl, isLE_trans := fun _ _ => rfl }
  | cons spec specs ih =>
    have hturn : Std.TransCmp fun a b : SortKey => spec.direction.turn (a.compare b) :=
      spec.direction.transCmp_turn
    have hkey : Std.TransCmp fun a b : Json => spec.direction.turn
        ((SortKey.ofItem (a.resolve? spec.field)).compare (.ofItem (b.resolve? spec.field))) :=
      { eq_swap := hturn.eq_swap, isLE_trans := hturn.isLE_trans }
    exact inferInstanceAs (Std.TransCmp (compareLex _ (compareDocs specs)))

section StableSort

variable {α : Type} {le : α → α → Bool} (trans : ∀ a b c, le a b = true → le b c = true → le a c = true)
  (total : ∀ a b, (le a b || le b a) = true)

include trans total

/-- An element that is sorted in stands before the first element that it is not after. -/
theorem exists_mergeSort_cons (a : α) (l : List α) :
    ∃ before after, (a :: l).mergeSort le = before ++ a :: after ∧
      l.mergeSort le = before ++ after ∧ (∀ b ∈ before, le a b = false) ∧
        ∀ b ∈ after, le a b = true := by
  obtain ⟨before, after, hcons, hl, hbefore⟩ := List.mergeSort_cons trans total a l
  have hsorted := List.pairwise_mergeSort trans total (a :: l)
  rw [hcons, List.pairwise_append, List.pairwise_cons] at hsorted
  refine ⟨before, after, hcons, hl, ?_, hsorted.2.1.1⟩
  intro b hb
  simpa using hbefore b hb

theorem mergeSort_cons_of_split {a : α} {l before after : List α}
    (hl : l.mergeSort le = before ++ after) (hbefore : ∀ b ∈ before, le a b = false)
    (hafter : ∀ b ∈ after, le a b = true) :
    (a :: l).mergeSort le = before ++ a :: after := by
  obtain ⟨before', after', hcons, hl', hbefore', hafter'⟩ := exists_mergeSort_cons trans total a l
  have hfind : ∀ before after : List α, (∀ b ∈ before, le a b = false) →
      (∀ b ∈ after, le a b = true) → (before ++ after).takeWhile (fun b => !le a b) = before := by
    intro before after hbefore hafter
    rw [List.takeWhile_append_of_pos (by simpa using hbefore)]
    cases after with
    | nil => simp
    | cons b after => simp [hafter b (by simp)]
  have heq : before' = before := by
    rw [← hfind before' after' hbefore' hafter', ← hl', hl, hfind before after hbefore hafter]
  subst heq
  have heq' : after' = after := List.append_cancel_left (hl'.symm.trans hl)
  rw [hcons, heq']

/-- What a filter keeps of a sorted list is the sorted list of what it keeps: equal elements stay
in their order in both. -/
theorem filter_mergeSort (p : α → Bool) (l : List α) :
    (l.mergeSort le).filter p = (l.filter p).mergeSort le := by
  induction l with
  | nil => simp
  | cons a l ih =>
    obtain ⟨before, after, hcons, hl, hbefore, hafter⟩ := exists_mergeSort_cons trans total a l
    rw [hl, List.filter_append] at ih
    rw [hcons, List.filter_append]
    cases hp : p a with
    | true =>
      rw [List.filter_cons_of_pos hp, List.filter_cons_of_pos hp]
      symm
      apply mergeSort_cons_of_split trans total ih.symm
      · exact fun b hb => hbefore b (List.mem_filter.mp hb).1
      · exact fun b hb => hafter b (List.mem_filter.mp hb).1
    | false =>
      rw [List.filter_cons_of_neg (by simp [hp]), List.filter_cons_of_neg (by simp [hp]), ih]

end StableSort

namespace Narrowing

variable {α : Type} (text : String) (entries : List (Entry α))

theorem compareDocs_trans (specs : List SortSpec) (a b c : Entry α)
    (hab : (compareDocs specs a.doc b.doc).isLE = true)
    (hbc : (compareDocs specs b.doc c.doc).isLE = true) :
    (compareDocs specs a.doc c.doc).isLE = true :=
  (transCmp_compareDocs specs).isLE_trans hab hbc

theorem compareDocs_total (specs : List SortSpec) (a b : Entry α) :
    ((compareDocs specs a.doc b.doc).isLE || (compareDocs specs b.doc a.doc).isLE) = true := by
  rw [(transCmp_compareDocs specs).eq_swap (a := b.doc)]
  cases compareDocs specs a.doc b.doc <;> rfl

/-- Filtering and sorting can change places. -/
theorem filter_sort (keep : Entry α → Bool) :
    (sort text entries).filter keep = sort text (entries.filter keep) := by
  by_cases hspecs : SortSpec.parseList text = []
  · simp [sort, hspecs]
  · rw [sort_eq_mergeSort entries hspecs, sort_eq_mergeSort _ hspecs]
    exact filter_mergeSort (compareDocs_trans _) (compareDocs_total _) keep entries

/-- What is sorted stays as it is when it is sorted again. -/
theorem sort_sort : sort text (sort text entries) = sort text entries := by
  by_cases hspecs : SortSpec.parseList text = []
  · simp [sort, hspecs]
  · rw [sort_eq_mergeSort entries hspecs, sort_eq_mergeSort _ hspecs]
    apply List.mergeSort_of_pairwise
    exact List.pairwise_mergeSort (compareDocs_trans _) (compareDocs_total _) entries

end Narrowing

end Listing
