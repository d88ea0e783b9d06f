import Listing.Proofs.SortOrder

namespace Listing

/-- An order in which any two values can be compared, and whose ties are what `eq` accepts. -/
structure TotalPreorder {κ : Type} (cmp : κ → κ → Ordering) (eq : κ → κ → Bool) : Prop where
  refl : ∀ a, (cmp a a).isLE = true
  swap : ∀ a b, cmp b a = (cmp a b).swap
  total : ∀ a b, (cmp a b).isLE = true ∨ (cmp b a).isLE = true
  trans : ∀ a b c, (cmp a b).isLE = true → (cmp b c).isLE = true → (cmp a c).isLE = true
  antisymm : ∀ a b, (cmp a b).isLE = true → (cmp b a).isLE = true → eq a b = true

theorem SortKey.totalPreorder_compare : TotalPreorder SortKey.compare SortKey.same where
  refl _ := Ordering.isLE_of_eq_eq Std.ReflCmp.compare_self
  swap a b := SortKey.compare_swap b a
  total a b := by
    rw [SortKey.compare_swap b a]
    cases a.compare b <;> simp
  trans _ _ _ := Std.TransCmp.isLE_trans
  antisymm a b hab hba := by
    have heq : a.compare b = .eq := Std.OrientedCmp.isLE_antisymm hab hba
    rw [SortKey.same, heq]
    rfl

namespace SortSpec

/-- How a spec orders two documents: by the keys of their values at its field, in its direction. -/
def compare (spec : SortSpec) (a b : Json) : Ordering :=
  spec.direction.turn
    ((SortKey.ofItem (a.resolve? spec.field)).compare (.ofItem (b.resolve? spec.field)))

/-- Whether no spec tells two documents apart. -/
def tied (specs : List SortSpec) (a b : Json) : Bool :=
  specs.all fun spec => spec.compare a b == .eq

/-- Whether the first spec that tells two documents apart, if one does, puts the first one ahead. -/
def InOrder : List SortSpec → Json → Json → Prop
  | [], _, _ => True
  | spec :: specs, a, b =>
    spec.compare a b = .lt ∨ spec.compare a b = .eq ∧ InOrder specs a b

variable {specs : List SortSpec} {a b : Json}

theorem compareDocs_cons (spec : SortSpec) (specs : List SortSpec) (a b : Json) :
    compareDocs (spec :: specs) a b = (spec.compare a b).then (compareDocs specs a b) := rfl

theorem inOrder_iff : InOrder specs a b ↔ (compareDocs specs a b).isLE = true := by
  induction specs with
  | nil => exact ⟨fun _ => rfl, fun _ => trivial⟩
  | cons spec specs ih =>
    rw [InOrder, compareDocs_cons, ih]
    cases spec.compare a b <;> simp

instance : Decidable (InOrder specs a b) := decidable_of_iff _ inOrder_iff.symm

theorem tied_iff : tied specs a b = true ↔ compareDocs specs a b = .eq := by
  induction specs with
  | nil => exact ⟨fun _ => rfl, fun _ => rfl⟩
  | cons spec specs ih =>
    rw [tied, List.all_cons, ← tied, Bool.and_eq_true, ih, compareDocs_cons]
    cases spec.compare a b <;> simp

theorem tied_eq (specs : List SortSpec) (a b : Json) :
    tied specs a b = ((compareDocs specs a b).isLE && (compareDocs specs b a).isLE) := by
  rw [Bool.eq_iff_iff, tied_iff, (transCmp_compareDocs specs).eq_swap (a := b)]
  cases compareDocs specs a b <;> simp

end SortSpec

/-- Whether a list is another one sorted by some specs in the stable way: none of the entries is
lost, their order is that of the specs, and among the entries that are tied with one of them it is
the order they had. -/
structure SortedBy {α : Type} (specs : List SortSpec) (entries sorted : List (Entry α)) : Prop where
  perm : sorted.Perm entries
  ordered : sorted.Pairwise fun a b => SortSpec.InOrder specs a.doc b.doc
  ties : ∀ e ∈ entries, sorted.filter (fun b => SortSpec.tied specs e.doc b.doc) =
    entries.filter fun b => SortSpec.tied specs e.doc b.doc

/-- Sorted lists of the same elements are equal when the elements that are equal for the order stand
in the same order in both. -/
theorem eq_of_pairwise_of_ties {α : Type} {le : α → α → Bool} (refl : ∀ a, le a a = true)
    {l l' : List α} (perm : l.Perm l') (sorted : l.Pairwise fun a b => le a b = true)
    (sorted' : l'.Pairwise fun a b => le a b = true)
    (ties : ∀ a ∈ l, l.filter (fun b => le a b && le b a) = l'.filter fun b => le a b && le b a) :
    l = l' := by
  induction l generalizing l' with
  | nil => exact perm.nil_eq
  | cons a l ih =>
    cases l' with
    | nil => exact absurd perm.eq_nil (by simp)
    | cons b l' =>
      rw [List.pairwise_cons] at sorted sorted'
      -- Each of the two first elements is before the other, so they are tied, and first among ties.
      have hab : le a b = true := by
        rcases List.mem_cons.mp (perm.mem_iff.mpr List.mem_cons_self) with rfl | hb
        · exact refl b
        · exact sorted.1 b hb
      have hba : le b a = true := by
        rcases List.mem_cons.mp (perm.mem_iff.mp List.mem_cons_self) with rfl | ha
        · exact refl a
        · exact sorted'.1 a ha
      have hfirst := ties a List.mem_cons_self
      rw [List.filter_cons_of_pos (by simp [refl]), List.filter_cons_of_pos (by simp [hab, hba])]
        at hfirst
      obtain ⟨rfl, -⟩ := List.cons.inj hfirst
      congr 1
      refine ih perm.cons_inv sorted.2 sorted'.2 ?_
      intro c hc
      have htie := ties c (List.mem_cons_of_mem _ hc)
      rw [List.filter_cons, List.filter_cons] at htie
      split at htie
      next => exact (List.cons.inj htie).2
      next => exact htie

namespace Narrowing

variable {α : Type} {text : String} {entries : List (Entry α)}

/-- Entries that are all tied with one document stay as they are. -/
theorem sort_of_tied {doc : Json}
    (h : ∀ e ∈ entries, SortSpec.tied (SortSpec.parseList text) doc e.doc = true) :
    sort text entries = entries := by
  by_cases hspecs : SortSpec.parseList text = []
  · simp [sort, hspecs]
  · rw [sort_eq_mergeSort entries hspecs]
    apply List.mergeSort_of_pairwise
    apply List.pairwise_of_forall_mem_list
    intro a ha b hb
    have hda := h a ha
    have hdb := h b hb
    rw [SortSpec.tied_eq, Bool.and_eq_true] at hda hdb
    exact (transCmp_compareDocs _).isLE_trans hda.2 hdb.1

theorem sortedBy_sort (text : String) (entries : List (Entry α)) :
    SortedBy (SortSpec.parseList text) entries (sort text entries) := by
  have hties : ∀ doc, (sort text entries).filter
      (fun b => SortSpec.tied (SortSpec.parseList text) doc b.doc) =
        entries.filter fun b => SortSpec.tied (SortSpec.parseList text) doc b.doc := by
    intro doc
    rw [filter_sort]
    exact sort_of_tied fun e he => (List.mem_filter.mp he).2
  by_cases hspecs : SortSpec.parseList text = []
  · have hsort : sort text entries = entries := by simp [sort, hspecs]
    rw [hsort, hspecs]
    exact ⟨.refl _, List.pairwise_of_forall fun _ _ => trivial, fun _ _ => rfl⟩
  · refine ⟨?_, ?_, fun e _ => hties e.doc⟩
    · rw [sort_eq_mergeSort entries hspecs]
      exact List.mergeSort_perm _ _
    · rw [sort_eq_mergeSort entries hspecs]
      refine (List.pairwise_mergeSort (compareDocs_trans _) (compareDocs_total _) entries).imp ?_
      exact SortSpec.inOrder_iff.mpr

/-- The keys that values are sorted by are in a total preorder, whatever kinds of values they are
of. Sorting by a text is the one stable way to sort by its specs, and does nothing without one. -/
theorem sortedBy_iff_eq_sort (text : String) :
    TotalPreorder SortKey.compare SortKey.same ∧
    (SortSpec.parseList text = [] → ∀ entries : List (Entry α), sort text entries = entries) ∧
    ∀ entries sorted : List (Entry α),
      SortedBy (SortSpec.parseList text) entries sorted ↔ sorted = sort text entries := by
  refine ⟨SortKey.totalPreorder_compare, ?_, ?_⟩
  · intro hspecs entries
    simp [sort, hspecs]
  · intro entries sorted
    refine ⟨fun h => ?_, fun h => h ▸ sortedBy_sort text entries⟩
    have hsort := sortedBy_sort text entries
    have hle : ∀ {l : List (Entry α)},
        (l.Pairwise fun a b => SortSpec.InOrder (SortSpec.parseList text) a.doc b.doc) →
          l.Pairwise fun a b => (compareDocs (SortSpec.parseList text) a.doc b.doc).isLE = true :=
      fun hl => hl.imp SortSpec.inOrder_iff.mp
    refine eq_of_pairwise_of_ties ?_ (h.perm.trans hsort.perm.symm) (hle h.ordered)
      (hle hsort.ordered) ?_
    · intro a
      have htrans := transCmp_compareDocs (SortSpec.parseList text)
      exact Ordering.isLE_of_eq_eq Std.ReflCmp.compare_self
    · intro a ha
      have hmem := h.perm.mem_iff.mp ha
      have hties := (h.ties a hmem).trans (hsort.ties a hmem).symm
      simpa only [SortSpec.tied_eq] using hties

/-- Parcels of which two have a number at the field `p`, one a text, one nothing and one a date. -/
def parcels : List (Entry Nat) :=
  [⟨1, .object [("p", .number (.integer 9))]⟩, ⟨2, .object [("p", .number (.integer 9))]⟩,
    ⟨3, .object [("p", .text "Blue")]⟩, ⟨4, .object []⟩, ⟨5, .object [("p", .text "2024-05-01")]⟩]

theorem sort_parcels :
    sort "p:desc" parcels = parcels.drop 2 ++ parcels.take 2 ∧
      SortSpec.parseList " ,:desc" = [] ∧ sort " ,:desc" parcels = parcels := by
  obtain ⟨-, -, hsorted⟩ := sortedBy_iff_eq_sort (α := Nat) "p:desc"
  obtain ⟨-, hnone, -⟩ := sortedBy_iff_eq_sort (α := Nat) " ,:desc"
  have hspecs : SortSpec.parseList " ,:desc" = [] := by decide +kernel
  refine ⟨((hsorted parcels _).mp ⟨?_, ?_, ?_⟩).symm, hspecs, hnone hspecs parcels⟩
  · exact List.perm_append_comm
  · decide +kernel
  · intro e he
    -- Numbers are tied with numbers only, so that one of the two parts has nothing of a tie.
    have hparts : ∀ e ∈ parcels,
        ((parcels.take 2).filter fun b =>
          SortSpec.tied (SortSpec.parseList "p:desc") e.doc b.doc) = [] ∨
        ((parcels.drop 2).filter fun b =>
          SortSpec.tied (SortSpec.parseList "p:desc") e.doc b.doc) = [] := by
      decide +kernel
    conv_rhs => rw [← List.take_append_drop 2 parcels]
    rw [List.filter_append, List.filter_append]
    rcases hparts e he with hnone | hnone
    · rw [hnone, List.append_nil, List.nil_append]
    · rw [hnone, List.append_nil, List.nil_append]

end Narrowing

end Listing
