import Listing.Schema.Basic

namespace Listing

namespace Text

variable {ending text base : List Char}

theorem append_of_dropEnding? (h : dropEnding? ending text = some base) :
    base ++ ending = text := by
  unfold dropEnding? at h
  split at h
  next hsuffix =>
    cases h
    exact List.suffix_iff_eq_append.mp (List.isSuffixOf_iff_suffix.mp hsuffix)
  next => cases h

theorem dropEnding?_eq_some_iff : dropEnding? ending text = some base ↔ base ++ ending = text := by
  refine ⟨append_of_dropEnding?, ?_⟩
  rintro rfl
  simp [dropEnding?]

theorem dropEnding?_eq_none_iff : dropEnding? ending text = none ↔ ¬ending <:+ text := by
  simp [dropEnding?]

end Text

namespace RangeSuffixes

variable {suffixes : RangeSuffixes} {key base : String} {bound : RangeBound}

/-- A key names the bound whose key it is. One that ends in the lower ending is no upper bound. -/
theorem split?_eq_some_iff :
    suffixes.split? key = some (base, bound) ↔
      base ≠ "" ∧ suffixes.keyFor base bound = key ∧
        (bound = .max → ¬suffixes.min.toList <:+ key.toList) := by
  have hdrop : ∀ ending : String, Text.dropEnding? ending.toList key.toList = some base.toList ↔
      base ++ ending = key := by
    intro ending
    rw [Text.dropEnding?_eq_some_iff, ← String.toList_append, String.toList_inj]
  have hbase : ∀ cs : List Char, String.ofList cs = base ↔ cs = base.toList := by
    intro cs
    rw [← String.toList_inj, String.toList_ofList]
  rw [split?, Option.filter_eq_some_iff, decide_eq_true_eq, and_comm]
  refine and_congr_right fun _ => ?_
  cases hmin : Text.dropEnding? suffixes.min.toList key.toList with
  | some cs =>
    have hends : suffixes.min.toList <:+ key.toList := ⟨cs, Text.append_of_dropEnding? hmin⟩
    cases bound with
    | min => simp [keyFor, ← hdrop, hmin, hbase]
    | max => simp [hends]
  | none =>
    have hends : ¬suffixes.min.toList <:+ key.toList := Text.dropEnding?_eq_none_iff.mp hmin
    cases bound with
    | min => simp [keyFor, ← hdrop, hmin]
    | max => simp [keyFor, ← hdrop, hends, hbase]

/-- A key is the key of the bound that it names. -/
theorem keyFor_of_split? (h : suffixes.split? key = some (base, bound)) :
    suffixes.keyFor base bound = key :=
  (split?_eq_some_iff.mp h).2.1

/-- Every key of a bound names the bound just when no ending is an ending of the other. -/
theorem forall_split?_keyFor_iff :
    (∀ base, base ≠ "" → ∀ bound,
      suffixes.split? (suffixes.keyFor base bound) = some (base, bound)) ↔
        ¬suffixes.min.toList <:+ suffixes.max.toList ∧
          ¬suffixes.max.toList <:+ suffixes.min.toList := by
  constructor
  · intro h
    have hupper : ∀ base, base ≠ "" →
        ¬suffixes.min.toList <:+ base.toList ++ suffixes.max.toList := by
      intro base hbase hends
      have hkey := (split?_eq_some_iff.mp (h base hbase .max)).2.2 rfl
      rw [keyFor, String.toList_append] at hkey
      exact hkey hends
    constructor
    · intro hmin
      exact hupper "x" (by decide) (hmin.trans (List.suffix_append _ _))
    · -- What the lower ending has before the upper one can end the key of a field.
      rintro ⟨front, hfront⟩
      refine hupper (String.ofList ('x' :: front)) (by simp) ⟨['x'], ?_⟩
      rw [String.toList_ofList, ← hfront]
      rfl
  · rintro ⟨hmin, hmax⟩ base hbase bound
    refine split?_eq_some_iff.mpr ⟨hbase, rfl, ?_⟩
    rintro rfl hends
    rw [keyFor, String.toList_append] at hends
    rcases List.suffix_or_suffix_of_suffix hends (List.suffix_append _ _) with h | h
    · exact hmin h
    · exact hmax h

/-- Whatever the endings are, a key that names a bound is the key of the bound. That every key of a
bound is split again takes endings of which none is an ending of the other. -/
theorem split?_inverts_keyFor (suffixes : RangeSuffixes) :
    (∀ key base bound, suffixes.split? key = some (base, bound) →
      base ≠ "" ∧ suffixes.keyFor base bound = key) ∧
    ((∀ base, base ≠ "" → ∀ bound,
      suffixes.split? (suffixes.keyFor base bound) = some (base, bound)) ↔
        ¬suffixes.min.toList <:+ suffixes.max.toList ∧
          ¬suffixes.max.toList <:+ suffixes.min.toList) := by
  refine ⟨fun key base bound h => ?_, forall_split?_keyFor_iff⟩
  obtain ⟨hbase, hkey, -⟩ := split?_eq_some_iff.mp h
  exact ⟨hbase, hkey⟩

theorem split?_inverts_keyFor_standard :
    (∀ base, base ≠ "" → ∀ bound,
      standard.split? (standard.keyFor base bound) = some (base, bound)) ∧
    ("price" ≠ "" ∧ standard.keyFor "price" .max = "price_max") ∧
    ¬∀ base, base ≠ "" → ∀ bound, split? ⟨"_at_most", "most"⟩
      (keyFor ⟨"_at_most", "most"⟩ base bound) = some (base, bound) := by
  obtain ⟨hkey, hall⟩ := split?_inverts_keyFor standard
  obtain ⟨-, hnested⟩ := split?_inverts_keyFor ⟨"_at_most", "most"⟩
  refine ⟨hall.mpr (by decide), hkey "price_max" "price" .max (by decide), ?_⟩
  intro h
  exact absurd (hnested.mp h) (by decide)

end RangeSuffixes

end Listing
