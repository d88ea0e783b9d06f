import Listing.Proofs.ItemReadings
import Listing.Proofs.StableSort

namespace Listing

namespace Double

/-- Whether one of two doubles is the negative zero and the other the positive one. -/
def OppositeZeros (a b : Double) : Prop := ∃ negative, a = .zero negative ∧ b = .zero !negative

instance (a b : Double) : Decidable (OppositeZeros a b) :=
  decidable_of_iff (a = .zero true ∧ b = .zero false ∨ a = .zero false ∧ b = .zero true) <| by
    constructor
    · rintro (⟨ha, hb⟩ | ⟨ha, hb⟩)
      · exact ⟨true, ha, hb⟩
      · exact ⟨false, ha, hb⟩
    · rintro ⟨negative, ha, hb⟩
      cases negative
      · exact .inr ⟨ha, hb⟩
      · exact .inl ⟨ha, hb⟩

theorem compareTotal_zeros (negative : Bool) :
    compareTotal (.zero negative) (.zero !negative) = if negative then .lt else .gt := by
  cases negative <;> rfl

theorem compare?_zeros (m n : Bool) : compare? (.zero m) (.zero n) = some .eq := by
  rw [compare?, place?_zero, place?_zero]
  rfl

/-- Comparisons of integers agree when the integers stand in the same order. -/
theorem compare_int_congr {x y x' y' : Int} (hlt : x < y ↔ x' < y') (heq : x = y ↔ x' = y') :
    compare x y = compare x' y' := by
  simp only [compare, compareOfLessAndEq, hlt, heq]

/-- Moving the negative places down by one keeps the order of all places but those of the two
zeros. -/
theorem compare_places {m n : Bool} {r q : Nat} (hne : m ≠ n → ¬ (r = 0 ∧ q = 0)) :
    compare (if m then -(r : Int) else r) (if n then -(q : Int) else q) =
      compare (if m then -(r : Int) - 1 else r) (if n then -(q : Int) - 1 else q) := by
  cases m with
  | false =>
    cases n with
    | false => rfl
    | true =>
      have hne := hne (by decide)
      simp only [Bool.false_eq_true, if_false, if_true]
      exact compare_int_congr (by omega) (by omega)
  | true =>
    cases n with
    | false =>
      have hne := hne (by decide)
      simp only [Bool.false_eq_true, if_false, if_true]
      exact compare_int_congr (by omega) (by omega)
    | true =>
      simp only [if_true]
      exact compare_int_congr (by omega) (by omega)

/-- The total order is that of the values, but for the two zeros. -/
theorem compare?_eq_compareTotal {a b : Double} (ha : a.isNaN = false) (hb : b.isNaN = false)
    (h : ¬ OppositeZeros a b) : a.compare? b = some (a.compareTotal b) := by
  cases a with
  | nan => cases ha
  | ranked m i =>
    cases b with
    | nan => cases hb
    | ranked n j =>
      have hzeros : m ≠ n → ¬ (i.val = 0 ∧ j.val = 0) := by
        rintro hmn ⟨hi, hj⟩
        refine h ⟨m, congrArg _ (Fin.ext hi), ?_⟩
        rw [Bool.eq_not.mpr hmn.symm]
        exact congrArg _ (Fin.ext hj)
      exact congrArg some (compare_places hzeros)

end Double

theorem compareItem?_numbers {a b : Numeral} (ha : a.toDouble.isNaN = false)
    (hb : b.toDouble.isNaN = false) :
    compareItem? .number (.number a) (.number b.toDouble) = a.toDouble.compare? b.toDouble := by
  simp [compareItem?, Json.number?, FilterValue.number?, ha, hb]

theorem compareItem?_instants {a b : String} {t u : Calendar.Instant}
    (ha : Calendar.Instant.parse? a = some t) (hb : Calendar.Instant.parse? b = some u) :
    compareItem? .datetime (.text a) (.text b) = some (t.compare u) := by
  simp [compareItem?, Json.instant?, FilterValue.instant?, ha, hb]

theorem isNaN_of_compareItem? {a b : Numeral} {order : Ordering}
    (h : compareItem? .number (.number a) (.number b.toDouble) = some order) :
    a.toDouble.isNaN = false ∧ b.toDouble.isNaN = false := by
  obtain ⟨x, hx, h⟩ := Option.bind_eq_some_iff.mp h
  obtain ⟨y, hy, -⟩ := Option.bind_eq_some_iff.mp h
  have hnumber : ∀ d z : Double, (if d.isNaN then none else some d) = some z → d.isNaN = false := by
    intro d z hd
    split at hd
    next => cases hd
    next hnan => exact Bool.eq_false_of_not_eq_true hnan
  exact ⟨hnumber _ _ hx, hnumber _ _ hy⟩

theorem isSome_of_compareItem? {a b : String} {order : Ordering}
    (h : compareItem? .datetime (.text a) (.text b) = some order) :
    (Calendar.Instant.parse? a).isSome ∧ (Calendar.Instant.parse? b).isSome := by
  obtain ⟨t, ht, h⟩ := Option.bind_eq_some_iff.mp h
  obtain ⟨u, hu, -⟩ := Option.bind_eq_some_iff.mp h
  exact ⟨Option.isSome_of_eq_some ht, Option.isSome_of_eq_some hu⟩

theorem SortKey.ofItem_instant {s : String} {t : Calendar.Instant}
    (h : Calendar.Instant.parse? s = some t) : ofItem (some (.text s)) = .instant t := by
  simp [ofItem, h]

/-- Values that no bound tells apart: two numbers, or two texts that name instants, of which the
first passes the second as a lower bound and as an upper one. -/
inductive WithinBounds : Json → Json → Prop
  | numbers (a b : Numeral)
      (lower : (Operator.gte).test .number (.number b.toDouble) (some (.number a)) = true)
      (upper : (Operator.lte).test .number (.number b.toDouble) (some (.number a)) = true) :
      WithinBounds (.number a) (.number b)
  | instants (a b : String)
      (lower : (Operator.gte).test .datetime (.text b) (some (.text a)) = true)
      (upper : (Operator.lte).test .datetime (.text b) (some (.text a)) = true) :
      WithinBounds (.text a) (.text b)

theorem compareItem?_eq_of_bounds {type : FieldType} {item : Json} {value : FilterValue}
    (lower : (Operator.gte).test type value (some item) = true)
    (upper : (Operator.lte).test type value (some item) = true) :
    compareItem? type item value = some .eq := by
  obtain ⟨x, hx, hge⟩ := (Option.any_eq_true _ _).mp lower
  obtain ⟨y, hy, hle⟩ := (Option.any_eq_true _ _).mp upper
  obtain ⟨hx, -⟩ := Option.filter_eq_some_iff.mp hx
  obtain ⟨hy, -⟩ := Option.filter_eq_some_iff.mp hy
  cases hx
  cases hy
  obtain ⟨order, horder, hge⟩ := (Option.any_eq_true _ _).mp hge
  obtain ⟨order', horder', hle⟩ := (Option.any_eq_true _ _).mp hle
  have hsame := Option.some.inj (horder.symm.trans horder')
  subst hsame
  rw [horder]
  cases order with
  | eq => rfl
  | lt => cases hge
  | gt => cases hle

namespace SortKey

/-- Numbers are sorted as bounds compare them, but for the two zeros. -/
theorem compare_numbers {a b : Numeral} (ha : a.toDouble.isNaN = false)
    (hb : b.toDouble.isNaN = false) (h : ¬ a.toDouble.OppositeZeros b.toDouble) :
    compareItem? .number (.number a) (.number b.toDouble) =
      some ((ofItem (some (.number a))).compare (ofItem (some (.number b)))) := by
  rw [compareItem?_numbers ha hb]
  exact Double.compare?_eq_compareTotal ha hb h

/-- Texts that name instants are sorted as bounds compare them. -/
theorem compare_instants {a b : String} (ha : (Calendar.Instant.parse? a).isSome)
    (hb : (Calendar.Instant.parse? b).isSome) :
    compareItem? .datetime (.text a) (.text b) =
      some ((ofItem (some (.text a))).compare (ofItem (some (.text b)))) := by
  obtain ⟨t, ht⟩ := Option.isSome_iff_exists.mp ha
  obtain ⟨u, hu⟩ := Option.isSome_iff_exists.mp hb
  rw [compareItem?_instants ht hu, ofItem_instant ht, ofItem_instant hu]
  rfl

/-- The two zeros are one number for bounds, and two for sorting. -/
theorem compare_zeros {a b : Numeral} {negative : Bool} (ha : a.toDouble = .zero negative)
    (hb : b.toDouble = .zero !negative) :
    compareItem? .number (.number a) (.number b.toDouble) = some .eq ∧
      (ofItem (some (.number a))).compare (ofItem (some (.number b))) =
        if negative then .lt else .gt := by
  constructor
  · rw [compareItem?_numbers (by rw [ha]; rfl) (by rw [hb]; rfl), ha, hb, Double.compare?_zeros]
  · change a.toDouble.compareTotal b.toDouble = _
    rw [ha, hb, Double.compareTotal_zeros]

end SortKey

/-- Whether two values are the two zeros. -/
def Json.OppositeZeros (a b : Json) : Prop :=
  ∃ m n, a = .number m ∧ b = .number n ∧ m.toDouble.OppositeZeros n.toDouble

/-- Values that no bound tells apart are ties for sorting, unless they are the two zeros. -/
theorem WithinBounds.compare_eq {a b : Json} (h : WithinBounds a b) (hzeros : ¬ a.OppositeZeros b) :
    (SortKey.ofItem (some a)).compare (.ofItem (some b)) = .eq := by
  cases h with
  | numbers a b lower upper =>
    have heq := compareItem?_eq_of_bounds lower upper
    obtain ⟨ha, hb⟩ := isNaN_of_compareItem? heq
    have hne : ¬ a.toDouble.OppositeZeros b.toDouble := fun h => hzeros ⟨a, b, rfl, rfl, h⟩
    rw [SortKey.compare_numbers ha hb hne] at heq
    exact Option.some.inj heq
  | instants a b lower upper =>
    have heq := compareItem?_eq_of_bounds lower upper
    obtain ⟨ha, hb⟩ := isSome_of_compareItem? heq
    rw [SortKey.compare_instants ha hb] at heq
    exact Option.some.inj heq

/-- Two documents whose values no bound tells apart at any field of the specs, leaving out the two
zeros. -/
def SortSpec.Indistinct (specs : List SortSpec) (a b : Json) : Prop :=
  ∀ spec ∈ specs, ∃ v w, a.resolve? spec.field = some v ∧ b.resolve? spec.field = some w ∧
    WithinBounds v w ∧ ¬ v.OppositeZeros w

theorem SortSpec.Indistinct.compareDocs_eq {specs : List SortSpec} {a b : Json}
    (h : Indistinct specs a b) : compareDocs specs a b = .eq := by
  rw [← tied_iff, tied, List.all_eq_true]
  intro spec hspec
  obtain ⟨v, w, hv, hw, hbounds, hzeros⟩ := h spec hspec
  rw [compare, hv, hw, hbounds.compare_eq hzeros]
  cases spec.direction <;> rfl

/-- Entries that are tied keep their order. -/
theorem Narrowing.pair_sublist_sort {α : Type} {text : String} {entries : List (Entry α)}
    {e e' : Entry α} (h : [e, e'].Sublist entries)
    (tied : compareDocs (SortSpec.parseList text) e.doc e'.doc = .eq) :
    [e, e'].Sublist (sort text entries) := by
  by_cases hspecs : SortSpec.parseList text = []
  · simpa [sort, hspecs] using h
  · rw [sort_eq_mergeSort entries hspecs]
    exact List.pair_sublist_mergeSort (compareDocs_trans _) (compareDocs_total _)
      (by rw [tied]; rfl) h

/-- Numbers, and texts that name instants, are sorted as filters by bounds compare them, but for the
two zeros, which bounds take for one number while the negative one is sorted first. So entries whose
values no bound tells apart keep their order, the two zeros left out. -/
theorem SortKey.compare_agrees (m n : Numeral) (a b : String) {α : Type} (text : String)
    (entries : List (Entry α)) (e e' : Entry α) :
    (m.toDouble.isNaN = false → n.toDouble.isNaN = false →
      ¬ m.toDouble.OppositeZeros n.toDouble →
        compareItem? .number (.number m) (.number n.toDouble) =
          some ((ofItem (some (.number m))).compare (ofItem (some (.number n))))) ∧
    (∀ negative, m.toDouble = .zero negative → n.toDouble = .zero !negative →
      compareItem? .number (.number m) (.number n.toDouble) = some .eq ∧
        (ofItem (some (.number m))).compare (ofItem (some (.number n))) =
          if negative then .lt else .gt) ∧
    ((Calendar.Instant.parse? a).isSome → (Calendar.Instant.parse? b).isSome →
      compareItem? .datetime (.text a) (.text b) =
        some ((ofItem (some (.text a))).compare (ofItem (some (.text b))))) ∧
    ([e, e'].Sublist entries → SortSpec.Indistinct (SortSpec.parseList text) e.doc e'.doc →
      [e, e'].Sublist (Narrowing.sort text entries)) :=
  ⟨compare_numbers, fun _ => compare_zeros, compare_instants,
    fun h hindistinct => Narrowing.pair_sublist_sort h hindistinct.compareDocs_eq⟩

/-- Two integers that round to one double are tied, and so are two spellings of one instant. -/
theorem SortKey.compare_agrees_flights :
    let a := Json.object [("seats", .number (.integer 9007199254740993)),
      ("leaves", .text "2024-06-15T10:00:00+02:00")]
    let b := Json.object [("seats", .number (.integer 9007199254740992)),
      ("leaves", .text "2024-06-15 08:00")]
    SortSpec.Indistinct (SortSpec.parseList "leaves:desc,seats") a b ∧
      [Entry.mk 1 a, Entry.mk 2 b].Sublist
        (Narrowing.sort "leaves:desc,seats" [Entry.mk 1 a, Entry.mk 2 b]) := by
  intro a b
  have hindistinct : SortSpec.Indistinct (SortSpec.parseList "leaves:desc,seats") a b := by
    have hspecs : SortSpec.parseList "leaves:desc,seats" = [⟨"leaves", .desc⟩, ⟨"seats", .asc⟩] := by
      decide +kernel
    rw [hspecs]
    intro spec hspec
    rcases List.mem_pair.mp hspec with rfl | rfl
    · refine ⟨_, _, rfl, rfl, .instants _ _ (by decide +kernel) (by decide +kernel), ?_⟩
      rintro ⟨m, n, h, -⟩
      cases h
    · refine ⟨_, _, rfl, rfl, .numbers _ _ (by decide +kernel) (by decide +kernel), ?_⟩
      rintro ⟨m, n, hm, hn, hzeros⟩
      cases hm
      cases hn
      exact absurd hzeros (by decide +kernel)
  obtain ⟨-, -, -, hsort⟩ := compare_agrees (.integer 9007199254740993)
    (.integer 9007199254740992) "2024-06-15T10:00:00+02:00" "2024-06-15 08:00"
    "leaves:desc,seats" [Entry.mk 1 a, Entry.mk 2 b] (Entry.mk 1 a) (Entry.mk 2 b)
  exact ⟨hindistinct, hsort (List.Sublist.refl _) hindistinct⟩

/-- A positive zero passes the negative one as a bound from both sides, and is sorted behind it. -/
theorem Narrowing.sort_zeros :
    let a := Json.number (.integer 0)
    let b := Json.number (.decimal (.zero true))
    WithinBounds a b ∧ compareItem? .number a (.number (.zero true)) = some .eq ∧
      (SortKey.ofItem (some a)).compare (.ofItem (some b)) = .gt ∧
      ((Narrowing.sort "level:asc" [Entry.mk 1 (.object [("level", a)]),
        Entry.mk 2 (.object [("level", b)])]).map Entry.item) = [2, 1] := by
  intro a b
  let e : Entry Nat := ⟨1, .object [("level", a)]⟩
  let e' : Entry Nat := ⟨2, .object [("level", b)]⟩
  have hspecs : SortSpec.parseList "level:asc" = [⟨"level", .asc⟩] := by decide +kernel
  have hafter : (compareDocs [⟨"level", .asc⟩] e.doc e'.doc).isLE = false := by decide +kernel
  have hsort : sort "level:asc" [e, e'] = [e'] ++ [e] := by
    rw [sort_eq_mergeSort _ (by simp [hspecs]), hspecs]
    exact mergeSort_cons_of_split (compareDocs_trans _) (compareDocs_total _)
      (List.mergeSort_singleton _) (by simpa using hafter) (by simp)
  refine ⟨.numbers _ _ (by decide +kernel) (by decide +kernel), by decide +kernel,
    by decide +kernel, ?_⟩
  rw [hsort]
  rfl

end Listing
