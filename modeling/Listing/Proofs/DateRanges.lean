import Listing.Proofs.Backends
import Listing.Proofs.Empties

namespace Listing

namespace Calendar.Instant

/-- Whether an instant comes after the last millisecond of its day, in what is left of the last
second or in a leap second there. -/
def IsLate (t : Instant) : Prop := t.seconds % 86400 = 86399 ∧ 999000000 < t.nanos

instance (t : Instant) : Decidable t.IsLate := inferInstanceAs (Decidable (_ ∧ _))

theorem compare_isLE_iff {a b : Instant} : (a.compare b).isLE = true ↔
    a.seconds < b.seconds ∨ a.seconds = b.seconds ∧ a.nanos ≤ b.nanos := by
  have hseconds : (Ord.compare a.seconds b.seconds = .lt ↔ a.seconds < b.seconds) ∧
      (Ord.compare a.seconds b.seconds = .eq ↔ a.seconds = b.seconds) :=
    ⟨compare_lt_iff_lt, compare_eq_iff_eq⟩
  have hnanos : (Ord.compare a.nanos b.nanos).isLE = true ↔ a.nanos ≤ b.nanos := Nat.isLE_compare
  unfold Instant.compare
  cases horder : Ord.compare a.seconds b.seconds with
  | lt =>
    have hlt := hseconds.1.mp horder
    simp [Ordering.then, hlt]
  | eq =>
    have heq := hseconds.2.mp horder
    simp [Ordering.then, heq, hnanos]
  | gt =>
    have hnot : ¬(a.seconds < b.seconds ∨ a.seconds = b.seconds) := by
      rintro (h | h)
      · exact absurd (horder.symm.trans (hseconds.1.mpr h)) (by decide)
      · exact absurd (horder.symm.trans (hseconds.2.mpr h)) (by decide)
    simp only [Ordering.then, Ordering.isLE]
    grind

/-- The end of a day comes after all earlier days, and after its own day but for what is left after
the last millisecond. -/
theorem compare_endOfDay_isLE_iff {t stop : Instant} :
    (t.compare stop.endOfDay).isLE = true ↔
      t.day < stop.day ∨ t.day = stop.day ∧ ¬t.IsLate := by
  rw [compare_isLE_iff]
  simp only [endOfDay, day, IsLate]
  omega

/-- What comes on a day up to that of another instant comes up to that instant, or after it on its
day. -/
theorem day_le_iff {a b : Instant} : a.day ≤ b.day ↔
    (a.compare b).isLE = true ∨ a.day = b.day ∧ (a.compare b).isGT = true := by
  have hgt : (a.compare b).isGT = true ↔ ¬(a.compare b).isLE = true := by
    cases a.compare b <;> decide
  rw [hgt, compare_isLE_iff]
  simp only [day]
  omega

end Calendar.Instant

open Calendar (Instant)

/-- The instant of the value that a document has at a field. -/
def Json.dateAt? (doc : Json) (field : String) : Option Instant :=
  (doc.present? field).bind Json.instant?

/-- An order with a text, as instants, looks at the instants of both sides. -/
theorem Json.any_compareItem?_text (doc : Json) (field text : String) (p : Ordering → Bool) :
    (((doc.resolve? field).filter fun value => !value.isNull).any fun item =>
        (compareItem? .datetime item (.text text)).any p) =
      (doc.dateAt? field).any fun t => (Instant.parse? text).any fun bound => p (t.compare bound) := by
  change ((doc.present? field).any _) = _
  rw [Json.dateAt?]
  cases doc.present? field with
  | none => rfl
  | some item =>
    change Option.any p (do return (← item.instant?).compare (← Instant.parse? text)) = _
    cases hitem : item.instant? with
    | none => simp [hitem]
    | some t => cases hbound : Instant.parse? text <;> simp [hitem]

namespace DateRange

/-- The bounds that are given. -/
def bounds (range : DateRange) : List String := range.lower?.toList ++ range.upper?.toList

/-- Whether all bounds that are given name instants. -/
def IsReadable (range : DateRange) : Prop :=
  ∀ text ∈ range.bounds, (Instant.parse? text).isSome = true

instance (range : DateRange) : Decidable range.IsReadable := inferInstanceAs (Decidable (∀ _ ∈ _, _))

def first? (range : DateRange) : Option Instant := range.lower?.bind Instant.parse?

def last? (range : DateRange) : Option Instant := range.upper?.bind Instant.parse?

/-- The bounds as tests on a field that is read as an instant. -/
def tests (range : DateRange) (field : String) : List Test :=
  (range.lower?.map fun text => ⟨field, .gte, .datetime, .text text⟩).toList ++
    (range.upper?.map fun text => ⟨field, .lte, .datetime, .text text⟩).toList

variable {range : DateRange} {field : String} {doc : Json}

theorem covers_iff : range.covers field doc = true ↔ ∃ t, doc.dateAt? field = some t ∧
    (∀ start ∈ range.first?, (t.compare start).isGE = true) ∧
      ∀ stop ∈ range.last?, (t.compare stop.endOfDay).isLE = true := by
  unfold covers first? last? Json.dateAt?
  cases (doc.present? field).bind Json.instant? with
  | none => simp
  | some t => simp [Option.all_eq_true]

/-- A bound that names an instant is passed by the values on its side of it. -/
theorem passes_iff {text : String} {bound : Instant} (hbound : Instant.parse? text = some bound)
    {op : Operator} {p : Ordering → Bool}
    (hop : ∀ item, op.accepts .datetime (.text text) item =
      (compareItem? .datetime item (.text text)).any p) :
    Test.passes ⟨field, op, .datetime, .text text⟩ doc = true ↔
      ∃ t, doc.dateAt? field = some t ∧ p (t.compare bound) = true := by
  have haccepts := funext hop
  rw [Test.passes, Operator.test, haccepts, Json.any_compareItem?_text, hbound]
  cases doc.dateAt? field <;> simp

/-- A bound as tests is passed by what has an instant on its side of it. -/
theorem forall_passes_toList (field : String) (doc : Json) {o : Option String}
    (readable : ∀ text ∈ o, (Instant.parse? text).isSome = true) {op : Operator}
    {p : Ordering → Bool}
    (hop : ∀ text item, op.accepts .datetime (.text text) item =
      (compareItem? .datetime item (.text text)).any p) :
    (∀ test ∈ (o.map fun text => (⟨field, op, .datetime, .text text⟩ : Test)).toList,
        test.passes doc = true) ↔
      ∀ bound ∈ o.bind Instant.parse?, ∃ t, doc.dateAt? field = some t ∧
        p (t.compare bound) = true := by
  cases o with
  | none => simp
  | some text =>
    obtain ⟨bound, hbound⟩ := Option.isSome_iff_exists.mp (readable text rfl)
    simp [passes_iff hbound (hop text), hbound]

theorem forall_passes_lower (readable : range.IsReadable) :
    (∀ test ∈ (range.lower?.map fun text =>
        (⟨field, .gte, .datetime, .text text⟩ : Test)).toList, test.passes doc = true) ↔
      ∀ start ∈ range.first?, ∃ t, doc.dateAt? field = some t ∧ (t.compare start).isGE = true :=
  forall_passes_toList field doc
    (fun text h => readable text (List.mem_append_left _ (Option.mem_toList.mpr h))) fun _ _ => rfl

theorem forall_passes_upper (readable : range.IsReadable) :
    (∀ test ∈ (range.upper?.map fun text =>
        (⟨field, .lte, .datetime, .text text⟩ : Test)).toList, test.passes doc = true) ↔
      ∀ stop ∈ range.last?, ∃ t, doc.dateAt? field = some t ∧ (t.compare stop).isLE = true :=
  forall_passes_toList field doc
    (fun text h => readable text (List.mem_append_right _ (Option.mem_toList.mpr h))) fun _ _ => rfl

/-- Of the tests, those of lower bounds are passed by what comes at or after the first date. -/
theorem forall_gte_passes_iff (readable : range.IsReadable) :
    (∀ test ∈ range.tests field, test.operator = .gte → test.passes doc = true) ↔
      ∀ start ∈ range.first?, ∃ t, doc.dateAt? field = some t ∧
        (t.compare start).isGE = true := by
  rw [← forall_passes_lower readable, tests, List.forall_mem_append]
  cases range.lower? <;> cases range.upper? <;> simp

/-- A range with a bound has an instant to compare with if its bounds can be read. -/
theorem exists_bound (readable : range.IsReadable) (given : range.hasBounds = true) :
    range.first?.isSome = true ∨ range.last?.isSome = true := by
  unfold IsReadable bounds at readable
  rw [hasBounds, Bool.or_eq_true] at given
  refine given.imp ?_ ?_
  · intro h
    obtain ⟨text, htext⟩ := Option.isSome_iff_exists.mp h
    rw [first?, htext]
    exact readable text (by simp [htext])
  · intro h
    obtain ⟨text, htext⟩ := Option.isSome_iff_exists.mp h
    rw [last?, htext]
    exact readable text (by simp [htext])

/-- Bounds that all name instants are passed as tests by what has an instant between them. -/
theorem forall_passes_iff (readable : range.IsReadable) (given : range.hasBounds = true) :
    (∀ test ∈ range.tests field, test.passes doc = true) ↔ ∃ t, doc.dateAt? field = some t ∧
      (∀ start ∈ range.first?, (t.compare start).isGE = true) ∧
        ∀ stop ∈ range.last?, (t.compare stop).isLE = true := by
  rw [tests, List.forall_mem_append, forall_passes_lower readable, forall_passes_upper readable]
  cases hdate : doc.dateAt? field with
  | none =>
    have hsome := exists_bound readable given
    simp only [Option.isSome_iff_exists] at hsome
    simp only [reduceCtorEq, false_and, exists_false, iff_false, not_and]
    rintro hfirst hlast
    rcases hsome with ⟨start, hstart⟩ | ⟨stop, hstop⟩
    · exact hfirst start hstart
    · exact hlast stop hstop
  | some t =>
    simp only [Option.some.injEq, exists_eq_left']

end DateRange

namespace SuffixedQuery

variable {separator : String} {schema : Schema} {s : State} {field : String} {range : DateRange}

theorem dateEmissions_eq (separator field : String) (range : DateRange) :
    dateEmissions separator (some (field, range)) = (range.tests field).map fun test =>
      (paramName separator test.path test.operator, .text test.value.param) := by
  cases hlower : range.lower? <;> cases hupper : range.upper? <;>
    simp [dateEmissions, DateRange.tests, hlower, hupper, FilterValue.param]

theorem toList_paramName {op : Operator} (hop : op ≠ .eq) :
    (paramName separator field op).toList =
      (field ++ separator).toList ++ op.name.toList := by
  rw [paramName, if_neg hop, String.toList_append]

/-- The bounds and the sort order have parameters of their own. -/
theorem nodup_last (separator : String) (range : DateRange) (field sort : String) :
    ((dateEmissions separator (some (field, range)) ++ Params.sortEmissions sort).map
      Prod.fst).Nodup := by
  have hbounds : paramName separator field .gte ≠ paramName separator field .lte := by
    intro h
    have hlist := congrArg String.toList h
    rw [toList_paramName (by decide), toList_paramName (by decide)] at hlist
    exact absurd (List.append_cancel_left hlist) (by decide)
  have hsort : ∀ op : Operator, op.name.toList.getLast? = some 'e' → op ≠ .eq →
      paramName separator field op ≠ "sort" := by
    intro op hlast hop h
    have hlist := congrArg String.toList h
    rw [toList_paramName hop] at hlist
    have hend := congrArg List.getLast? hlist
    rw [List.getLast?_append, hlast, Option.some_or] at hend
    exact absurd hend (by decide)
  have hgte := hsort .gte (by decide) (by decide)
  have hlte := hsort .lte (by decide) (by decide)
  unfold Params.sortEmissions Params.sortName
  cases hlower : range.lower? <;> cases hupper : range.upper? <;> by_cases h : sort = "" <;>
    simp [dateEmissions, hlower, hupper, h, hbounds, hgte, hlte]

/-- The bounds of the active date range are in the query as they were given. -/
theorem get?_compile_date (active : s.activeDateRange? = some (field, range)) {test : Test}
    (htest : test ∈ range.tests field) :
    (compile separator schema s).get? (paramName separator test.path test.operator) =
      some (.text test.value.param) := by
  have hmem : (paramName separator test.path test.operator, .text test.value.param) ∈
      dateEmissions separator (some (field, range)) ++ Params.sortEmissions s.sort := by
    rw [dateEmissions_eq]
    exact List.mem_append_left _ (List.mem_map_of_mem htest)
  have hnodup := nodup_last separator range field s.sort
  rw [compile_eq, Compiler.get?_compile, active]
  change (((dateEmissions separator (some (field, range)) ++
    Params.sortEmissions s.sort).reverse.lookup _).or _).or _ = _
  rw [(OrderedMap.lookup_eq_some_iff_mem (by rwa [List.map_reverse, List.nodup_reverse])).mpr
    (List.mem_reverse.mpr hmem)]
  rfl

end SuffixedQuery

namespace Narrowing

variable {α : Type} {s : State} {field : String} {range : DateRange} {entries : List (Entry α)}

theorem mem_byDate_iff (active : s.activeDateRange? = some (field, range)) {e : Entry α} :
    e ∈ byDate s entries ↔ e ∈ entries ∧ range.covers field e.doc = true := by
  unfold byDate
  rw [active, List.mem_filter]

/-- But for what is late on the last day, the date range leaves what the parameter of its lower bound
lets through on all days up to the last. So it agrees with its parameters exactly on what does not
come after the last date, as it is given, on the day of that date. -/
theorem byDate_iff_dateTests (active : s.activeDateRange? = some (field, range))
    (readable : range.IsReadable) (separator : String) (schema : Schema) :
    (∀ test ∈ range.tests field,
      (SuffixedQuery.compile separator schema s).get?
        (SuffixedQuery.paramName separator test.path test.operator) =
          some (.text test.value.param)) ∧
    ∀ e ∈ entries, (∀ t ∈ e.doc.dateAt? field, ∀ stop ∈ range.last?,
        t.day = stop.day → ¬t.IsLate) →
      (e ∈ byDate s entries ↔ ∃ t, e.doc.dateAt? field = some t ∧
        (∀ test ∈ range.tests field, test.operator = .gte → test.passes e.doc = true) ∧
          ∀ stop ∈ range.last?, t.day ≤ stop.day) ∧
      ((e ∈ byDate s entries ↔ ∀ test ∈ range.tests field, test.passes e.doc = true) ↔
        ¬∃ t stop, e.doc.dateAt? field = some t ∧ range.last? = some stop ∧
          (∀ test ∈ range.tests field, test.operator = .gte → test.passes e.doc = true) ∧
          t.day = stop.day ∧ (t.compare stop).isGT = true) := by
  obtain ⟨_, -, hactive⟩ := Option.bind_eq_some_iff.mp active
  obtain ⟨_, hfield, heq⟩ := Option.bind_eq_some_iff.mp hactive
  cases heq
  have given := (DateRange.hasBounds_of_activeField? hfield).2.2
  refine ⟨fun test htest => SuffixedQuery.get?_compile_date active htest, fun e he hlate => ?_⟩
  have hcovers : e ∈ byDate s entries ↔ range.covers field e.doc = true := by
    rw [mem_byDate_iff active, and_iff_right he]
  rw [hcovers, DateRange.covers_iff, DateRange.forall_gte_passes_iff readable,
    DateRange.forall_passes_iff readable given]
  cases hdate : e.doc.dateAt? field with
  | none => simp
  | some t =>
    cases hlast : range.last? with
    | none => simp
    | some stop =>
      have hday : (t.compare stop.endOfDay).isLE = true ↔ t.day ≤ stop.day := by
        have hnot := hlate t hdate stop hlast
        rw [Calendar.Instant.compare_endOfDay_isLE_iff, Int.le_iff_lt_or_eq]
        exact or_congr_right (and_iff_left_of_imp hnot)
      have hgt : (t.compare stop).isGT = true → ¬(t.compare stop).isLE = true := by
        cases t.compare stop <;> decide
      simp only [Option.some.injEq, exists_eq_left', exists_and_left, Option.mem_def, forall_eq',
        hday, Calendar.Instant.day_le_iff]
      grind

/-- Visits late on a day and at the start of the next one. -/
def visits : List (Entry Nat) :=
  [⟨1, .object [("seen", .text "2024-06-15T23:00:00")]⟩,
    ⟨2, .object [("seen", .text "2024-06-15T23:59:59.9995")]⟩,
    ⟨3, .object [("seen", .text "2024-06-16")]⟩]

def visitRange : DateRange := ⟨some "seen", some "2024-06-15", some "2024-06-15"⟩

def visitState : State := State.empty.withDateRange (some visitRange)

/-- A visit in the evening is listed, but the parameter of the last day asks for its midnight. -/
theorem byDate_ne_dateTests : visitState.activeDateRange? = some ("seen", visitRange) ∧
    visitRange.IsReadable ∧
    (SuffixedQuery.compile SuffixedQuery.standardSeparator .empty visitState).entries =
      [("seen__gte", .text "2024-06-15"), ("seen__lte", .text "2024-06-15")] ∧
    ∃ e ∈ visits, e ∈ byDate visitState visits ∧
      ¬∀ test ∈ visitRange.tests "seen", test.passes e.doc = true := by
  have active : visitState.activeDateRange? = some ("seen", visitRange) := by decide
  refine ⟨active, by decide +kernel, by decide +kernel, visits[0], List.getElem_mem _, ?_, ?_⟩
  · exact (mem_byDate_iff active).mpr ⟨List.getElem_mem _, by decide +kernel⟩
  · decide +kernel

theorem byDate_iff_dateTests_visits :
    visitState.activeDateRange? = some ("seen", visitRange) ∧ visitRange.IsReadable ∧
    (SuffixedQuery.compile "." .empty visitState).get? "seen.lte" = some (.text "2024-06-15") ∧
    visits[0] ∈ visits ∧
    (∀ t ∈ visits[0].doc.dateAt? "seen", ∀ stop ∈ visitRange.last?,
      t.day = stop.day → ¬t.IsLate) ∧ visits[0] ∈ byDate visitState visits := by
  have active : visitState.activeDateRange? = some ("seen", visitRange) := by decide
  have readable : visitRange.IsReadable := by decide +kernel
  have hmem : visits[0] ∈ visits := List.getElem_mem _
  have hlate : ∀ t ∈ visits[0].doc.dateAt? "seen", ∀ stop ∈ visitRange.last?,
      t.day = stop.day → ¬t.IsLate := by
    decide +kernel
  obtain ⟨hquery, hentries⟩ := @byDate_iff_dateTests _ _ _ _ visits active readable "." .empty
  refine ⟨active, readable, hquery ⟨"seen", .lte, .datetime, .text "2024-06-15"⟩ (.tail _ (.head _)),
    hmem, hlate, (hentries _ hmem hlate).1.mpr ⟨⟨1718492400, 0⟩, ?_⟩⟩
  decide +kernel

/-- Whatever comes at or after the first date on a day up to the last is left, but for what is late
on the last day. Nothing of a later day is left. -/
theorem mem_byDate_of_day (active : s.activeDateRange? = some (field, range)) {e : Entry α}
    (he : e ∈ entries) {t : Instant} (ht : e.doc.dateAt? field = some t) :
    ((∀ start ∈ range.first?, (t.compare start).isGE = true) →
      (∀ stop ∈ range.last?, t.day ≤ stop.day) →
        (e ∈ byDate s entries ↔ ∀ stop ∈ range.last?, t.day = stop.day → ¬t.IsLate)) ∧
    ((∃ stop ∈ range.last?, stop.day < t.day) → e ∉ byDate s entries) := by
  have hcovers : e ∈ byDate s entries ↔ (∀ start ∈ range.first?, (t.compare start).isGE = true) ∧
      ∀ stop ∈ range.last?, t.day < stop.day ∨ t.day = stop.day ∧ ¬t.IsLate := by
    simp [mem_byDate_iff active, he, DateRange.covers_iff, ht,
      Calendar.Instant.compare_endOfDay_isLE_iff]
  constructor
  · intro hfirst hlast
    rw [hcovers, and_iff_right hfirst]
    refine forall₂_congr fun stop hstop => ?_
    have hday := hlast stop hstop
    constructor
    · rintro (hlt | ⟨-, hlate⟩) heq
      · omega
      · exact hlate
    · intro h
      rcases Int.lt_or_eq_of_le hday with hlt | heq
      · exact .inl hlt
      · exact .inr ⟨heq, h heq⟩
  · rintro ⟨stop, hstop, hlt⟩ hmem
    rcases (hcovers.mp hmem).2 stop hstop with hlt' | ⟨heq, -⟩
    · omega
    · omega

/-- In the last millisecond of the last day a visit is not listed any more. -/
theorem byDate_late_visit : visitState.activeDateRange? = some ("seen", visitRange) ∧
    visitRange.IsReadable ∧ ∃ e ∈ visits, ∃ t, e.doc.dateAt? "seen" = some t ∧
      (∀ start ∈ visitRange.first?, (t.compare start).isGE = true) ∧
      (∀ stop ∈ visitRange.last?, t.day = stop.day) ∧ e ∉ byDate visitState visits := by
  have active : visitState.activeDateRange? = some ("seen", visitRange) := by decide
  refine ⟨active, by decide +kernel, visits[1], List.getElem_mem _, ⟨1718495999, 999500000⟩,
    by decide +kernel, by decide +kernel, by decide +kernel, ?_⟩
  rw [mem_byDate_iff active, not_and]
  intro
  decide +kernel

theorem mem_byDate_of_day_visits : visitState.activeDateRange? = some ("seen", visitRange) ∧
    visits[0] ∈ visits ∧ visits[0] ∈ byDate visitState visits ∧
    visits[2] ∈ visits ∧ visits[2] ∉ byDate visitState visits := by
  have active : visitState.activeDateRange? = some ("seen", visitRange) := by decide
  have hevening := @mem_byDate_of_day _ _ _ _ visits active visits[0]
    (List.getElem_mem _) ⟨1718492400, 0⟩ (by decide +kernel)
  have hmorning := @mem_byDate_of_day _ _ _ _ visits active visits[2]
    (List.getElem_mem _) ⟨1718496000, 0⟩ (by decide +kernel)
  refine ⟨active, List.getElem_mem _, ?_, List.getElem_mem _, ?_⟩
  · exact (hevening.1 (by decide +kernel) (by decide +kernel)).mpr (by decide +kernel)
  · exact hmorning.2 (by decide +kernel)

end Narrowing

end Listing
