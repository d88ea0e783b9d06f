import Listing.Item.Test
import Listing.Proofs.DateText

namespace Listing

namespace Double

theorem splitSign_eq (cs : List Char) : ∃ sign, cs = sign ++ (splitSign cs).2 ∧ ':' ∉ sign := by
  unfold splitSign
  split
  next rest => exact ⟨['-'], rfl, by decide⟩
  next rest => exact ⟨['+'], rfl, by decide⟩
  next => exact ⟨[], rfl, List.not_mem_nil⟩

theorem colon_not_mem_of_isDigit {cs : List Char} (h : ∀ c ∈ cs, c.isDigit = true) : ':' ∉ cs :=
  (Calendar.isPlain_of_isDigit h).1

theorem colon_not_mem_of_readExponent {cs : List Char} {e : Int} (h : readExponent cs = some e) :
    ':' ∉ cs := by
  cases cs with
  | nil => exact List.not_mem_nil
  | cons c rest =>
    simp only [readExponent, Option.ite_none_right_eq_some, Option.ite_none_left_eq_some] at h
    obtain ⟨hc, hdigits, -⟩ := h
    simp only [Bool.or_eq_true, not_or, Bool.not_eq_true, Bool.not_eq_false', List.all_eq_true]
      at hdigits
    obtain ⟨sign, hrest, hsign⟩ := splitSign_eq rest
    rw [hrest, List.mem_cons, List.mem_append, not_or, not_or]
    refine ⟨?_, hsign, colon_not_mem_of_isDigit hdigits.2⟩
    rintro rfl
    exact absurd hc (by decide)

theorem colon_not_mem_of_readDecimal {cs : List Char} {d : Decimal} (h : readDecimal cs = some d) :
    ':' ∉ cs := by
  have hdigits : ∀ cs : List Char, ':' ∉ cs.takeWhile Char.isDigit := fun cs =>
    colon_not_mem_of_isDigit fun c hc => List.mem_takeWhile_imp hc
  have hsplit : ∀ cs : List Char, ':' ∉ cs.dropWhile Char.isDigit → ':' ∉ cs := by
    intro cs hrest
    rw [← @List.takeWhile_append_dropWhile _ Char.isDigit cs, List.mem_append, not_or]
    exact ⟨hdigits cs, hrest⟩
  dsimp only [readDecimal] at h
  apply hsplit
  generalize cs.dropWhile Char.isDigit = rest at h
  split at h
  all_goals
    simp only [Option.ite_none_left_eq_some, Option.map_eq_some_iff] at h
    obtain ⟨-, e, hexponent, -⟩ := h
    have hrest := colon_not_mem_of_readExponent hexponent
  next tail => simpa using hsplit tail hrest
  next => exact hrest

/-- No number is written with a colon. -/
theorem colon_not_mem_of_parse? {s : String} {d : Double} (h : parse? s = some d) :
    ':' ∉ s.toList := by
  obtain ⟨sign, hs, hsign⟩ := splitSign_eq s.toList
  unfold parse? at h
  rw [hs, List.mem_append, not_or]
  refine ⟨hsign, fun hmem => ?_⟩
  have hword : ':' ∈ (splitSign s.toList).2.map Char.toLower := List.mem_map.mpr ⟨':', hmem, rfl⟩
  dsimp only at h
  split at h
  next hnan =>
    rw [hnan] at hword
    exact absurd hword (by decide)
  next =>
    split at h
    next hinf =>
      rcases hinf with hinf | hinf
      all_goals
        rw [hinf] at hword
        exact absurd hword (by decide)
    next =>
      obtain ⟨e, hread, -⟩ := Option.map_eq_some_iff.mp h
      exact colon_not_mem_of_readDecimal hread hmem

end Double

namespace Calendar

/-- Before its first colon a date has two dashes, whatever blanks stand around it. -/
theorem IsDateLike.two_le_count {head rest : List Char} (hhead : ':' ∉ head)
    (h : IsDateLike (Text.trimmed (head ++ ':' :: rest))) : 2 ≤ head.count '-' := by
  obtain ⟨first, tails, hpieces, hdashes, -⟩ := h
  obtain ⟨before, after, heq, hbefore, -⟩ := Text.exists_trimmed (head ++ ':' :: rest)
  have hcolon : ':' ∈ Text.trimmed (head ++ ':' :: rest) :=
    (Text.mem_trimmed_iff (by decide)).mpr (by simp)
  obtain ⟨head', rest', htrimmed, hhead'⟩ := List.eq_append_cons_of_mem hcolon
  rw [htrimmed, Text.pieces_append_sep hhead', List.cons.injEq] at hpieces
  rw [htrimmed] at heq
  have hblanks : ':' ∉ before ++ head' := by
    simpa [(isPlain_of_isBlank hbefore).1] using hhead'
  have hcut := Text.cutFirst_append_sep hhead rest
  rw [heq, show before ++ (head' ++ ':' :: rest') ++ after =
    (before ++ head') ++ ':' :: (rest' ++ after) by simp, Text.cutFirst_append_sep hblanks] at hcut
  cases hcut
  rw [List.count_append, hpieces.1]
  omega

theorem IsDateLike.count_colon_le {cs : List Char} (h : IsDateLike (Text.trimmed cs)) :
    cs.count ':' ≤ 3 := by
  obtain ⟨head, tails, hpieces, -, htails, -⟩ := h
  have hlength := @Text.length_pieces ':' (Text.trimmed cs)
  rw [hpieces, Text.count_trimmed (by decide), List.length_cons] at hlength
  omega

end Calendar

namespace Range

/-- Whether a text names a number or a date, without regard to blanks around it. -/
def IsReadable (s : String) : Prop :=
  (Double.parse? (Text.trim s)).isSome = true ∨ (Calendar.Instant.parse? s).isSome = true

instance (s : String) : Decidable (IsReadable s) := inferInstanceAs (Decidable (_ ∨ _))

/-- The bounds of a range that are not missing. -/
def bounds (r : Range) : List String := r.min.toList ++ r.max.toList

/-- Whether the text of a range says where its lower bound ends: no bound is empty or has blanks
around it, and if one has a colon, each can be read. -/
structure Encodable (r : Range) : Prop where
  given : ∀ s ∈ r.bounds, s ≠ "" ∧ Text.trim s = s
  divisible : (∀ s ∈ r.bounds, ':' ∉ s.toList) ∨ ∀ s ∈ r.bounds, IsReadable s

instance (r : Range) : Decidable r.Encodable :=
  decidable_of_iff
    ((∀ s ∈ r.bounds, s ≠ "" ∧ Text.trim s = s) ∧
      ((∀ s ∈ r.bounds, ':' ∉ s.toList) ∨ ∀ s ∈ r.bounds, IsReadable s))
    ⟨fun h => ⟨h.1, h.2⟩, fun h => ⟨h.given, h.divisible⟩⟩

theorem isBound_iff {half : List Char} :
    isBound half = true ↔ Text.trimmed half = [] ∨ IsReadable (String.ofList half) := by
  have hparse : Calendar.Instant.parse? (String.ofList (Text.trimmed half)) =
      Calendar.Instant.parse? (String.ofList half) := by
    simp only [Calendar.Instant.parse?, String.toList_ofList, Text.trimmed_trimmed]
  simp only [isBound, IsReadable, Text.trim, String.toList_ofList, hparse, Bool.or_eq_true,
    decide_eq_true_eq, or_assoc, String.ofList_eq_empty_iff]

/-- Only a date is a bound with a colon. -/
theorem isDateLike_of_isBound {half : List Char} (h : isBound half = true) (hcolon : ':' ∈ half) :
    Calendar.IsDateLike (Text.trimmed half) := by
  have hmem : ':' ∈ Text.trimmed half := (Text.mem_trimmed_iff (by decide)).mpr hcolon
  rcases isBound_iff.mp h with hempty | hnumber | hdate
  · rw [hempty] at hmem
    cases hmem
  · obtain ⟨d, hd⟩ := Option.isSome_iff_exists.mp hnumber
    have hnot := Double.colon_not_mem_of_parse? hd
    rw [Text.trim, String.toList_ofList, String.toList_ofList] at hnot
    exact absurd hmem hnot
  · obtain ⟨t, ht⟩ := Option.isSome_iff_exists.mp hdate
    simpa using Calendar.isDateLike_of_parse? ht

theorem count_colon_of_isBound {half : List Char} (h : isBound half = true) :
    half.count ':' ≤ 3 := by
  by_cases hcolon : ':' ∈ half
  · exact (isDateLike_of_isBound h hcolon).count_colon_le
  · rw [List.count_eq_zero_of_not_mem hcolon]
    omega

/-- A text is divided as if the cuts at all its colons were tried. -/
theorem parse?_eq {n : Nat} (hn : 4 ≤ n) (s : String) :
    parse? s =
      (((Text.cuts ':' n s.toList).find? fun (min, max) => isBound min && isBound max) <|>
        Text.cutFirst ':' s.toList).map fun (min, max) =>
          ofBounds (some (String.ofList (Text.trimmed min)))
            (some (String.ofList (Text.trimmed max))) := by
  have hcuts := @Text.find?_cuts_of_le ':' 4 n (fun (min, max) => isBound min && isBound max) hn
    (fun before after hp => Nat.lt_succ_of_le
      (count_colon_of_isBound (Bool.and_eq_true_iff.mp hp).1)) s.toList
  rw [parse?, ← hcuts]

/-- A text in front of the separator of a range is cut nowhere if it can be read: what stands after
one of its own colons has no date in front. -/
theorem isBound_of_cut {before b a after : List Char}
    (hreadable : ':' ∈ before → Calendar.IsDateLike before) (hcut : before = b ++ ':' :: a) :
    isBound (a ++ ':' :: after) = false := by
  obtain ⟨head, tails, hpieces, -, -, htails⟩ := hreadable (by simp [hcut])
  obtain ⟨piece, others, ha, hpiece, hrest⟩ := @Text.exists_first_piece ':' a
  obtain ⟨rest, heq⟩ := hrest after
  rw [heq]
  by_contra hbound
  rw [Bool.not_eq_false] at hbound
  have htwo := (isDateLike_of_isBound hbound (by simp)).two_le_count hpiece
  have hone : piece.count '-' ≤ 1 := by
    obtain ⟨first, firsts, hb⟩ := List.exists_cons_of_ne_nil (@Text.pieces_ne_nil ':' b)
    rw [hcut, Text.pieces_append_sep_append, hb, ha, List.cons_append, List.cons.injEq] at hpieces
    refine htails piece ?_
    rw [← hpieces.2]
    simp
  omega

variable {r : Range}

theorem toList_encode (r : Range) :
    r.encode.toList = (r.min.getD "").toList ++ ':' :: (r.max.getD "").toList := by
  simp [encode]

/-- A half of the text of a range is a bound by itself if all bounds can be read. -/
theorem isBound_getD {o : Option String} (h : ∀ s ∈ o, IsReadable s) :
    isBound (o.getD "").toList = true := by
  cases o with
  | none => rfl
  | some s => exact isBound_iff.mpr (.inr (by simpa using h s rfl))

theorem trimmed_getD {o : Option String} (h : ∀ s ∈ o, Text.trim s = s) :
    Text.trimmed (o.getD "").toList = (o.getD "").toList := by
  cases o with
  | none => rfl
  | some s =>
    have htrim := congrArg String.toList (h s rfl)
    rwa [Text.trim, String.toList_ofList] at htrim

theorem mem_bounds_of_min {s : String} (h : s ∈ r.min) : s ∈ r.bounds := by
  simp [bounds, Option.mem_def.mp h]

theorem mem_bounds_of_max {s : String} (h : s ∈ r.max) : s ∈ r.bounds := by
  simp [bounds, Option.mem_def.mp h]

/-- The text of a range is divided where its bounds meet. -/
theorem Encodable.divided (h : r.Encodable) :
    (((Text.cuts ':' 4 r.encode.toList).find? fun (min, max) => isBound min && isBound max) <|>
      Text.cutFirst ':' r.encode.toList) =
        some ((r.min.getD "").toList, (r.max.getD "").toList) := by
  rw [toList_encode]
  rcases h.divisible with hcolon | hreadable
  · have hhalf : ∀ o : Option String, (∀ s ∈ o, s ∈ r.bounds) → ':' ∉ (o.getD "").toList := by
      intro o ho
      cases o with
      | none => exact List.not_mem_nil
      | some s => exact hcolon s (ho s rfl)
    have hlower := hhalf r.min fun _ => mem_bounds_of_min
    rw [Text.cuts_append_sep hlower (hhalf r.max fun _ => mem_bounds_of_max),
      Text.cutFirst_append_sep hlower, List.find?_singleton]
    by_cases hbound : (isBound (r.min.getD "").toList && isBound (r.max.getD "").toList) = true
    · rw [if_pos hbound]
      rfl
    · rw [if_neg hbound]
      rfl
  · have hlower := isBound_getD fun s hs => hreadable s (mem_bounds_of_min hs)
    have hupper := isBound_getD fun s hs => hreadable s (mem_bounds_of_max hs)
    have htrimmed := trimmed_getD fun s hs => (h.given s (mem_bounds_of_min hs)).2
    have hlike : ':' ∈ (r.min.getD "").toList → Calendar.IsDateLike (r.min.getD "").toList := by
      intro hcolon
      rw [← htrimmed]
      exact isDateLike_of_isBound hlower hcolon
    rw [Text.find?_cuts (Nat.lt_succ_of_le (count_colon_of_isBound hlower))]
    · rfl
    · exact Bool.and_eq_true_iff.mpr ⟨hlower, hupper⟩
    · intro b a hcut
      exact Bool.and_eq_false_iff.mpr (.inr (isBound_of_cut hlike hcut))

/-- The text of a range reads back as the range. -/
theorem parse?_encode (h : r.Encodable) : parse? r.encode = some r := by
  have hhalf : ∀ o : Option String, (∀ s ∈ o, s ∈ r.bounds) →
      (some (String.ofList (Text.trimmed (o.getD "").toList))).filter (· ≠ "") = o := by
    intro o ho
    rw [trimmed_getD fun s hs => (h.given s (ho s hs)).2, String.ofList_toList]
    cases o with
    | none => rfl
    | some s => simp [(h.given s (ho s rfl)).1]
  dsimp only [parse?]
  rw [h.divided, Option.map_some, ofBounds, hhalf r.min fun _ => mem_bounds_of_min,
    hhalf r.max fun _ => mem_bounds_of_max]

end Range

/-- An item lies between the bounds of a range with both, read from its text, and nothing passes any
other range. -/
theorem isBetween_encode {r : Range} (h : r.Encodable) (type : FieldType) (item : Json) :
    isBetween type item (.text r.encode) =
      match r with
      | ⟨some min, some max⟩ =>
        Operator.gte.accepts type (.text min) item && Operator.lte.accepts type (.text max) item
      | _ => false := by
  simp only [isBetween, FilterValue.param, Range.parse?_encode h]
  obtain ⟨_ | min, _ | max⟩ := r
  all_goals rfl

/-- The text of a range reads back as the range, and as a filter it asks for both of its bounds. A
range without two bounds is passed by nothing. -/
theorem Range.parse?_encode_and_test {r : Range} (h : r.Encodable) :
    parse? r.encode = some r ∧ ∀ op : Operator, op.isRanged = true →
      ∀ (type : FieldType) (item : Option Json),
        (∀ min max, r = ⟨some min, some max⟩ → op.test type (.text r.encode) item =
          (Operator.gte.test type (.text min) item && Operator.lte.test type (.text max) item)) ∧
        (r.isClosed = false → op.test type (.text r.encode) item = false) := by
  refine ⟨parse?_encode h, fun op hop type item => ?_⟩
  have hranged : op.accepts type (.text r.encode) =
      fun item => isBetween type item (.text r.encode) := by
    cases op with
    | between | range => rfl
    | eq | like | startsWith | endsWith | isIn | gte | lte | gt | lt => cases hop
  constructor
  · rintro min max rfl
    simp only [Operator.test, hranged, isBetween_encode h]
    cases item.filter fun value => !value.isNull with
    | none => rfl
    | some value => rfl
  · intro hopen
    have hnone : ∀ item, isBetween type item (.text r.encode) = false := by
      intro item
      rw [isBetween_encode h]
      obtain ⟨_ | min, _ | max⟩ := r
      · rfl
      · rfl
      · rfl
      · cases hopen
    simp only [Operator.test, hranged, hnone]
    cases item.filter fun value => !value.isNull <;> rfl

/-- A shift that starts in another time zone. -/
def shiftTimes : Range := ⟨some "2024-01-01T10:00:00+02:00", some "2024-01-01T18:00"⟩

/-- A shift without an end. -/
def openShift : Range := ⟨some "2024-01-01T10:00", none⟩

theorem Range.parse?_shiftTimes :
    (shiftTimes.Encodable ∧ Operator.between.isRanged = true ∧
      parse? "2024-01-01T10:00:00+02:00:2024-01-01T18:00" = some shiftTimes ∧
      Operator.between.test .datetime (.text "2024-01-01T10:00:00+02:00:2024-01-01T18:00")
        (some (.text "2024-01-01 08:30:15")) = true) ∧
    openShift.Encodable ∧ openShift.isClosed = false ∧
      parse? "2024-01-01T10:00:" = some openShift ∧
      Operator.range.test .datetime (.text "2024-01-01T10:00:")
        (some (.text "2024-01-01 12:00")) = false := by
  have hshift : shiftTimes.Encodable := by decide +kernel
  have hread := parse?_encode_and_test hshift
  have htest := (hread.2 .between rfl .datetime (some (.text "2024-01-01 08:30:15"))).1 _ _ rfl
  have hopen : openShift.Encodable := by decide +kernel
  have hread' := parse?_encode_and_test hopen
  have htest' := (hread'.2 .range rfl .datetime (some (.text "2024-01-01 12:00"))).2 rfl
  refine ⟨⟨hshift, rfl, hread.1, htest.trans ?_⟩, hopen, rfl, hread'.1, htest'⟩
  decide +kernel

end Listing
