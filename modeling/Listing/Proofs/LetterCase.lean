import Mathlib.Data.List.Basic
import Listing.Narrowing

namespace Listing

namespace Text

theorem occurs_iff {needle cs : List Char} : occurs needle cs = true ↔ needle <:+: cs := by
  induction cs with
  | nil => simp [occurs]
  | cons c rest ih =>
    rw [occurs, Bool.or_eq_true, List.isPrefixOf_iff_prefix, ih, List.infix_cons_iff]

/-- Whether a capital sigma ends a word, with the text before it read backwards. -/
def endsWord (before rest : List Char) : Bool := meetsCased before && !meetsCased rest

/-- The lower case that a text has between two others, the one before it read backwards. -/
def lowerBetween (before after : List Char) : List Char → List Char
  | [] => []
  | c :: rest =>
    (if c = 'Σ' then (if endsWord before (rest ++ after) then ['ς'] else ['σ']) else lowerChar c) ++
      lowerBetween (c :: before) after rest

/-- Whether every capital sigma of a word has the form between two texts that it has in the word
alone. -/
def KeepsSigmas (before word after : List Char) : Prop :=
  ∀ start rest, word = start ++ 'Σ' :: rest →
    endsWord start.reverse rest = endsWord (start.reverse ++ before.reverse) (rest ++ after)

/-- Whether nothing that stands around a text can change the form of its capital sigmas: a letter
follows in the text, or the text shows that no letter comes before, or both sides are shown. -/
def SettledSigmas (word : List Char) : Prop :=
  ∀ start rest, word = start ++ 'Σ' :: rest →
    meetsCased rest = true ∨ (∃ c ∈ start, isIgnorable c = false) ∧
      (meetsCased start.reverse = false ∨ ∃ c ∈ rest, isIgnorable c = false)

theorem lowerAfter_append (before word after : List Char) :
    lowerAfter before (word ++ after) =
      lowerBetween before after word ++ lowerAfter (word.reverse ++ before) after := by
  induction word generalizing before with
  | nil => rfl
  | cons c rest ih =>
    rw [List.cons_append, lowerAfter, ih, lowerBetween, List.append_assoc, List.reverse_cons,
      List.append_assoc, List.singleton_append]
    rfl

theorem lowerAfter_eq_lowerBetween (before word : List Char) :
    lowerAfter before word = lowerBetween before [] word := by
  have h := lowerAfter_append before word []
  rwa [List.append_nil, lowerAfter, List.append_nil] at h

theorem lowered_eq_lowerBetween (word : List Char) : lowered word = lowerBetween [] [] word :=
  lowerAfter_eq_lowerBetween [] word

theorem lowered_append (word after : List Char) :
    lowered (word ++ after) = lowerBetween [] after word ++ lowerBetween word.reverse [] after := by
  rw [lowered, lowerAfter_append, List.append_nil, lowerAfter_eq_lowerBetween]

/-- A text with one in the middle has the lower cases of its three parts one after the other. -/
theorem lowered_append_append (before word after : List Char) :
    lowered (before ++ word ++ after) = lowerBetween [] (word ++ after) before ++
      (lowerBetween before.reverse after word ++
        lowerAfter (word.reverse ++ before.reverse) after) := by
  rw [lowered, List.append_assoc, lowerAfter_append, List.append_nil, lowerAfter_append]

theorem length_lowerBetween (before after before' after' word : List Char) :
    (lowerBetween before after word).length = (lowerBetween before' after' word).length := by
  induction word generalizing before before' with
  | nil => rfl
  | cons c rest ih =>
    rw [lowerBetween, lowerBetween, List.length_append, List.length_append,
      ih (c :: before) (c :: before')]
    congr 1
    split
    next => split <;> split <;> rfl
    next => rfl

/-- Two surroundings give a text one lower case exactly if they agree on each capital sigma. -/
theorem lowerBetween_eq_iff {before after before' after' word : List Char} :
    lowerBetween before after word = lowerBetween before' after' word ↔
      ∀ start rest, word = start ++ 'Σ' :: rest →
        endsWord (start.reverse ++ before) (rest ++ after) =
          endsWord (start.reverse ++ before') (rest ++ after') := by
  induction word generalizing before before' with
  | nil => simp [lowerBetween]
  | cons c word ih =>
    -- The first character has one length in both surroundings.
    have hsplit : lowerBetween before after (c :: word) = lowerBetween before' after' (c :: word) ↔
        (c = 'Σ' → endsWord before (word ++ after) = endsWord before' (word ++ after')) ∧
          lowerBetween (c :: before) after word = lowerBetween (c :: before') after' word := by
      rw [lowerBetween, lowerBetween]
      by_cases hc : c = 'Σ'
      · rw [if_pos hc, if_pos hc]
        cases endsWord before (word ++ after) <;> cases endsWord before' (word ++ after') <;>
          simp [hc]
      · rw [if_neg hc, if_neg hc, List.append_cancel_left_eq]
        simp [hc]
    rw [hsplit, ih]
    constructor
    · rintro ⟨hfirst, hrest⟩ start rest heq
      cases start with
      | nil =>
        obtain ⟨rfl, rfl⟩ := List.cons.inj heq
        exact hfirst rfl
      | cons d start =>
        obtain ⟨rfl, htail⟩ := List.cons.inj heq
        simpa using hrest start rest htail
    · intro h
      refine ⟨?_, ?_⟩
      · rintro rfl
        exact h [] word rfl
      · rintro start rest rfl
        simpa using h (c :: start) rest rfl

theorem lowered_eq_iff {before word after : List Char} :
    lowered word = lowerBetween before.reverse after word ↔ KeepsSigmas before word after := by
  rw [lowered_eq_lowerBetween, lowerBetween_eq_iff]
  simp only [List.append_nil]
  rfl

theorem meetsCased_append {cs : List Char} (h : ∃ c ∈ cs, isIgnorable c = false)
    (after : List Char) : meetsCased (cs ++ after) = meetsCased cs := by
  induction cs with
  | nil => simp at h
  | cons c rest ih =>
    unfold meetsCased
    cases hc : isIgnorable c with
    | false => simp [hc]
    | true =>
      have hrest : ∃ d ∈ rest, isIgnorable d = false := by simpa [hc] using h
      simpa [List.dropWhile_cons, hc, meetsCased] using ih hrest

theorem meetsCased_append_of_ignorable {cs : List Char} (h : ¬∃ c ∈ cs, isIgnorable c = false)
    (after : List Char) : meetsCased (cs ++ after) = meetsCased after := by
  have hall : ∀ c ∈ cs, isIgnorable c = true := fun c hc =>
    Bool.of_not_eq_false fun hfalse => h ⟨c, hc, hfalse⟩
  rw [meetsCased, List.dropWhile_append_of_pos hall, meetsCased]

theorem exists_of_meetsCased {cs : List Char} (h : meetsCased cs = true) :
    ∃ c ∈ cs, isIgnorable c = false := by
  by_contra hnone
  have hnil := meetsCased_append_of_ignorable hnone []
  rw [List.append_nil, h] at hnil
  exact absurd hnil (by decide)

/-- A settled text has one form in every other. -/
theorem SettledSigmas.keeps {word : List Char} (h : SettledSigmas word) (before after : List Char) :
    KeepsSigmas before word after := by
  intro start rest heq
  rw [endsWord, endsWord]
  rcases h start rest heq with hcased | ⟨⟨c, hc, hstart⟩, hsides⟩
  · rw [meetsCased_append (exists_of_meetsCased hcased), hcased, Bool.not_true, Bool.and_false,
      Bool.and_false]
  · rw [meetsCased_append ⟨c, List.mem_reverse.mpr hc, hstart⟩]
    rcases hsides with hfree | hrest
    · rw [hfree, Bool.false_and, Bool.false_and]
    · rw [meetsCased_append hrest]

/-- A letter on either side tells whether a text is settled. -/
theorem settledSigmas_of_keeps {word : List Char} (hbefore : KeepsSigmas ['A'] word [])
    (hafter : KeepsSigmas [] word ['A']) : SettledSigmas word := by
  have hletter : meetsCased ['A'] = true := by decide +kernel
  intro start rest heq
  have hb := hbefore start rest heq
  have ha := hafter start rest heq
  rw [endsWord, endsWord, List.reverse_singleton, List.append_nil] at hb
  rw [endsWord, endsWord, List.reverse_nil, List.append_nil] at ha
  cases hcased : meetsCased rest with
  | true => exact .inl rfl
  | false =>
    rw [hcased, Bool.not_false, Bool.and_true, Bool.and_true] at hb
    rw [hcased, Bool.not_false, Bool.and_true] at ha
    refine .inr ⟨?_, ?_⟩
    · -- Otherwise a letter before the text would end a word with the sigma.
      by_contra hnone
      have hnone' : ¬∃ c ∈ start.reverse, isIgnorable c = false := by simpa using hnone
      rw [meetsCased_append_of_ignorable hnone', hletter] at hb
      obtain ⟨c, hc, hignorable⟩ := exists_of_meetsCased hb
      exact hnone' ⟨c, hc, hignorable⟩
    · -- Otherwise a letter after the text would go on with the word.
      by_cases hrest : ∃ c ∈ rest, isIgnorable c = false
      · exact .inr hrest
      · rw [meetsCased_append_of_ignorable hrest, hletter, Bool.not_true, Bool.and_false] at ha
        exact .inl ha

/-- Surroundings in which more sigmas end a word leave fewer of the other form. -/
theorem lowerBetween_eq_or_count {before after before' after' word : List Char}
    (h : ∀ start rest, word = start ++ 'Σ' :: rest →
      endsWord (start.reverse ++ before) (rest ++ after) = true →
        endsWord (start.reverse ++ before') (rest ++ after') = true) :
    lowerBetween before after word = lowerBetween before' after' word ∨
      (lowerBetween before after word).count 'ς' < (lowerBetween before' after' word).count 'ς' ∧
        (lowerBetween before' after' word).count 'σ' < (lowerBetween before after word).count 'σ' := by
  induction word generalizing before before' with
  | nil => exact .inl rfl
  | cons c word ih =>
    have hrest := @ih (c :: before) (c :: before') fun start rest heq => by
      simpa using h (c :: start) rest (by rw [heq, List.cons_append])
    rw [lowerBetween, lowerBetween]
    by_cases hc : c = 'Σ'
    · have hfirst := h [] word (by rw [hc, List.nil_append])
      simp only [List.reverse_nil, List.nil_append] at hfirst
      rw [if_pos hc, if_pos hc]
      cases hends : endsWord before (word ++ after) with
      | true =>
        rw [hfirst hends]
        simpa using hrest
      | false =>
        cases hends' : endsWord before' (word ++ after') with
        | false => simpa using hrest
        | true =>
          refine .inr ?_
          rcases hrest with heq | ⟨hfinal, hother⟩
          · simp [heq]
          · simp
            omega
    · rw [if_neg hc, if_neg hc]
      rcases hrest with heq | ⟨hfinal, hother⟩
      · exact .inl (by rw [heq])
      · refine .inr ?_
        rw [List.count_append, List.count_append, List.count_append, List.count_append]
        omega

/-- A word whose capital sigmas keep their form is found in lower case where it stands. -/
theorem lowered_contained {before word after : List Char} (h : KeepsSigmas before word after) :
    lowered word <:+: lowered (before ++ word ++ after) := by
  rw [lowered_append_append, ← lowered_eq_iff.mpr h]
  exact ⟨_, _, List.append_assoc _ _ _⟩

theorem lowered_prefix_iff {word after : List Char} :
    lowered word <+: lowered (word ++ after) ↔ KeepsSigmas [] word after := by
  have hlength : (lowered word).length = (lowerBetween [] after word).length := by
    rw [lowered_eq_lowerBetween]
    exact length_lowerBetween _ _ _ _ _
  rw [lowered_append, ← lowered_eq_iff, List.reverse_nil]
  constructor
  · intro h
    exact (List.prefix_of_prefix_length_le h (List.prefix_append _ _)
      (Nat.le_of_eq hlength)).eq_of_length hlength
  · intro h
    rw [h]
    exact List.prefix_append _ _

theorem lowered_suffix_iff {before word : List Char} :
    lowered word <:+ lowered (before ++ word) ↔ KeepsSigmas before word [] := by
  have hlength : (lowered word).length = (lowerBetween before.reverse [] word).length := by
    rw [lowered_eq_lowerBetween]
    exact length_lowerBetween _ _ _ _ _
  rw [lowered_append, ← lowered_eq_iff]
  constructor
  · intro h
    exact (List.suffix_of_suffix_length_le h (List.suffix_append _ _)
      (Nat.le_of_eq hlength)).eq_of_length hlength
  · intro h
    rw [h]
    exact List.suffix_append _ _

theorem keeps_letter_after {word : List Char} (h : lowered word <:+: lowered (word ++ ['A'])) :
    KeepsSigmas [] word ['A'] := by
  have hmono : ∀ start rest, word = start ++ 'Σ' :: rest →
      endsWord (start.reverse ++ []) (rest ++ ['A']) = true →
        endsWord (start.reverse ++ []) (rest ++ []) = true := by
    intro start rest _ hends
    rw [endsWord, Bool.and_eq_true, Bool.not_eq_true'] at hends ⊢
    refine ⟨hends.1, Bool.eq_false_iff.mpr fun hcased => ?_⟩
    rw [List.append_nil] at hcased
    rw [meetsCased_append (exists_of_meetsCased hcased), hcased] at hends
    exact absurd hends.2 (by decide)
  rcases lowerBetween_eq_or_count hmono with heq | ⟨hfinal, -⟩
  · rw [← lowered_eq_iff, lowered_eq_lowerBetween]
    exact heq.symm
  · -- The final sigmas that the letter takes away are not made up for by it.
    have hcount := h.sublist.count_le 'ς'
    have hletter : (lowerBetween word.reverse [] ['A']).count 'ς' = 0 := by rfl
    rw [lowered_eq_lowerBetween, lowered_append, List.count_append, hletter] at hcount
    omega

theorem keeps_letter_before {word : List Char} (h : lowered word <:+: lowered (['A'] ++ word)) :
    KeepsSigmas ['A'] word [] := by
  have hmono : ∀ start rest, word = start ++ 'Σ' :: rest →
      endsWord (start.reverse ++ []) (rest ++ []) = true →
        endsWord (start.reverse ++ ['A']) (rest ++ []) = true := by
    intro start rest _ hends
    rw [endsWord, Bool.and_eq_true, List.append_nil] at hends
    rw [endsWord, meetsCased_append (exists_of_meetsCased hends.1), Bool.and_eq_true]
    exact hends
  rcases lowerBetween_eq_or_count hmono with heq | ⟨-, hother⟩
  · rw [← lowered_eq_iff, lowered_eq_lowerBetween]
    exact heq
  · have hcount := h.sublist.count_le 'σ'
    have hletter : (lowerBetween [] word ['A']).count 'σ' = 0 := by rfl
    rw [lowered_eq_lowerBetween, lowered_append, List.count_append, hletter] at hcount
    rw [List.reverse_singleton] at hcount
    omega

/-- Settled texts are those that are found in lower case in every text that contains them. -/
theorem settledSigmas_iff {word : List Char} :
    SettledSigmas word ↔ ∀ before after, lowered word <:+: lowered (before ++ word ++ after) := by
  constructor
  · exact fun h before after => lowered_contained (h.keeps before after)
  · intro h
    have hbefore := h ['A'] []
    have hafter := h [] ['A']
    rw [List.append_nil] at hbefore
    rw [List.nil_append] at hafter
    exact settledSigmas_of_keeps (keeps_letter_before hbefore) (keeps_letter_after hafter)

end Text

/-- A text that is contained in another is found there in small letters, provided that its capital
sigmas keep their form: at the beginning and at the end exactly then. It is found in every text that
contains it exactly if its capital sigmas are settled. -/
theorem Text.contained_matches (type : FieldType) (word : String) :
    (SettledSigmas word.toList ↔ ∀ before after : String,
      (Operator.like).test type (.text word) (some (.text (before ++ word ++ after))) = true) ∧
    ∀ before after : String,
      (SettledSigmas word.toList → KeepsSigmas before.toList word.toList after.toList) ∧
      (KeepsSigmas before.toList word.toList after.toList →
        (Operator.like).test type (.text word) (some (.text (before ++ word ++ after))) = true) ∧
      ((Operator.startsWith).test type (.text word) (some (.text (word ++ after))) = true ↔
        KeepsSigmas [] word.toList after.toList) ∧
      ((Operator.endsWith).test type (.text word) (some (.text (before ++ word))) = true ↔
        KeepsSigmas before.toList word.toList []) ∧
      (KeepsSigmas before.toList word.toList after.toList →
        ∀ (α : Type) (schema : Schema) (search : String) (entries : List (Entry α)),
          trim search = word → ∀ e ∈ entries, ∀ f ∈ schema.searchFields, ∀ value,
            e.doc.present? f.key = some value → value.display = before ++ word ++ after →
              e ∈ Narrowing.bySearch schema search entries) := by
  have hfound (before after : String) :
      occurs (lowered word.toList) (lowered (before ++ word ++ after).toList) = true ↔
        lowered word.toList <:+: lowered (before.toList ++ word.toList ++ after.toList) := by
    rw [String.toList_append, String.toList_append, occurs_iff]
  refine ⟨?_, fun before after => ⟨fun h => h.keeps _ _, ?_, ?_, ?_, ?_⟩⟩
  · rw [settledSigmas_iff]
    constructor
    · exact fun h before after => (hfound before after).mpr (h before.toList after.toList)
    · intro h before after
      have hfind := (hfound (String.ofList before) (String.ofList after)).mp (h _ _)
      rwa [String.toList_ofList, String.toList_ofList] at hfind
  · exact fun h => (hfound before after).mpr (lowered_contained h)
  · change (lowered word.toList).isPrefixOf (lowered (word ++ after).toList) = true ↔ _
    rw [String.toList_append, List.isPrefixOf_iff_prefix, lowered_prefix_iff]
  · change (lowered word.toList).isSuffixOf (lowered (before ++ word).toList) = true ↔ _
    rw [String.toList_append, List.isSuffixOf_iff_suffix, lowered_suffix_iff]
  · intro h α schema search entries hterm e he f hf value hvalue hdisplay
    have hterm' : trimmed search.toList = word.toList := by
      rw [← hterm, trim, String.toList_ofList]
    unfold Narrowing.bySearch
    dsimp only
    split
    next => exact he
    next =>
      refine List.mem_filter.mpr ⟨he, List.any_eq_true.mpr ⟨f, hf, ?_⟩⟩
      rw [hvalue, Option.any_some, hdisplay, hterm']
      exact (hfound before after).mpr (lowered_contained h)

/-- Heroes who are searched by name. -/
def heroSchema : Schema := { Schema.empty with searchFields := [.ofKey "name" .string] }

def heroEntry : Entry Unit := ⟨(), .object [("name", .text "ΟΔΥΣΣΕΥΣ Β")]⟩

theorem Text.contained_matches_hero :
    KeepsSigmas "ΟΔΥ".toList "ΣΣΕΥΣ".toList " Β".toList ∧
    (Operator.like).test .string (.text "ΣΣΕΥΣ") (some (.text ("ΟΔΥ" ++ "ΣΣΕΥΣ" ++ " Β"))) = true ∧
    (Operator.startsWith).test .string (.text "ΟΔΥΣΣΕΥΣ") (some (.text ("ΟΔΥΣΣΕΥΣ" ++ " Β"))) =
      true ∧
    (Operator.endsWith).test .string (.text "ΣΕΥΣ Β") (some (.text ("ΟΔΥΣ" ++ "ΣΕΥΣ Β"))) = true ∧
    heroEntry ∈ Narrowing.bySearch heroSchema " ΣΣΕΥΣ " [heroEntry] := by
  have hmiddle : KeepsSigmas "ΟΔΥ".toList "ΣΣΕΥΣ".toList " Β".toList :=
    lowered_eq_iff.mp (by decide +kernel)
  have hfirst : KeepsSigmas [] "ΟΔΥΣΣΕΥΣ".toList " Β".toList :=
    lowered_eq_iff.mp (by decide +kernel)
  have hlast : KeepsSigmas "ΟΔΥΣ".toList "ΣΕΥΣ Β".toList [] := lowered_eq_iff.mp (by decide +kernel)
  have hterm : Text.trim " ΣΣΕΥΣ " = "ΣΣΕΥΣ" := by decide +kernel
  have hvalue : heroEntry.doc.present? "name" = some (.text "ΟΔΥΣΣΕΥΣ Β") := by rfl
  have hdisplay : (Json.text "ΟΔΥΣΣΕΥΣ Β").display = "ΟΔΥ" ++ "ΣΣΕΥΣ" ++ " Β" := by decide +kernel
  obtain ⟨-, hlike, -, -, hsearch⟩ := (Text.contained_matches .string "ΣΣΕΥΣ").2 "ΟΔΥ" " Β"
  obtain ⟨-, -, hstarts, -⟩ := (Text.contained_matches .string "ΟΔΥΣΣΕΥΣ").2 "" " Β"
  obtain ⟨-, -, -, hends, -⟩ := (Text.contained_matches .string "ΣΕΥΣ Β").2 "ΟΔΥΣ" ""
  exact ⟨hmiddle, hlike hmiddle, hstarts.mpr hfirst, hends.mpr hlast,
    hsearch hmiddle Unit heroSchema " ΣΣΕΥΣ " _ hterm heroEntry List.mem_cons_self _
      List.mem_cons_self _ hvalue hdisplay⟩

/-- The beginning of a word that is cut off after a capital sigma is not found in it, and neither is
the sigma at its end. -/
theorem Text.contained_not_found :
    ("ΜΕΣΟΝ" = "ΜΕΣ" ++ "ΟΝ" ∧ "ΝΟΣ" = "ΝΟ" ++ "Σ") ∧
    (Operator.like).test .string (.text "ΜΕΣ") (some (.text "ΜΕΣΟΝ")) = false ∧
    (Operator.startsWith).test .string (.text "ΜΕΣ") (some (.text "ΜΕΣΟΝ")) = false ∧
    (Operator.endsWith).test .string (.text "Σ") (some (.text "ΝΟΣ")) = false ∧
    Narrowing.bySearch heroSchema "ΟΔΥΣ" [heroEntry] = [] := by
  refine ⟨⟨by decide, by decide⟩, ?_, ?_, ?_, ?_⟩
  · decide +kernel
  · decide +kernel
  · decide +kernel
  · have hterm : (Text.lowered (Text.trimmed "ΟΔΥΣ".toList)).isEmpty = false := by decide +kernel
    have hfinds : heroSchema.finds (Text.lowered (Text.trimmed "ΟΔΥΣ".toList)) heroEntry.doc = false := by
      decide +kernel
    unfold Narrowing.bySearch
    simp only [hterm, Bool.false_eq_true, if_false, List.filter_cons, hfinds, List.filter_nil]

end Listing
