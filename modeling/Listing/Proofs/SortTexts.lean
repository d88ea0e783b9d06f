import Listing.Proofs.Split
import Listing.Proofs.StableSort
import Listing.Proofs.Trimming
import Listing.Schema.Validation

namespace Listing

namespace SortDirection

theorem parse?_eq_some_iff {s : String} {direction : SortDirection} :
    parse? s = some direction ↔ s.toList.map Char.toLower = direction.name.toList := by
  have hasc : asc.name.toList = ['a', 's', 'c'] := rfl
  have hdesc : desc.name.toList = ['d', 'e', 's', 'c'] := rfl
  simp only [parse?]
  generalize s.toList.map Char.toLower = word
  by_cases hword : word = ['a', 's', 'c']
  · cases direction <;> simp [hword, hasc, hdesc]
  · cases direction <;> simp [hword, hasc, hdesc]

theorem parse_eq_ok_iff {s : String} {direction : SortDirection} :
    parse s = .ok direction ↔ s.toList.map Char.toLower = direction.name.toList := by
  rw [← parse?_eq_some_iff, parse]
  cases parse? s <;> simp

end SortDirection

namespace SortSpec

variable {s name word : String} {spec : SortSpec}

theorem toList_colon (name word : String) :
    (name ++ ":" ++ word).toList = name.toList ++ ':' :: word.toList := by
  rw [String.toList_append, String.toList_append, List.append_assoc]
  rfl

theorem exists_colon (h : ':' ∈ s.toList) :
    ∃ name word, s = name ++ ":" ++ word ∧ ':' ∉ name.toList := by
  obtain ⟨before, after, hs, hbefore⟩ := List.eq_append_cons_of_mem h
  refine ⟨String.ofList before, String.ofList after, ?_, by rwa [String.toList_ofList]⟩
  rw [← String.toList_inj, toList_colon, String.toList_ofList, String.toList_ofList, hs]

theorem parts_of_not_mem (h : ':' ∉ s.toList) : parts s = (Text.trim s, none) := by
  have hnone : Text.cutFirst ':' (Text.trimmed s.toList) = none :=
    Text.cutFirst_of_not_mem fun hmem => h (Text.mem_of_mem_trimmed hmem)
  simp only [parts, hnone]
  rfl

/-- What stands on both sides of the first colon loses the blanks around it. -/
theorem parts_append (h : ':' ∉ name.toList) (word : String) :
    parts (name ++ ":" ++ word) = (Text.trim name, some (Text.trim word)) := by
  have hfree : ':' ∉ Text.trimStart name.toList :=
    fun hmem => h ((List.dropWhile_suffix Text.isBlank).subset hmem)
  have hcut : Text.cutFirst ':' (Text.trimmed (name.toList ++ ':' :: word.toList)) =
      some (Text.trimStart name.toList, Text.trimEnd word.toList) := by
    rw [Text.trimmed_append_cons (by decide), Text.cutFirst_append_sep hfree]
  simp only [parts, toList_colon, hcut, Text.trimmed_trimStart, Text.trimmed_trimEnd]
  rfl

/-- A sort text and the spec that it spells: a field that is not blank, up to the end or the first
colon, and after the colon a direction in capital or small letters. There may be blanks around
both. -/
inductive Spells : String → SortSpec → Prop where
  | ascending {name : String} (free : ':' ∉ name.toList) (given : Text.trim name ≠ "") :
      Spells name ⟨Text.trim name, .asc⟩
  | directed {name word : String} {direction : SortDirection} (free : ':' ∉ name.toList)
      (given : Text.trim name ≠ "")
      (names : (Text.trim word).toList.map Char.toLower = direction.name.toList) :
      Spells (name ++ ":" ++ word) ⟨Text.trim name, direction⟩

theorem parse_of_not_mem (h : ':' ∉ s.toList) :
    parse s = if Text.trim s = "" then .error (.unknownDirection (Text.trim s))
      else .ok ⟨Text.trim s, .asc⟩ := by
  simp only [parse, parts_of_not_mem h]
  split <;> rfl

theorem parse_append (h : ':' ∉ name.toList) (word : String) :
    parse (name ++ ":" ++ word) = (SortDirection.parse (Text.trim word)).bind fun direction =>
      if Text.trim name = "" then .error (.unknownDirection (Text.trim (name ++ ":" ++ word)))
      else .ok ⟨Text.trim name, direction⟩ := by
  simp only [parse, parts_append h]
  refine congrArg _ (funext fun direction => ?_)
  split <;> rfl

theorem parse?_of_not_mem (h : ':' ∉ s.toList) :
    parse? s = if Text.trim s = "" then none else some ⟨Text.trim s, .asc⟩ := by
  simp only [parse?, parts_of_not_mem h]
  rfl

theorem parse?_append (h : ':' ∉ name.toList) (word : String) :
    parse? (name ++ ":" ++ word) = if Text.trim name = "" then none
      else some ⟨Text.trim name, (SortDirection.parse? (Text.trim word)).getD .asc⟩ := by
  simp only [parse?, parts_append h]
  rfl

/-- The strict reader takes just the texts that spell a spec. -/
theorem parse_eq_ok_iff : parse s = .ok spec ↔ Spells s spec := by
  constructor
  · intro h
    by_cases hcolon : ':' ∈ s.toList
    · obtain ⟨name, word, rfl, hfree⟩ := exists_colon hcolon
      rw [parse_append hfree] at h
      cases hdirection : SortDirection.parse (Text.trim word) with
      | error fault =>
        rw [hdirection] at h
        cases h
      | ok direction =>
        rw [hdirection, Except.bind] at h
        split at h
        next => cases h
        next hgiven =>
          cases h
          exact .directed hfree hgiven (SortDirection.parse_eq_ok_iff.mp hdirection)
    · rw [parse_of_not_mem hcolon] at h
      split at h
      next => cases h
      next hgiven =>
        cases h
        exact .ascending hcolon hgiven
  · intro h
    cases h with
    | ascending free given => rw [parse_of_not_mem free, if_neg given]
    | directed free given names =>
      rw [parse_append free, SortDirection.parse_eq_ok_iff.mpr names, Except.bind, if_neg given]

/-- The lenient reader takes what the strict one takes, for the same spec. -/
theorem parse?_of_parse (h : parse s = .ok spec) : parse? s = some spec := by
  cases parse_eq_ok_iff.mp h with
  | ascending free given => rw [parse?_of_not_mem free, if_neg given]
  | directed free given names =>
    rw [parse?_append free, if_neg given, SortDirection.parse?_eq_some_iff.mpr names,
      Option.getD_some]

/-- Whether a spec has a field as it stands before a colon: not empty and without blanks at its
ends. -/
structure Named (spec : SortSpec) : Prop where
  given : spec.field ≠ ""
  trimmed : Text.trim spec.field = spec.field
  free : ':' ∉ spec.field.toList

/-- The lenient reader gives every spec a field that stands in the text before a colon. -/
theorem named_of_parse? (h : parse? s = some spec) :
    spec.Named ∧ ∀ c ∈ spec.field.toList, c ∈ s.toList := by
  have hnamed : ∀ {name : String} {direction : SortDirection}, ':' ∉ name.toList →
      Text.trim name ≠ "" → (⟨Text.trim name, direction⟩ : SortSpec).Named := fun free given =>
    ⟨given, Text.trim_trim _, fun hmem => free (Text.mem_of_mem_trim hmem)⟩
  by_cases hcolon : ':' ∈ s.toList
  · obtain ⟨name, word, rfl, free⟩ := exists_colon hcolon
    rw [parse?_append free, Option.ite_none_left_eq_some] at h
    obtain ⟨given, hspec⟩ := h
    cases hspec
    refine ⟨hnamed free given, fun c hc => ?_⟩
    rw [toList_colon]
    exact List.mem_append_left _ (Text.mem_of_mem_trim hc)
  · rw [parse?_of_not_mem hcolon, Option.ite_none_left_eq_some] at h
    obtain ⟨given, hspec⟩ := h
    cases hspec
    exact ⟨hnamed hcolon given, fun c hc => Text.mem_of_mem_trim hc⟩

/-- The text of a spec spells it. -/
theorem spells_text (h : spec.Named) : Spells spec.text spec := by
  obtain ⟨field, direction⟩ := spec
  obtain ⟨given, trimmed, free⟩ := h
  have hname : (Text.trim direction.name).toList.map Char.toLower = direction.name.toList := by
    cases direction <;> decide
  have hspells : Spells (field ++ ":" ++ direction.name) ⟨Text.trim field, direction⟩ :=
    .directed free (trimmed.symm ▸ given) hname
  rwa [trimmed] at hspells

theorem parse_text (h : spec.Named) : parse spec.text = .ok spec :=
  parse_eq_ok_iff.mpr (spells_text h)

section Lists

variable {specs : List SortSpec}

theorem named_of_mem_parseList (h : spec ∈ parseList s) :
    spec.Named ∧ ',' ∉ spec.text.toList := by
  obtain ⟨part, hpart, hspec⟩ := List.mem_filterMap.mp h
  obtain ⟨named, hfield⟩ := named_of_parse? hspec
  have hcomma : ',' ∉ spec.field.toList := fun hmem =>
    Text.not_mem_of_mem_split hpart (hfield ',' hmem)
  have hname : ',' ∉ spec.direction.name.toList := by
    cases spec.direction <;> decide
  refine ⟨named, ?_⟩
  rw [text, toList_colon, List.mem_append, List.mem_cons]
  rintro (hmem | heq | hmem)
  · exact hcomma hmem
  · cases heq
  · exact hname hmem

theorem filterMap_parse?_map_text (h : ∀ spec ∈ specs, spec.Named) :
    (specs.map text).filterMap parse? = specs := by
  induction specs with
  | nil => rfl
  | cons spec specs ih =>
    obtain ⟨hspec, hspecs⟩ := List.forall_mem_cons.mp h
    rw [List.map_cons, List.filterMap_cons_some (parse?_of_parse (parse_text hspec)), ih hspecs]

/-- Specs are read back from their texts with commas between them. -/
theorem parseList_join (h : ∀ spec ∈ specs, spec.Named ∧ ',' ∉ spec.text.toList) :
    parseList (Text.join ',' (specs.map text)) = specs := by
  cases specs with
  | nil => rfl
  | cons spec rest =>
    have hfree : ∀ part ∈ (spec :: rest).map text, ',' ∉ part.toList := by
      intro part hpart
      obtain ⟨spec, hspec, rfl⟩ := List.mem_map.mp hpart
      exact (h spec hspec).2
    rw [parseList, Text.split_join (by simp) hfree,
      filterMap_parse?_map_text fun spec hspec => (h spec hspec).1]

/-- Where the strict reader takes every part, the lenient one leaves none out. -/
theorem map_parse_eq_map_ok {parts : List String} (h : ∀ part ∈ parts, (parse part).isOk = true) :
    parts.map parse = (parts.filterMap parse?).map Except.ok := by
  induction parts with
  | nil => rfl
  | cons part parts ih =>
    obtain ⟨hpart, hparts⟩ := List.forall_mem_cons.mp h
    cases hspec : parse part with
    | error fault => simp [hspec, Except.isOk, Except.toBool] at hpart
    | ok spec =>
      rw [List.map_cons, List.filterMap_cons_some (parse?_of_parse hspec), List.map_cons, hspec,
        ih hparts]

end Lists

theorem isOk_parse_iff : (parse s).isOk = true ↔ ∃ spec, Spells s spec := by
  simp only [← parse_eq_ok_iff]
  cases parse s <;> simp [Except.isOk, Except.toBool]

/-- A sort text is accepted when each of its parts spells a spec. A blank text has one part, which
spells none. -/
theorem isSortText_iff :
    Schema.isSortText s = true ↔ ∀ part ∈ Text.split ',' s, ∃ spec, Spells part spec := by
  have hparts : ((Text.split ',' s).all fun part => (parse part).isOk) = true ↔
      ∀ part ∈ Text.split ',' s, ∃ spec, Spells part spec := by
    simp only [List.all_eq_true, isOk_parse_iff]
  rw [Schema.isSortText, Bool.and_eq_true, decide_eq_true_eq, hparts, and_iff_right_iff_imp]
  intro hspells hblank
  have hnone : ∀ c, Text.isBlank c = false → c ∉ s.toList := by
    intro c hc hmem
    have htrim : c ∈ (Text.trim s).toList := by
      rw [Text.trim, String.toList_ofList]
      exact (Text.mem_trimmed_iff hc).mpr hmem
    simp [hblank] at htrim
  have hsplit : Text.split ',' s = [s] := by
    rw [Text.split, Text.pieces_of_not_mem (hnone ',' (by decide)), List.map_singleton,
      String.ofList_toList]
  obtain ⟨spec, hspec⟩ := hspells s (by simp [hsplit])
  rw [← parse_eq_ok_iff, parse_of_not_mem (hnone ':' (by decide)), if_pos hblank] at hspec
  cases hspec

/-- Every spec of an option of a valid schema is the strict reading of the part at its place. -/
theorem map_parse_specs {schema : Schema} (valid : schema.validate = .ok ()) {option : SortOption}
    (h : option ∈ schema.sortOptions) :
    (Text.split ',' option.value).map parse = option.specs.map Except.ok := by
  have hsort := Schema.sortFault?_eq_none_iff.mp (Schema.validate_eq_ok_iff.mp valid).2 option h
  have hspells := isSortText_iff.mp hsort
  exact map_parse_eq_map_ok fun part hpart => isOk_parse_iff.mpr (hspells part hpart)

/-- What the strict reader of sort texts takes, the lenient one reads in the same way, and what the
lenient one reads is taken by both once it is written out. So a valid schema offers only orders that
sort by the strict reading of each of their parts. -/
theorem parse_agrees :
    (∀ s spec, parse s = .ok spec → parse? s = some spec) ∧
    (∀ s spec, parse? s = some spec → parse spec.text = .ok spec) ∧
    (∀ s, parseList (Text.join ',' ((parseList s).map text)) = parseList s) ∧
    ∀ schema : Schema, schema.validate = .ok () → ∀ option ∈ schema.sortOptions,
      (Text.split ',' option.value).map parse = option.specs.map Except.ok ∧
        ∀ (α : Type) (entries : List (Entry α)),
          SortedBy option.specs entries (Narrowing.sort option.value entries) := by
  refine ⟨fun s spec => parse?_of_parse, fun s spec h => parse_text (named_of_parse? h).1,
    fun s => parseList_join fun spec => named_of_mem_parseList, fun schema valid option h => ?_⟩
  exact ⟨map_parse_specs valid h, fun α entries => Narrowing.sortedBy_sort option.value entries⟩

/-- A catalogue with the dearest books first. -/
def catalogue : Schema :=
  { Schema.empty with sortOptions := [⟨" price : DESC,title", "Dearest"⟩] }

theorem parse_agrees_catalogue :
    catalogue.validate = .ok () ∧
    parse? " price : DESC" = some ⟨"price", .desc⟩ ∧
    parse (text ⟨"title", .asc⟩) = .ok ⟨"title", .asc⟩ ∧
    parseList "title:up,,:asc" = [⟨"title", .asc⟩] ∧
    parseList (Text.join ',' ((parseList "title:up,,:asc").map text)) = parseList "title:up,,:asc" ∧
    Text.split ',' " price : DESC,title" = [" price : DESC", "title"] ∧
    [parse " price : DESC", parse "title"] = [.ok ⟨"price", .desc⟩, .ok ⟨"title", .asc⟩] := by
  obtain ⟨hlenient, hstrict, hlist, hvalid⟩ := parse_agrees
  have valid : catalogue.validate = .ok () := by decide +kernel
  have hsplit : Text.split ',' " price : DESC,title" = [" price : DESC", "title"] := by
    decide +kernel
  have hspecs : SortOption.specs ⟨" price : DESC,title", "Dearest"⟩ =
      [⟨"price", .desc⟩, ⟨"title", .asc⟩] := by decide +kernel
  obtain ⟨hparts, -⟩ := hvalid catalogue valid _ List.mem_cons_self
  rw [hsplit, hspecs] at hparts
  exact ⟨valid, hlenient _ _ (by decide +kernel),
    hstrict "title:up" ⟨"title", .asc⟩ (by decide +kernel), by decide +kernel, hlist _, hsplit,
    hparts⟩

end SortSpec

end Listing
