import Listing.Item.Path
import Listing.Proofs.Split

namespace Listing

namespace Json

/-- Where a row of segments leads in a document: through an object to the member of that key,
through an array to the item at that place. -/
inductive Leads : Json → List String → Json → Prop where
  | here (doc : Json) : Leads doc [] doc
  | member {members : List (String × Json)} {key : String} {value found : Json}
      {rest : List String} (hvalue : members.lookup key = some value)
      (hrest : Leads value rest found) : Leads (.object members) (key :: rest) found
  | item {items : List Json} {segment : String} {n : Nat} {value found : Json}
      {rest : List String} (hn : Text.natural? segment.toList = some n)
      (hvalue : items[n]? = some value) (hrest : Leads value rest found) :
      Leads (.array items) (segment :: rest) found

/-- Whether nothing can lie under a value, as under null. -/
def isScalar : Json → Bool
  | .array _ | .object _ => false
  | .null | .bool _ | .number _ | .text _ => true

variable {doc value found : Json} {before after : List String}

theorem descend?_eq_some_iff {segments : List String} :
    doc.descend? (segments.map String.toList) = some found ↔ doc.Leads segments found := by
  induction segments generalizing doc with
  | nil =>
    constructor
    · intro h
      cases h
      exact .here _
    · rintro ⟨⟩
      rfl
  | cons segment rest ih =>
    rw [List.map_cons, descend?, Option.bind_eq_some_iff]
    constructor
    · rintro ⟨value, hvalue, hrest⟩
      unfold child? at hvalue
      split at hvalue
      next members =>
        rw [String.ofList_toList] at hvalue
        exact .member hvalue (ih.mp hrest)
      next items =>
        obtain ⟨n, hn, hitem⟩ := Option.bind_eq_some_iff.mp hvalue
        exact .item hn hitem (ih.mp hrest)
      next => cases hvalue
    · intro h
      cases h with
      | member hvalue hrest => exact ⟨_, by simpa [child?] using hvalue, ih.mpr hrest⟩
      | item hn hvalue hrest => exact ⟨_, by simpa [child?, hn] using hvalue, ih.mpr hrest⟩

/-- A path is followed from segment to segment. -/
theorem resolve?_eq_some_iff {path : String} :
    doc.resolve? path = some found ↔ doc.Leads (Text.split '.' path) found := by
  rw [← descend?_eq_some_iff, resolve?, Text.split, List.map_map]
  simp [Function.comp_def]

theorem Leads.append (hbefore : doc.Leads before value) (hafter : value.Leads after found) :
    doc.Leads (before ++ after) found := by
  induction hbefore with
  | here doc => exact hafter
  | member hvalue hrest ih => exact .member hvalue (ih hafter)
  | item hn hvalue hrest ih => exact .item hn hvalue (ih hafter)

theorem Leads.exists_of_append (h : doc.Leads (before ++ after) found) :
    ∃ value, doc.Leads before value ∧ value.Leads after found := by
  induction before generalizing doc with
  | nil => exact ⟨doc, .here doc, h⟩
  | cons segment before ih =>
    cases h with
    | member hvalue hrest =>
      obtain ⟨value, hbefore, hafter⟩ := ih hrest
      exact ⟨value, .member hvalue hbefore, hafter⟩
    | item hn hvalue hrest =>
      obtain ⟨value, hbefore, hafter⟩ := ih hrest
      exact ⟨value, .item hn hvalue hbefore, hafter⟩

/-- A row of segments leads to one value. -/
theorem Leads.unique {segments : List String} {found' : Json} (h : doc.Leads segments found)
    (h' : doc.Leads segments found') : found = found' :=
  Option.some.inj ((descend?_eq_some_iff.mpr h).symm.trans (descend?_eq_some_iff.mpr h'))

/-- No segment leads on from a scalar. -/
theorem Leads.eq_nil (h : doc.Leads after found) (hdoc : doc.isScalar = true) : after = [] := by
  cases h with
  | here => rfl
  | member => cases hdoc
  | item => cases hdoc

theorem resolve?_append (doc : Json) (p q : String) :
    doc.resolve? (p ++ "." ++ q) = (doc.resolve? p).bind fun value => value.resolve? q := by
  have hsplit : Text.split '.' (p ++ "." ++ q) = Text.split '.' p ++ Text.split '.' q :=
    Text.split_append_sep p q
  ext found
  rw [resolve?_eq_some_iff, hsplit, Option.bind_eq_some_iff]
  constructor
  · intro h
    obtain ⟨value, hp, hq⟩ := h.exists_of_append
    exact ⟨value, resolve?_eq_some_iff.mpr hp, resolve?_eq_some_iff.mpr hq⟩
  · rintro ⟨value, hp, hq⟩
    exact (resolve?_eq_some_iff.mp hp).append (resolve?_eq_some_iff.mp hq)

/-- Nothing is found on a path that passes a scalar, be it the document itself. -/
theorem resolve?_eq_none {path : String} (hpath : Text.split '.' path = before ++ after)
    (hafter : after ≠ []) (h : doc.Leads before value) (hvalue : value.isScalar = true) :
    doc.resolve? path = none := by
  rw [Option.eq_none_iff_forall_ne_some]
  intro found hfound
  rw [resolve?_eq_some_iff, hpath] at hfound
  obtain ⟨value', hbefore, hrest⟩ := hfound.exists_of_append
  obtain rfl := h.unique hbefore
  exact hafter (hrest.eq_nil hvalue)

theorem resolve?_of_isScalar (hdoc : doc.isScalar = true) (path : String) :
    doc.resolve? path = none :=
  resolve?_eq_none (List.nil_append _).symm (Text.split_ne_nil path) (.here doc) hdoc

/-- A path finds what its segments lead to, so a path of two is followed one after the other, and no
path leads on from a scalar. -/
theorem resolve?_composes (doc : Json) :
    (∀ path found, doc.resolve? path = some found ↔ doc.Leads (Text.split '.' path) found) ∧
    (∀ p q, doc.resolve? (p ++ "." ++ q) = (doc.resolve? p).bind fun value => value.resolve? q) ∧
    (∀ p path value, Text.split '.' p <+: Text.split '.' path → p ≠ path →
      doc.resolve? p = some value → value.isScalar = true → doc.resolve? path = none) ∧
    (doc.isScalar = true → ∀ path, doc.resolve? path = none) := by
  refine ⟨fun _ _ => resolve?_eq_some_iff, resolve?_append doc, ?_, resolve?_of_isScalar⟩
  rintro p path value ⟨after, hpath⟩ hne hp hvalue
  refine resolve?_eq_none hpath.symm ?_ (resolve?_eq_some_iff.mp hp) hvalue
  rintro rfl
  rw [List.append_nil] at hpath
  exact hne (Text.split_injective hpath)

/-- A watch with its colour and its two sizes, of which the first is not known. -/
def watch : Json :=
  .object [("colour", .object [("name", .text "red")]), ("sizes", .array [.null, .object []])]

theorem resolve?_composes_watch :
    watch.resolve? ("colour" ++ "." ++ "name") = some (.text "red") ∧
    Text.split '.' "sizes.0" <+: Text.split '.' "sizes.0.unit" ∧
    watch.resolve? "sizes.0" = some .null ∧ watch.resolve? "sizes.0.unit" = none ∧
    (Json.text "red").resolve? "" = none := by
  have hsizes : watch.resolve? "sizes.0" = some .null := rfl
  have hstart : Text.split '.' "sizes.0" <+: Text.split '.' "sizes.0.unit" := by decide
  obtain ⟨-, happend, hscalar, -⟩ := resolve?_composes watch
  refine ⟨?_, hstart, hsizes, hscalar _ _ _ hstart (by decide) hsizes rfl, ?_⟩
  · rw [happend]
    rfl
  · exact (resolve?_composes (.text "red")).2.2.2 rfl ""

end Json

end Listing
