import Mathlib.Data.List.Induction
import Listing.Proofs.Maps
import Listing.Proofs.StateRuns

namespace Listing

namespace OrderedMap

variable {α : Type}

theorem erase_eq_self {m : OrderedMap α} {key : String} (h : key ∉ m.keys) : m.erase key = m := by
  apply ext
  refine List.filter_eq_self.mpr fun entry hentry => ?_
  have hne : entry.1 ≠ key := by
    rintro rfl
    exact h (List.mem_map_of_mem hentry)
  simpa using hne

theorem erase_erase (m : OrderedMap α) (key k : String) :
    (m.erase k).erase key = (m.erase key).erase k := by
  apply ext
  change (m.entries.filter _).filter _ = (m.entries.filter _).filter _
  rw [List.filter_filter, List.filter_filter]
  exact List.filter_congr fun entry _ => Bool.and_comm _ _

/-- What was put under a key goes with the key. -/
theorem erase_insert_self (m : OrderedMap α) (key : String) (value : α) :
    (m.insert key value).erase key = m.erase key := by
  have hput : ∀ entries : List (String × α),
      (put key value entries).filter (fun e => e.1 ≠ key) =
        entries.filter fun e => e.1 ≠ key := by
    intro entries
    induction entries with
    | nil => simp [put]
    | cons entry rest ih =>
      obtain ⟨k, v⟩ := entry
      by_cases hk : k = key
      · simp [put, hk]
      · simp only [put, if_neg hk, List.filter_cons, ih]
  exact ext (hput m.entries)

theorem erase_insert_of_ne (m : OrderedMap α) {key k : String} (h : k ≠ key) (value : α) :
    (m.insert k value).erase key = (m.erase key).insert k value := by
  have hput : ∀ entries : List (String × α),
      (put k value entries).filter (fun e => e.1 ≠ key) =
        put k value (entries.filter fun e => e.1 ≠ key) := by
    intro entries
    induction entries with
    | nil => simp [put, h]
    | cons entry rest ih =>
      obtain ⟨k', v⟩ := entry
      by_cases hk' : k' = k
      · subst hk'
        simp [put, h]
      · rw [put, if_neg hk', List.filter_cons, List.filter_cons, ih]
        split
        next => rw [put, if_neg hk']
        next => rfl
  exact ext (hput m.entries)

end OrderedMap

namespace Step

/-- Whether a step is a choice on the state itself, and no link. -/
def isChoice : Step → Bool
  | .follow _ | .restore _ => false
  | _ => true

/-- Whether a step sets filters or takes them away. -/
def setsFilters : Step → Bool
  | .filter _ _ | .unfilter _ | .clear => true
  | _ => false

/-- Whether a step sets the filter of a key or takes this one away. -/
def names (key : String) : Step → Bool
  | .filter k _ | .unfilter k => k = key
  | _ => false

/-- Whether a step decides what the filter of a key is. -/
def touches (key : String) : Step → Bool
  | .clear => true
  | step => step.names key

/-- The value that a step leaves under the keys it touches. -/
def leaves? : Step → Option FilterValue
  | .filter _ value => if value.isEmpty then none else some value
  | _ => none

theorem eq_filter_of_leaves? {choice : Step} {key : String} {value : FilterValue}
    (h : choice.touches key = true) (hvalue : choice.leaves? = some value) :
    choice = .filter key value ∧ value.isEmpty = false := by
  cases choice with
  | filter k v =>
    have hk : k = key := by simpa [touches, names] using h
    simp only [leaves?] at hvalue
    split at hvalue
    next => cases hvalue
    next hv =>
      cases hvalue
      exact ⟨by rw [hk], by simpa using hv⟩
  | search | unfilter | sort | dateRange | clear | follow | restore => cases hvalue

end Step

namespace State

variable {schema : Schema} {s t : State} {steps : List Step} {key : String}

/-- The state after some steps from a given one. -/
def runFrom (schema : Schema) (s : State) (steps : List Step) : State :=
  steps.foldl (step schema) s

theorem runFrom_append (schema : Schema) (s : State) (steps later : List Step) :
    runFrom schema s (steps ++ later) = runFrom schema (runFrom schema s steps) later :=
  List.foldl_append

theorem runFrom_concat (schema : Schema) (s : State) (steps : List Step) (last : Step) :
    runFrom schema s (steps ++ [last]) = (runFrom schema s steps).step schema last :=
  runFrom_append schema s steps [last]

section Values

/-- A choice that touches a key decides its filter, and any other leaves it alone. -/
theorem get?_step {choice : Step} (h : choice.isChoice = true) :
    (s.step schema choice).filters.get? key =
      if choice.touches key then choice.leaves? else s.filters.get? key := by
  cases choice with
  | search | sort | dateRange => rfl
  | follow | restore => cases h
  | clear => rfl
  | unfilter k =>
    simp only [step, withoutFilter, OrderedMap.get?_erase, Step.touches, Step.names, Step.leaves?,
      decide_eq_true_eq, eq_comm (a := key)]
  | filter k value =>
    simp only [step, withFilter, Step.touches, Step.names, Step.leaves?, decide_eq_true_eq]
    split
    next => rw [OrderedMap.get?_erase, if_congr eq_comm rfl rfl]
    next => rw [OrderedMap.get?_insert, if_congr eq_comm rfl rfl]

theorem get?_runFrom_of_untouched (choices : ∀ step ∈ steps, step.isChoice = true)
    (untouched : ∀ step ∈ steps, step.touches key = false) :
    (runFrom schema s steps).filters.get? key = s.filters.get? key := by
  induction steps using List.reverseRecOn with
  | nil => rfl
  | append_singleton steps last ih =>
    rw [runFrom_concat, get?_step (choices last (by simp)), untouched last (by simp)]
    exact ih (fun step h => choices step (List.mem_append_left _ h))
      fun step h => untouched step (List.mem_append_left _ h)

/-- A filter stands at the end of a run if it stood at the start and no step touched its key, or if
the last step that touched the key set it. -/
theorem get?_runFrom_iff (choices : ∀ step ∈ steps, step.isChoice = true) {value : FilterValue} :
    (runFrom schema s steps).filters.get? key = some value ↔
      (s.filters.get? key = some value ∧ ∀ step ∈ steps, step.touches key = false) ∨
      ∃ before after, steps = before ++ .filter key value :: after ∧ value.isEmpty = false ∧
        ∀ step ∈ after, step.touches key = false := by
  constructor
  · intro h
    induction steps using List.reverseRecOn with
    | nil => exact .inl ⟨h, by simp⟩
    | append_singleton steps last ih =>
      rw [runFrom_concat, get?_step (choices last (by simp))] at h
      split at h
      next htouches =>
        obtain ⟨rfl, hvalue⟩ := Step.eq_filter_of_leaves? htouches h
        exact .inr ⟨steps, [], rfl, hvalue, by simp⟩
      next htouches =>
        have hlast : last.touches key = false := by simpa using htouches
        rcases ih (fun step hstep => choices step (List.mem_append_left _ hstep)) h with
          ⟨hstart, huntouched⟩ | ⟨before, after, rfl, hvalue, huntouched⟩
        · refine .inl ⟨hstart, fun step hstep => ?_⟩
          rcases List.mem_append.mp hstep with hstep | hstep
          · exact huntouched step hstep
          · rwa [List.mem_singleton.mp hstep]
        · refine .inr ⟨before, after ++ [last], by simp, hvalue, fun step hstep => ?_⟩
          rcases List.mem_append.mp hstep with hstep | hstep
          · exact huntouched step hstep
          · rwa [List.mem_singleton.mp hstep]
  · rintro (⟨hstart, huntouched⟩ | ⟨before, after, rfl, hvalue, huntouched⟩)
    · rw [get?_runFrom_of_untouched choices huntouched, hstart]
    · have hafter : ∀ step ∈ after, step.isChoice = true := fun step hstep =>
        choices step (by simp [hstep])
      rw [List.append_cons, runFrom_append, get?_runFrom_of_untouched hafter huntouched,
        runFrom_concat, get?_step rfl]
      simp [Step.touches, Step.names, Step.leaves?, hvalue]

end Values

section Order

/-- A key that is present from the `n`-th step of a run on and was not before it. With `n = 0` it is
present from the start. -/
structure Arrives (schema : Schema) (s : State) (steps : List Step) (key : String) (n : Nat) :
    Prop where
  absent : ∀ m, m + 1 = n → key ∉ (runFrom schema s (steps.take m)).filters.keys
  present : ∀ m, n ≤ m → key ∈ (runFrom schema s (steps.take m)).filters.keys

/-- A choice takes keys away, or puts one new key after the others. -/
theorem keys_step (schema : Schema) (s : State) {choice : Step} (h : choice.isChoice = true) :
    (s.step schema choice).filters.keys.Sublist s.filters.keys ∨
      ∃ new, new ∉ s.filters.keys ∧ (s.step schema choice).filters.keys = s.filters.keys ++ [new] := by
  cases choice with
  | search | sort | dateRange => exact .inl (List.Sublist.refl _)
  | follow | restore => cases h
  | clear => exact .inl (List.nil_sublist _)
  | unfilter k =>
    refine .inl ?_
    rw [step, withoutFilter, OrderedMap.keys_erase]
    exact List.filter_sublist
  | filter k value =>
    simp only [step, withFilter]
    split
    next =>
      rw [OrderedMap.keys_erase]
      exact .inl List.filter_sublist
    next =>
      rw [OrderedMap.keys_insert]
      split
      next => exact .inl (List.Sublist.refl _)
      next hnew => exact .inr ⟨k, hnew, rfl⟩

theorem Arrives.le_length {n : Nat} (h : Arrives schema s steps key n) : n ≤ steps.length := by
  cases n with
  | zero => exact Nat.zero_le _
  | succ m =>
    have habsent := h.absent m rfl
    have hpresent := h.present (m + 1) (Nat.le_refl _)
    have hne : steps.take m ≠ steps.take (m + 1) := by
      intro heq
      rw [heq] at habsent
      exact habsent hpresent
    have hlt : ¬ steps.length ≤ m := fun hle =>
      hne (by rw [List.take_of_length_le hle, List.take_of_length_le (by omega)])
    omega

theorem arrives_start (h : key ∈ s.filters.keys) : Arrives schema s [] key 0 where
  absent _ hm := by cases hm
  present m _ := by rwa [List.take_nil]

/-- One more step does not change when the keys that stay arrived. -/
theorem Arrives.concat {n : Nat} (h : Arrives schema s steps key n) {last : Step}
    (hkey : key ∈ (runFrom schema s (steps ++ [last])).filters.keys) :
    Arrives schema s (steps ++ [last]) key n := by
  have hn := h.le_length
  constructor
  · intro m hm
    rw [List.take_append_of_le_length (by omega)]
    exact h.absent m hm
  · intro m hm
    by_cases hle : m ≤ steps.length
    · rw [List.take_append_of_le_length hle]
      exact h.present m hm
    · rwa [List.take_of_length_le (by simp; omega)]

theorem arrives_of_new {last : Step} (hold : key ∉ (runFrom schema s steps).filters.keys)
    (hnew : key ∈ (runFrom schema s (steps ++ [last])).filters.keys) :
    Arrives schema s (steps ++ [last]) key (steps.length + 1) := by
  constructor
  · intro m hm
    have hm : m = steps.length := by omega
    rwa [hm, List.take_left]
  · intro m hm
    rwa [List.take_of_length_le (by simpa using hm)]

/-- Whether a key stands before another for the time at which they arrived: it came with an earlier
step, or both were there from the start in this order. -/
def ArrivesBefore (schema : Schema) (s : State) (steps : List Step) (a b : String) : Prop :=
  ∃ m n, Arrives schema s steps a m ∧ Arrives schema s steps b n ∧
    (m < n ∨ m = 0 ∧ n = 0 ∧ [a, b].Sublist s.filters.keys)

theorem exists_arrives (choices : ∀ step ∈ steps, step.isChoice = true)
    (hkey : key ∈ (runFrom schema s steps).filters.keys) :
    ∃ n, Arrives schema s steps key n := by
  induction steps using List.reverseRecOn with
  | nil => exact ⟨0, arrives_start hkey⟩
  | append_singleton steps last ih =>
    by_cases hold : key ∈ (runFrom schema s steps).filters.keys
    · obtain ⟨n, hn⟩ := ih (fun step h => choices step (List.mem_append_left _ h)) hold
      exact ⟨n, hn.concat hkey⟩
    · exact ⟨_, arrives_of_new hold hkey⟩

/-- The keys at the end of a run stand in the order of their arrival. -/
theorem keys_runFrom_pairwise (choices : ∀ step ∈ steps, step.isChoice = true) :
    (runFrom schema s steps).filters.keys.Pairwise (ArrivesBefore schema s steps) := by
  induction steps using List.reverseRecOn with
  | nil =>
    refine List.pairwise_iff_forall_sublist.mpr fun {a b} hab => ?_
    have ha : a ∈ s.filters.keys := hab.subset (by simp)
    have hb : b ∈ s.filters.keys := hab.subset (by simp)
    exact ⟨0, 0, arrives_start ha, arrives_start hb, .inr ⟨rfl, rfl, hab⟩⟩
  | append_singleton steps last ih =>
    have hchoices : ∀ step ∈ steps, step.isChoice = true := fun step h =>
      choices step (List.mem_append_left _ h)
    -- The keys that stay keep their order, and one that is new comes after all of them.
    have hstay : ∀ keys : List String, keys.Sublist (runFrom schema s steps).filters.keys →
        (∀ key ∈ keys, key ∈ (runFrom schema s (steps ++ [last])).filters.keys) →
          keys.Pairwise (ArrivesBefore schema s (steps ++ [last])) := by
      intro keys hsub hmem
      refine ((ih hchoices).sublist hsub).imp_of_mem fun ha hb hab => ?_
      obtain ⟨m, n, hm, hn, horder⟩ := hab
      exact ⟨m, n, hm.concat (hmem _ ha), hn.concat (hmem _ hb), horder⟩
    have hlast := keys_step schema (runFrom schema s steps) (choices last (by simp))
    rw [← runFrom_concat] at hlast
    rcases hlast with hsub | ⟨new, hold, hkeys⟩
    · exact hstay _ hsub fun key hkey => hkey
    · rw [hkeys] at hstay ⊢
      have hnew : new ∈ (runFrom schema s (steps ++ [last])).filters.keys := by simp [hkeys]
      refine List.pairwise_append.mpr ⟨?_, List.pairwise_singleton _ _, ?_⟩
      · exact hstay _ (List.Sublist.refl _) fun key hkey => List.mem_append_left _ hkey
      · intro a ha b hb
        rw [List.mem_singleton.mp hb]
        obtain ⟨m, hm⟩ := exists_arrives hchoices ha
        have hle := hm.le_length
        have ha' : a ∈ (runFrom schema s (steps ++ [last])).filters.keys := by simp [hkeys, ha]
        exact ⟨m, steps.length + 1, hm.concat ha', arrives_of_new hold hnew, .inl (by omega)⟩

end Order

section Absence

/-- Steps that set no filters do not matter for the filters. -/
theorem filters_runFrom_filter (choices : ∀ step ∈ steps, step.isChoice = true)
    (h : s.filters = t.filters) :
    (runFrom schema s steps).filters =
      (runFrom schema t (steps.filter Step.setsFilters)).filters := by
  induction steps generalizing s t with
  | nil => exact h
  | cons first steps ih =>
    have hrest : ∀ step ∈ steps, step.isChoice = true := fun step hstep =>
      choices step (List.mem_cons_of_mem _ hstep)
    have hfirst := choices first (by simp)
    cases first with
    | follow | restore => cases hfirst
    | search | sort | dateRange => exact ih hrest h
    | clear => exact ih hrest rfl
    | unfilter k => exact ih hrest (by simp only [step, withoutFilter, h])
    | filter k value => exact ih hrest (by simp only [step, withFilter, h])

theorem withoutFilter_eq_self (h : key ∉ s.filters.keys) : s.withoutFilter key = s := by
  rw [withoutFilter, OrderedMap.erase_eq_self h]

/-- Taking a filter away comes to the same before a choice and after it, and undoes every choice of
that filter. -/
theorem withoutFilter_step {choice : Step} (h : choice.isChoice = true) :
    (s.step schema choice).withoutFilter key =
      if choice.names key then s.withoutFilter key
      else (s.withoutFilter key).step schema choice := by
  cases choice with
  | follow | restore => cases h
  | search | sort | dateRange | clear => rfl
  | unfilter k =>
    simp only [step, withoutFilter, Step.names, decide_eq_true_eq]
    split
    next hk => rw [hk, OrderedMap.erase_eq_self (by simp [OrderedMap.keys_erase])]
    next => rw [OrderedMap.erase_erase]
  | filter k value =>
    simp only [step, withoutFilter, withFilter, Step.names, decide_eq_true_eq]
    by_cases hk : k = key
    · rw [if_pos hk, hk]
      split
      next => rw [OrderedMap.erase_eq_self (by simp [OrderedMap.keys_erase])]
      next => rw [OrderedMap.erase_insert_self]
    · rw [if_neg hk]
      split
      next => rw [OrderedMap.erase_erase]
      next => rw [OrderedMap.erase_insert_of_ne _ hk]

/-- A run without the filter of a key is the run in which the filter was never chosen. -/
theorem withoutFilter_runFrom (choices : ∀ step ∈ steps, step.isChoice = true) :
    (runFrom schema s steps).withoutFilter key =
      runFrom schema (s.withoutFilter key) (steps.filter fun step => !step.names key) := by
  induction steps using List.reverseRecOn with
  | nil => rfl
  | append_singleton steps last ih =>
    have hsteps := ih fun step h => choices step (List.mem_append_left _ h)
    rw [runFrom_concat, withoutFilter_step (choices last (by simp)), List.filter_append, hsteps]
    cases hnames : last.names key with
    | true => simp [hnames]
    | false =>
      rw [if_neg (by simp), List.filter_cons_of_pos (by simp [hnames]), List.filter_nil,
        runFrom_concat]

end Absence

/-- The last choice that touches a key decides its filter, and only filters that are not empty are
left. The keys stand in the order in which they arrived, those from the start first. Searching,
sorting and limiting dates do not matter for the filters, and a key that comes and is taken away
again leaves the state of the run that never named it. -/
theorem filters_runFrom (schema : Schema) {s : State} {steps : List Step}
    (full : ∀ key value, s.filters.get? key = some value → value.isEmpty = false)
    (choices : ∀ step ∈ steps, step.isChoice = true) :
    (∀ key value, (runFrom schema s steps).filters.get? key = some value ↔
      value.isEmpty = false ∧
        ((s.filters.get? key = some value ∧ ∀ step ∈ steps, step.touches key = false) ∨
          ∃ before after, steps = before ++ .filter key value :: after ∧
            ∀ step ∈ after, step.touches key = false)) ∧
    (runFrom schema s steps).filters.keys.Pairwise (ArrivesBefore schema s steps) ∧
    (runFrom schema s steps).filters =
      (runFrom schema s (steps.filter Step.setsFilters)).filters ∧
    ∀ key before last after, steps = before ++ last :: after → key ∉ s.filters.keys →
      last.touches key = true → last.leaves? = none →
        (∀ step ∈ after, step.touches key = false) →
          runFrom schema s steps =
            runFrom schema s (steps.filter fun step => !step.names key) := by
  refine ⟨?_, keys_runFrom_pairwise choices, filters_runFrom_filter choices rfl, ?_⟩
  · intro key value
    rw [get?_runFrom_iff choices]
    constructor
    · rintro (⟨hstart, huntouched⟩ | ⟨before, after, heq, hvalue, huntouched⟩)
      · exact ⟨full key value hstart, .inl ⟨hstart, huntouched⟩⟩
      · exact ⟨hvalue, .inr ⟨before, after, heq, huntouched⟩⟩
    · rintro ⟨hvalue, hstart | ⟨before, after, heq, huntouched⟩⟩
      · exact .inl hstart
      · exact .inr ⟨before, after, heq, hvalue, huntouched⟩
  · intro key before last after heq hkey htouches hleaves huntouched
    have hafter : ∀ step ∈ after, step.isChoice = true := fun step hstep =>
      choices step (by simp [heq, hstep])
    have hgone : (runFrom schema s steps).filters.get? key = none := by
      rw [heq, List.append_cons, runFrom_append, get?_runFrom_of_untouched hafter huntouched,
        runFrom_concat, get?_step (choices last (by simp [heq])), if_pos htouches, hleaves]
    rw [← withoutFilter_eq_self (OrderedMap.get?_eq_none_iff.mp hgone),
      withoutFilter_runFrom choices, withoutFilter_eq_self hkey]

/-- A filter that is set twice has its last value, and one that is emptied leaves no trace. -/
theorem filters_runFrom_watches :
    let s := State.empty.withFilter "brand" (.text "Seiko")
    let steps := [.filter "status" (.text "sold"), .search "red", .filter "brand" (.text "Orient"),
      .filter "status" (.text ""), .sort "price:asc"]
    (∀ step ∈ steps, step.isChoice = true) ∧
      (runFrom .empty s steps).filters.get? "brand" = some (.text "Orient") ∧
      runFrom .empty s steps =
        runFrom .empty s [.search "red", .filter "brand" (.text "Orient"), .sort "price:asc"] := by
  intro s steps
  have full : ∀ key value, s.filters.get? key = some value → value.isEmpty = false := by
    intro key value hvalue
    have hentry : (key, value) = ("brand", .text "Seiko") :=
      List.mem_singleton.mp (OrderedMap.get?_eq_some_iff.mp hvalue)
    cases hentry
    rfl
  have choices : ∀ step ∈ steps, step.isChoice = true := by decide
  obtain ⟨hvalues, -, -, habsent⟩ := filters_runFrom .empty full choices
  refine ⟨choices, ?_, ?_⟩
  · refine (hvalues "brand" (.text "Orient")).mpr ⟨rfl, .inr ⟨steps.take 2, steps.drop 3, rfl, ?_⟩⟩
    decide
  · exact habsent "status" (steps.take 3) (.filter "status" (.text "")) [.sort "price:asc"] rfl
      (by decide) rfl rfl (by decide)

end State

end Listing
