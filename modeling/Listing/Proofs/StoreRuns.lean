import Mathlib.Data.List.Basic
import Mathlib.Logic.Function.Basic
import Listing.Store

namespace Listing

/-- What is asked of the list behind a handle. -/
inductive Question where
  | size
  | items
  | query (s : State)
  | page (s : State) (number limit : Nat)

inductive Answer (α : Type) where
  | size (size : Nat)
  | items (items : List α)
  | page (page : Page α)

/-- A change of the list behind a handle. -/
inductive Change (α : Type) where
  | push (entry : Entry α)
  | replace (entries : List (Entry α))

/-- What is done to a store: a new list, another handle on a list, a change or a question. -/
inductive Action (α : Type) where
  | add (schema : Schema)
  | clone (handle : Nat)
  | write (handle : Nat) (change : Change α)
  | read (handle : Nat) (question : Question)

variable {α : Type}

namespace Store

def answer (store : Store α) (handle : Nat) : Question → Answer α
  | .size => .size (store.size handle)
  | .items => .items (store.items handle)
  | .query s => .items (store.query handle s)
  | .page s number limit => .page (store.queryPage handle s number limit)

def perform (store : Store α) : Action α → Store α × Option (Answer α)
  | .add schema => (store.add schema, none)
  | .clone handle => (store.clone handle, none)
  | .write handle (.push entry) => (store.push handle entry, none)
  | .write handle (.replace entries) => (store.replace handle entries, none)
  | .read handle question => (store, some (store.answer handle question))

end Store

/-- The handle that an action goes through. -/
def Action.handle? : Action α → Option Nat
  | .add _ => none
  | .clone handle | .write handle _ | .read handle _ => some handle

/-- What was done from the start, each time through a handle that was there, and the store that it
led to. -/
inductive History : List (Action α) → Store α → Prop where
  | start : History [] .empty
  | act {actions : List (Action α)} {store : Store α} (action : Action α)
      (past : History actions store)
      (there : ∀ handle ∈ action.handle?, handle < store.handles.length) :
      History (actions ++ [action]) (store.perform action).1

/-! What a family holds, told from the actions alone. -/

/-- The handle that a family began with, and the schema that it was given. -/
structure Root where
  handle : Nat
  schema : Schema

def Action.extend (roots : List Root) : Action α → List Root
  | .add schema => roots ++ [⟨roots.length, schema⟩]
  | .clone handle => roots ++ roots[handle]?.toList
  | .write _ _ | .read _ _ => roots

/-- The roots of the families that the handles belong to. -/
def roots (actions : List (Action α)) : List Root := actions.foldl Action.extend []

/-- The change that an action makes to the family of a root. -/
def Action.change? (roots : List Root) (root : Root) : Action α → Option (Change α)
  | .write handle change =>
    if roots[handle]?.map Root.handle = some root.handle then some change else none
  | .add _ | .clone _ | .read _ _ => none

/-- The changes made through any handle of a family, in order. -/
def changes (actions : List (Action α)) (root : Root) : List (Change α) :=
  actions.filterMap (Action.change? (roots actions) root)

def Change.pushed? : Change α → Option (Entry α)
  | .push entry => some entry
  | .replace _ => none

def Change.replacement? : Change α → Option (List (Entry α))
  | .push _ => none
  | .replace entries => some entries

/-- The entries of the last replacement, if there is one, and behind them those pushed since. -/
def recorded (changes : List (Change α)) : List (Entry α) :=
  let recent := changes.reverse
  (recent.findSome? Change.replacement?).getD [] ++
    ((recent.takeWhile fun change => change.replacement?.isNone).filterMap Change.pushed?).reverse

/-- The answer of a list with its schema. -/
def Question.answer (schema : Schema) (entries : List (Entry α)) : Question → Answer α
  | .size => .size entries.length
  | .items => .items (entries.map Entry.item)
  | .query s => .items ((Narrowing.apply schema s entries).map Entry.item)
  | .page s number limit =>
    .page (.ofItems ((Narrowing.apply schema s entries).map Entry.item) number limit)

/-! One more action. -/

def Change.apply (entries : List (Entry α)) : Change α → List (Entry α)
  | .push entry => entries ++ [entry]
  | .replace entries => entries

theorem recorded_concat (changes : List (Change α)) (change : Change α) :
    recorded (changes ++ [change]) = change.apply (recorded changes) := by
  cases change <;>
    simp [List.findSome?_cons, recorded, Change.apply, Change.replacement?, Change.pushed?]

theorem roots_concat (actions : List (Action α)) (action : Action α) :
    roots (actions ++ [action]) = action.extend (roots actions) := by
  rw [roots, List.foldl_append]
  rfl

theorem Action.prefix_extend (roots : List Root) (action : Action α) :
    roots <+: action.extend roots := by
  cases action with
  | add | clone => exact List.prefix_append _ _
  | write | read => exact List.prefix_rfl

theorem Store.perform_write (store : Store α) (handle : Nat) (change : Change α) :
    (store.perform (.write handle change)).1 =
      store.modify handle fun entries => change.apply entries := by
  cases change <;> rfl

theorem getElem?_roots_concat {actions : List (Action α)} {handle : Nat}
    (h : handle < (roots actions).length) (last : Action α) :
    (roots (actions ++ [last]))[handle]? = (roots actions)[handle]? := by
  obtain ⟨new, hnew⟩ := last.prefix_extend (roots actions)
  rw [roots_concat, ← hnew, List.getElem?_append_left h]

theorem length_roots_le (actions : List (Action α)) (last : Action α) :
    (roots actions).length ≤ (roots (actions ++ [last])).length := by
  rw [roots_concat]
  exact (last.prefix_extend (roots actions)).length_le

/-- Whether an action goes through a handle that is there after others. -/
def Action.Known (actions : List (Action α)) (action : Action α) : Prop :=
  ∀ handle ∈ action.handle?, handle < (roots actions).length

theorem Action.Known.concat {actions : List (Action α)} {action : Action α}
    (known : action.Known actions) (last : Action α) : action.Known (actions ++ [last]) :=
  fun handle hhandle => Nat.lt_of_lt_of_le (known handle hhandle) (length_roots_le actions last)

theorem Action.Known.change?_concat {actions : List (Action α)} {action : Action α}
    (known : action.Known actions) (last : Action α) (root : Root) :
    action.change? (roots (actions ++ [last])) root = action.change? (roots actions) root := by
  cases action with
  | add | clone | read => rfl
  | write handle change => simp only [change?, getElem?_roots_concat (known handle rfl) last]

theorem changes_concat {actions : List (Action α)}
    (known : ∀ action ∈ actions, action.Known actions) {last : Action α} (hlast : last.Known actions) (root : Root) :
    changes (actions ++ [last]) root =
      changes actions root ++ (last.change? (roots actions) root).toList := by
  have hpast : actions.filterMap (Action.change? (roots (actions ++ [last])) root) =
      changes actions root :=
    List.filterMap_congr fun action haction => (known action haction).change?_concat last root
  rw [changes, List.filterMap_append, hpast, List.filterMap_cons, List.filterMap_nil,
    hlast.change?_concat]
  cases last.change? (roots actions) root <;> rfl

theorem changes_eq_nil {actions : List (Action α)} {root : Root}
    (h : ∀ other ∈ roots actions, other.handle ≠ root.handle) : changes actions root = [] := by
  rw [changes, List.filterMap_eq_nil_iff]
  intro action _
  cases action with
  | add | clone | read => rfl
  | write handle change =>
    refine if_neg fun hroot => ?_
    obtain ⟨other, hother, hsame⟩ := Option.map_eq_some_iff.mp hroot
    exact h other (List.mem_of_getElem? hother) hsame

/-- The handle of a root, with its family at a place. -/
def Root.handleAt (place : Nat → Nat) (root : Root) : Handle := ⟨place root.handle, root.schema⟩

/-- How the lists of a store are those of the families of the actions: a family is told by the
handle that it began with, and `place` is where the store keeps its list. -/
structure Places (actions : List (Action α)) (store : Store α) (place : Nat → Nat) : Prop where
  known : ∀ action ∈ actions, action.Known actions
  handles : store.handles = (roots actions).map (Root.handleAt place)
  root_lt : ∀ root ∈ roots actions, root.handle < (roots actions).length
  injective : ∀ a ∈ roots actions, ∀ b ∈ roots actions,
    place a.handle = place b.handle → a.handle = b.handle
  families : ∀ root ∈ roots actions,
    store.families[place root.handle]? = some (recorded (changes actions root))

namespace Places

variable {actions : List (Action α)} {store : Store α} {place : Nat → Nat}

theorem known_concat (h : Places actions store place) {last : Action α}
    (hlast : last.Known actions) :
    ∀ action ∈ actions ++ [last], action.Known (actions ++ [last]) := by
  intro action haction
  rcases List.mem_append.mp haction with hpast | hnew
  · exact (h.known action hpast).concat last
  · rw [List.mem_singleton.mp hnew]
    exact hlast.concat last

theorem getElem?_handles (h : Places actions store place) {handle : Nat} {root : Root}
    (hroot : (roots actions)[handle]? = some root) :
    store.handles[handle]? = some (root.handleAt place) := by
  rw [h.handles, List.getElem?_map, hroot, Option.map_some]

theorem place_lt (h : Places actions store place) {root : Root} (hroot : root ∈ roots actions) :
    place root.handle < store.families.length :=
  (List.getElem?_eq_some_iff.mp (h.families root hroot)).1

/-- An action that brings no new family keeps the places. -/
theorem keep (h : Places actions store place) {last : Action α} (hlast : last.Known actions)
    (hold : last.extend (roots actions) ⊆ roots actions) {next : Store α}
    (hhandles : next.handles = (last.extend (roots actions)).map (Root.handleAt place))
    (hfamilies : ∀ root ∈ roots actions, next.families[place root.handle]? =
      some (recorded (changes actions root ++ (last.change? (roots actions) root).toList))) :
    Places (actions ++ [last]) next place := by
  rw [← roots_concat] at hold hhandles
  refine ⟨h.known_concat hlast, hhandles, ?_, ?_, ?_⟩
  · intro root hroot
    exact Nat.lt_of_lt_of_le (h.root_lt root (hold hroot)) (length_roots_le actions last)
  · exact fun a ha b hb => h.injective a (hold ha) b (hold hb)
  · intro root hroot
    rw [changes_concat h.known hlast]
    exact hfamilies root (hold hroot)

theorem clone (h : Places actions store place) {handle : Nat}
    (hlast : (Action.clone handle : Action α).Known actions) :
    Places (actions ++ [.clone handle]) (store.clone handle) place := by
  apply h.keep hlast
  · intro root hroot
    rcases List.mem_append.mp hroot with hpast | hnew
    · exact hpast
    · exact List.mem_of_getElem? (Option.mem_toList.mp hnew)
  · simp only [Store.clone, h.handles, Action.extend, List.map_append, List.getElem?_map]
    cases (roots actions)[handle]? <;> rfl
  · intro root hroot
    simpa [Action.change?, Store.clone] using h.families root hroot

theorem read (h : Places actions store place) {handle : Nat} {question : Question}
    (hlast : (Action.read handle question : Action α).Known actions) :
    Places (actions ++ [.read handle question]) store place := by
  apply h.keep hlast (List.Subset.refl _) h.handles
  intro root hroot
  simpa [Action.change?] using h.families root hroot

theorem write (h : Places actions store place) {handle : Nat} {change : Change α}
    (hlast : (Action.write handle change).Known actions) :
    Places (actions ++ [.write handle change])
      (store.modify handle fun entries => change.apply entries) place := by
  obtain ⟨owner, howner⟩ : ∃ owner, (roots actions)[handle]? = some owner :=
    ⟨_, List.getElem?_eq_getElem (hlast handle rfl)⟩
  have hmem : owner ∈ roots actions := List.mem_of_getElem? howner
  refine h.keep hlast (List.Subset.refl _) h.handles ?_
  intro root hroot
  rw [store.families_modify _ (h.getElem?_handles howner), List.getElem?_modify,
    h.families root hroot, Action.change?, howner, Option.map_some, Root.handleAt]
  by_cases hsame : owner.handle = root.handle
  · simp [hsame, recorded_concat]
  · have hplace : place owner.handle ≠ place root.handle := fun heq =>
      hsame (h.injective owner hmem root hroot heq)
    simp [hsame, hplace]

/-- A new family is told by its handle, and its list has the next place. -/
theorem add (h : Places actions store place) (schema : Schema) {next : Nat → Nat}
    (hold : ∀ root ∈ roots actions, next root.handle = place root.handle)
    (hnext : next (roots actions).length = store.families.length) :
    Places (actions ++ [.add schema]) (store.add schema) next := by
  have hlast : (Action.add schema : Action α).Known actions := by
    rintro handle ⟨⟩
  have hroots : roots (actions ++ [.add schema]) =
      roots actions ++ [⟨(roots actions).length, schema⟩] := roots_concat actions (.add schema)
  have hcases : ∀ {root}, root ∈ roots (actions ++ [.add schema]) →
      root ∈ roots actions ∨ root = ⟨(roots actions).length, schema⟩ := by
    intro root hroot
    simpa [hroots] using hroot
  have hfresh : ∀ root ∈ roots actions, next root.handle ≠ next (roots actions).length := by
    intro root hroot
    rw [hold root hroot, hnext]
    exact Nat.ne_of_lt (h.place_lt hroot)
  refine ⟨h.known_concat hlast, ?_, ?_, ?_, ?_⟩
  · have hpast : (roots actions).map (Root.handleAt next) =
        (roots actions).map (Root.handleAt place) :=
      List.map_congr_left fun root hroot => by rw [Root.handleAt, Root.handleAt, hold root hroot]
    rw [hroots, List.map_append, hpast, ← h.handles, List.map_singleton, Root.handleAt, hnext]
    rfl
  · intro root hroot
    rw [hroots, List.length_append]
    rcases hcases hroot with hpast | rfl
    · exact Nat.lt_add_right _ (h.root_lt root hpast)
    · exact Nat.lt_add_one _
  · intro a ha b hb hsame
    rcases hcases ha with hpasta | rfl <;> rcases hcases hb with hpastb | rfl
    · rw [hold a hpasta, hold b hpastb] at hsame
      exact h.injective a hpasta b hpastb hsame
    · exact absurd hsame (hfresh a hpasta)
    · exact absurd hsame.symm (hfresh b hpastb)
    · rfl
  · intro root hroot
    rw [changes_concat h.known hlast, Action.change?, Option.toList_none, List.append_nil]
    rcases hcases hroot with hpast | rfl
    · rw [hold root hpast, Store.add, List.getElem?_append_left (h.place_lt hpast)]
      exact h.families root hpast
    · rw [changes_eq_nil fun other hother => Nat.ne_of_lt (h.root_lt other hother), hnext]
      exact List.getElem?_concat_length

/-- One more action, and where the store keeps the lists then. -/
theorem perform (h : Places actions store place) {action : Action α}
    (known : action.Known actions) :
    ∃ next, Places (actions ++ [action]) (store.perform action).1 next := by
  cases action with
  | add schema =>
    refine ⟨Function.update place (roots actions).length store.families.length,
      h.add schema (fun root hroot => ?_) (Function.update_self ..)⟩
    exact Function.update_of_ne (Nat.ne_of_lt (h.root_lt root hroot)) ..
  | clone handle => exact ⟨place, h.clone known⟩
  | write handle change => exact ⟨place, store.perform_write handle change ▸ h.write known⟩
  | read handle question => exact ⟨place, h.read known⟩

theorem length_handles (h : Places actions store place) :
    store.handles.length = (roots actions).length := by
  rw [h.handles, List.length_map]

theorem answer_eq (h : Places actions store place) {handle : Nat} {root : Root}
    (hroot : (roots actions)[handle]? = some root) (question : Question) :
    store.answer handle question =
      question.answer root.schema (recorded (changes actions root)) := by
  have hhandle := h.getElem?_handles hroot
  have hentries := store.entries_eq hhandle (h.families root (List.mem_of_getElem? hroot))
  have hschema : store.schemaOf handle = root.schema := store.schemaOf_eq hhandle
  cases question <;>
    simp only [Store.answer, Question.answer, Store.size, Store.items, Store.queryPage, Store.query,
      hentries, hschema]

end Places

namespace History

variable {actions : List (Action α)} {store : Store α}

theorem exists_places (h : History actions store) : ∃ place, Places actions store place := by
  induction h with
  | start =>
    refine ⟨id, ⟨?_, rfl, ?_, ?_, ?_⟩⟩ <;> simp [roots]
  | act action _ there ih =>
    obtain ⟨place, hplace⟩ := ih
    rw [hplace.length_handles] at there
    exact hplace.perform there

/-- Every handle answers from what was recorded through the handles of its family, with the schema
of the family. A question changes nothing, and an action that does not change the family of a handle
changes no answer of the handle. -/
theorem read_recorded (h : History actions store) :
    store.handles.length = (roots actions).length ∧
    ∀ handle root, (roots actions)[handle]? = some root →
      (∀ question, store.perform (.read handle question) =
        (store, some (question.answer root.schema (recorded (changes actions root))))) ∧
      ∀ action, (∀ through ∈ action.handle?, through < store.handles.length) →
        action.change? (roots actions) root = none → ∀ question,
          ((store.perform action).1.perform (.read handle question)).2 =
            (store.perform (.read handle question)).2 := by
  obtain ⟨place, hplace⟩ := h.exists_places
  refine ⟨hplace.length_handles, fun handle root hroot => ⟨fun question => ?_, ?_⟩⟩
  · rw [Store.perform, hplace.answer_eq hroot]
  · intro action there hnone question
    rw [hplace.length_handles] at there
    obtain ⟨next, hnext⟩ := hplace.perform there
    have hlt : handle < (roots actions).length := (List.getElem?_eq_some_iff.mp hroot).1
    have hroot' : (roots (actions ++ [action]))[handle]? = some root := by
      rw [getElem?_roots_concat hlt, hroot]
    have hchanges : changes (actions ++ [action]) root = changes actions root := by
      rw [changes_concat hplace.known there, hnone, Option.toList_none, List.append_nil]
    rw [Store.perform, Store.perform, hnext.answer_eq hroot', hplace.answer_eq hroot, hchanges]

/-- Two lists with one schema, the first with two handles. -/
def pantryActions : List (Action String) :=
  [.add .empty, .clone 0, .write 1 (.push ⟨"tea", .null⟩), .add .empty,
    .write 2 (.push ⟨"rice", .null⟩), .write 0 (.replace [⟨"salt", .null⟩]), .read 2 .size,
    .write 1 (.push ⟨"tea", .null⟩)]

theorem read_recorded_pantry : ∃ store, History pantryActions store ∧
    store.perform (.read 0 .items) = (store, some (.items ["salt", "tea"])) ∧
    ((store.perform (.write 0 (.replace []))).1.perform (.read 2 .items)).2 =
      some (.items ["rice"]) := by
  have h := (((((((History.start.act (.add .empty) (by simp [Action.handle?])).act
    (.clone 0) (by decide)).act (.write 1 (.push ⟨"tea", .null⟩)) (by decide)).act
    (.add .empty) (by decide)).act (.write 2 (.push ⟨"rice", .null⟩)) (by decide)).act
    (.write 0 (.replace [⟨"salt", .null⟩])) (by decide)).act (.read 2 .size) (by decide)).act
    (.write 1 (.push ⟨"tea", .null⟩)) (by decide)
  obtain ⟨-, hread⟩ := read_recorded h
  refine ⟨_, h, ?_, ?_⟩
  · exact (hread 0 ⟨0, .empty⟩ rfl).1 .items
  · obtain ⟨hitems, hframe⟩ := hread 2 ⟨2, .empty⟩ rfl
    rw [hframe (.write 0 (.replace [])) (by decide) rfl, hitems]
    rfl

end History

end Listing
