import Listing.Text.Split

namespace Listing

namespace Text

variable {sep : Char}

theorem pieces_ne_nil (cs : List Char) : pieces sep cs ≠ [] := by
  cases cs with
  | nil => simp [pieces]
  | cons c rest =>
    unfold pieces
    split
    next => simp
    next => split <;> simp

theorem split_ne_nil (s : String) : split sep s ≠ [] := by
  simpa [split] using pieces_ne_nil s.toList

theorem pieces_of_not_mem {piece : List Char} (h : sep ∉ piece) : pieces sep piece = [piece] := by
  induction piece with
  | nil => rfl
  | cons c rest ih =>
    have hc : c ≠ sep := fun e => h (by simp [e])
    have hr : sep ∉ rest := fun e => h (by simp [e])
    simp [pieces, ih hr, hc]

/-- A text without the separator is the first piece of what it begins. -/
theorem pieces_append_sep {piece : List Char} (h : sep ∉ piece) (rest : List Char) :
    pieces sep (piece ++ sep :: rest) = piece :: pieces sep rest := by
  induction piece with
  | nil =>
    obtain ⟨first, others, hp⟩ := List.exists_cons_of_ne_nil (@pieces_ne_nil sep rest)
    simp [pieces, hp]
  | cons c piece ih =>
    have hc : c ≠ sep := fun e => h (by simp [e])
    have hr : sep ∉ piece := fun e => h (by simp [e])
    simp [pieces, ih hr, hc]

/-- Splitting undoes joining when no part holds the separator. -/
theorem pieces_joined {parts : List (List Char)} (hne : parts ≠ [])
    (h : ∀ part ∈ parts, sep ∉ part) : pieces sep (joined sep parts) = parts := by
  induction parts with
  | nil => exact absurd rfl hne
  | cons part rest ih =>
    cases rest with
    | nil => exact pieces_of_not_mem (h part (by simp))
    | cons next others =>
      rw [joined, pieces_append_sep (h part (by simp)),
        ih (by simp) fun part hp => h part (List.mem_cons_of_mem _ hp)]

theorem split_join {parts : List String} (hne : parts ≠ [])
    (h : ∀ part ∈ parts, sep ∉ part.toList) : split sep (join sep parts) = parts := by
  rw [split, join, String.toList_ofList, pieces_joined (by simpa using hne), List.map_map]
  · simp [Function.comp_def]
  · intro part hp
    obtain ⟨s, hs, rfl⟩ := List.mem_map.mp hp
    exact h s hs

/-- Joining undoes splitting. -/
theorem joined_pieces (cs : List Char) : joined sep (pieces sep cs) = cs := by
  induction cs with
  | nil => rfl
  | cons c rest ih =>
    obtain ⟨piece, others, hrest⟩ := List.exists_cons_of_ne_nil (@pieces_ne_nil sep rest)
    rw [hrest] at ih
    rw [pieces, hrest]
    by_cases hc : c = sep
    · simp [hc, joined, ih]
    · cases others <;> simpa [hc, joined] using ih

theorem join_split (s : String) : join sep (split sep s) = s := by
  have hparts : (split sep s).map String.toList = pieces sep s.toList := by
    simp [split, Function.comp_def]
  rw [join, hparts, joined_pieces, String.ofList_toList]

theorem split_injective {s t : String} (h : split sep s = split sep t) : s = t := by
  rw [← @join_split sep s, h, join_split]

theorem cutFirst_append_sep {before : List Char} (h : sep ∉ before) (after : List Char) :
    cutFirst sep (before ++ sep :: after) = some (before, after) := by
  induction before with
  | nil => simp [cutFirst]
  | cons c before ih =>
    have hc : c ≠ sep := fun e => h (by simp [e])
    have hr : sep ∉ before := fun e => h (by simp [e])
    simp [cutFirst, ih hr, hc]

theorem cutFirst_of_not_mem {cs : List Char} (h : sep ∉ cs) : cutFirst sep cs = none := by
  induction cs with
  | nil => rfl
  | cons c cs ih =>
    rw [List.mem_cons, not_or] at h
    rw [cutFirst, if_neg (Ne.symm h.1), ih h.2, Option.map_none]

/-- A text is divided by its last separator in one way. -/
theorem eq_of_append_sep {a b a' b' : List Char} (hb : sep ∉ b) (hb' : sep ∉ b')
    (h : a ++ sep :: b = a' ++ sep :: b') : a = a' ∧ b = b' := by
  have hcut := congrArg (fun cs => cutFirst sep cs.reverse) h
  simp only [List.reverse_append, List.reverse_cons, List.append_assoc, List.singleton_append,
    cutFirst_append_sep (mt List.mem_reverse.mp hb),
    cutFirst_append_sep (mt List.mem_reverse.mp hb'), Option.some.injEq, Prod.mk.injEq,
    List.reverse_inj] at hcut
  exact ⟨hcut.2, hcut.1⟩

/-- The pieces of two texts with a separator between them. -/
theorem pieces_append_sep_append (before after : List Char) :
    pieces sep (before ++ sep :: after) = pieces sep before ++ pieces sep after := by
  induction before with
  | nil => exact pieces_append_sep List.not_mem_nil after
  | cons c before ih =>
    obtain ⟨piece, others, hbefore⟩ := List.exists_cons_of_ne_nil (@pieces_ne_nil sep before)
    rw [hbefore, List.cons_append] at ih
    rw [List.cons_append, pieces, pieces, ih, hbefore]
    by_cases hc : c = sep
    · simp [hc]
    · simp [hc]

theorem split_append_sep (before after : String) :
    split sep (before ++ sep.toString ++ after) = split sep before ++ split sep after := by
  simp [split, pieces_append_sep_append]

theorem not_mem_of_mem_pieces {cs piece : List Char} (h : piece ∈ pieces sep cs) :
    sep ∉ piece := by
  induction cs generalizing piece with
  | nil =>
    obtain rfl : piece = [] := by simpa [pieces] using h
    exact List.not_mem_nil
  | cons c rest ih =>
    obtain ⟨first, others, hrest⟩ := List.exists_cons_of_ne_nil (@pieces_ne_nil sep rest)
    rw [hrest] at ih
    simp only [pieces, hrest] at h
    split at h
    next =>
      rcases List.mem_cons.mp h with rfl | h
      · exact List.not_mem_nil
      · exact ih h
    next hc =>
      rcases List.mem_cons.mp h with rfl | h
      · have hfirst : sep ∉ first := ih List.mem_cons_self
        intro hsep
        rcases List.mem_cons.mp hsep with heq | hsep
        · exact hc heq.symm
        · exact hfirst hsep
      · exact ih (List.mem_cons_of_mem _ h)

theorem not_mem_of_mem_split {s part : String} (h : part ∈ split sep s) : sep ∉ part.toList := by
  obtain ⟨piece, hpiece, rfl⟩ := List.mem_map.mp h
  rw [String.toList_ofList]
  exact not_mem_of_mem_pieces hpiece

theorem length_pieces (cs : List Char) : (pieces sep cs).length = cs.count sep + 1 := by
  induction cs with
  | nil => rfl
  | cons c cs ih =>
    obtain ⟨piece, others, hcs⟩ := List.exists_cons_of_ne_nil (@pieces_ne_nil sep cs)
    rw [hcs, List.length_cons] at ih
    rw [pieces, hcs, List.count_cons]
    by_cases hc : c = sep
    · simp [hc, ← ih]
    · simp [hc, ← ih]

/-- With a separator and any text after it, a text begins with its first piece. -/
theorem exists_first_piece (cs : List Char) :
    ∃ piece others, pieces sep cs = piece :: others ∧ sep ∉ piece ∧
      ∀ after, ∃ rest, cs ++ sep :: after = piece ++ sep :: rest := by
  by_cases hsep : sep ∈ cs
  · obtain ⟨piece, rest, rfl, hpiece⟩ := List.eq_append_cons_of_mem hsep
    exact ⟨piece, pieces sep rest, pieces_append_sep hpiece rest, hpiece,
      fun after => ⟨rest ++ sep :: after, by simp⟩⟩
  · exact ⟨cs, [], pieces_of_not_mem hsep, hsep, fun after => ⟨after, rfl⟩⟩

theorem cuts_of_not_mem {cs : List Char} (h : sep ∉ cs) (n : Nat) : cuts sep n cs = [] := by
  induction cs with
  | nil => cases n <;> rfl
  | cons c cs ih =>
    rw [List.mem_cons, not_or] at h
    cases n with
    | zero => rfl
    | succ n => rw [cuts, if_neg (Ne.symm h.1), ih h.2, List.map_nil]

/-- The only cut of a text with one separator. -/
theorem cuts_append_sep {before after : List Char} (hbefore : sep ∉ before) (hafter : sep ∉ after)
    (n : Nat) : cuts sep (n + 1) (before ++ sep :: after) = [(before, after)] := by
  induction before with
  | nil => rw [List.nil_append, cuts, if_pos rfl, cuts_of_not_mem hafter, List.map_nil]
  | cons c before ih =>
    rw [List.mem_cons, not_or] at hbefore
    rw [List.cons_append, cuts, if_neg (Ne.symm hbefore.1), ih hbefore.2]
    rfl

/-- The first cut that passes a test is the one before which none does. -/
theorem find?_cuts {before after : List Char} {n : Nat} {p : List Char × List Char → Bool}
    (hn : before.count sep < n) (hp : p (before, after) = true)
    (h : ∀ b a, before = b ++ sep :: a → p (b, a ++ sep :: after) = false) :
    (cuts sep n (before ++ sep :: after)).find? p = some (before, after) := by
  induction before generalizing n p with
  | nil =>
    obtain ⟨n, rfl⟩ := Nat.exists_eq_add_one_of_ne_zero (Nat.ne_zero_of_lt hn)
    rw [List.nil_append, cuts, if_pos rfl, List.find?_cons, hp]
  | cons c before ih =>
    obtain ⟨n, rfl⟩ := Nat.exists_eq_add_one_of_ne_zero (Nat.ne_zero_of_lt hn)
    have hlater : ∀ b a, before = b ++ sep :: a → p (c :: b, a ++ sep :: after) = false :=
      fun b a hba => h (c :: b) a (by rw [hba, List.cons_append])
    rw [List.cons_append, cuts]
    by_cases hc : c = sep
    · subst hc
      rw [List.count_cons_self] at hn
      rw [if_pos rfl, List.find?_cons, h [] before rfl, List.find?_map,
        ih (by omega : before.count c < n) hp hlater]
      rfl
    · rw [List.count_cons_of_ne hc] at hn
      rw [if_neg hc, List.find?_map, ih hn hp hlater]
      rfl

/-- Where only the cuts at the first few separators can pass a test, those at the others need not be
tried. -/
theorem find?_cuts_of_le {m n : Nat} {p : List Char × List Char → Bool} (hmn : m ≤ n)
    (h : ∀ before after, p (before, after) = true → before.count sep < m) (cs : List Char) :
    (cuts sep n cs).find? p = (cuts sep m cs).find? p := by
  induction cs generalizing m n p with
  | nil => cases n <;> cases m <;> rfl
  | cons c cs ih =>
    cases m with
    | zero =>
      have hnone : ∀ cut ∈ cuts sep n (c :: cs), ¬p cut = true :=
        fun cut _ hcut => Nat.not_lt_zero _ (h cut.1 cut.2 hcut)
      rw [List.find?_eq_none.mpr hnone]
      rfl
    | succ m =>
      obtain ⟨n, rfl⟩ := Nat.exists_eq_add_one_of_ne_zero (show n ≠ 0 by omega)
      rw [cuts, cuts]
      by_cases hc : c = sep
      · subst hc
        rw [if_pos rfl, if_pos rfl, List.find?_cons, List.find?_cons, List.find?_map,
          List.find?_map, ih (by omega : m ≤ n)]
        intro before after hp
        exact Nat.lt_of_succ_lt_succ (by simpa using h _ _ hp)
      · rw [if_neg hc, if_neg hc, List.find?_map, List.find?_map, ih hmn]
        intro before after hp
        simpa [List.count_cons_of_ne hc] using h _ _ hp

theorem mem_joined {c : Char} {parts : List (List Char)} (h : c ∈ joined sep parts) :
    c = sep ∨ ∃ part ∈ parts, c ∈ part := by
  induction parts with
  | nil => simp [joined] at h
  | cons part rest ih =>
    cases rest with
    | nil => exact .inr ⟨part, by simp, h⟩
    | cons next others =>
      rw [joined, List.mem_append, List.mem_cons] at h
      rcases h with h | rfl | h
      · exact .inr ⟨part, by simp, h⟩
      · exact .inl rfl
      · exact (ih h).imp_right fun ⟨p, hp, hc⟩ => ⟨p, List.mem_cons_of_mem _ hp, hc⟩

end Text

end Listing
