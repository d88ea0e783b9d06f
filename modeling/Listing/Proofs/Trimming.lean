import Mathlib.Data.List.DropRight
import Mathlib.Data.List.TakeWhile
import Listing.Text.Blank

namespace Listing

namespace Text

theorem trimStart_eq_self {cs : List Char} (h : ∀ c ∈ cs, isBlank c = false) :
    trimStart cs = cs := by
  cases cs with
  | nil => rfl
  | cons c cs => simp [trimStart, h c (by simp)]

theorem isBlank_of_isDigit {c : Char} (h : c.isDigit = true) : isBlank c = false := by
  have hbounds : 48 ≤ c.toNat ∧ c.toNat ≤ 57 := Char.isDigit_iff_toNat.mp h
  rw [Bool.eq_false_iff]
  intro hblank
  simp only [isBlank, Bool.or_eq_true, Bool.and_eq_true, decide_eq_true_eq, beq_iff_eq] at hblank
  omega

theorem trimStart_cons {c : Char} (h : isBlank c = false) (cs : List Char) :
    trimStart (c :: cs) = c :: cs :=
  List.dropWhile_cons_of_neg (by simp [h])

theorem trimStart_cons_blank {c : Char} (h : isBlank c = true) (cs : List Char) :
    trimStart (c :: cs) = trimStart cs :=
  List.dropWhile_cons_of_pos h

theorem trimStart_trimStart (cs : List Char) : trimStart (trimStart cs) = trimStart cs :=
  List.dropWhile_idempotent isBlank cs

theorem trimmed_eq_self {cs : List Char} (h : ∀ c ∈ cs, isBlank c = false) : trimmed cs = cs := by
  rw [trimmed, trimStart_eq_self h, trimEnd]
  change (trimStart cs.reverse).reverse = cs
  rw [trimStart_eq_self (by simpa using h), List.reverse_reverse]

theorem trim_eq_self {s : String} (h : ∀ c ∈ s.toList, isBlank c = false) : trim s = s := by
  rw [trim, trimmed_eq_self h, String.ofList_toList]

/-- The blanks that are taken off the head of a text. -/
theorem exists_blanks (cs : List Char) :
    ∃ blanks, cs = blanks ++ trimStart cs ∧ ∀ c ∈ blanks, isBlank c = true :=
  ⟨cs.takeWhile isBlank, List.takeWhile_append_dropWhile.symm,
    fun _ hc => List.mem_takeWhile_imp hc⟩

/-- The blanks around what is left of a text without them. -/
theorem exists_trimmed (cs : List Char) :
    ∃ before after, cs = before ++ trimmed cs ++ after ∧ (∀ c ∈ before, isBlank c = true) ∧
      ∀ c ∈ after, isBlank c = true := by
  obtain ⟨before, hcs, hbefore⟩ := exists_blanks cs
  obtain ⟨after, hrest, hafter⟩ := exists_blanks (trimStart cs).reverse
  refine ⟨before, after.reverse, ?_, hbefore, fun c hc => hafter c (List.mem_reverse.mp hc)⟩
  have hend : trimStart cs = trimmed cs ++ after.reverse := by
    rw [← List.reverse_reverse (trimStart cs), hrest, List.reverse_append]
    rfl
  rw [List.append_assoc, ← hend, ← hcs]

theorem mem_of_mem_trimmed {c : Char} {cs : List Char} (h : c ∈ trimmed cs) : c ∈ cs := by
  obtain ⟨before, after, hcs, -⟩ := exists_trimmed cs
  rw [hcs]
  exact List.mem_append_left _ (List.mem_append_right _ h)

theorem mem_of_mem_trim {c : Char} {s : String} (h : c ∈ (trim s).toList) : c ∈ s.toList := by
  rw [trim, String.toList_ofList] at h
  exact mem_of_mem_trimmed h

theorem count_trimmed {c : Char} (hc : isBlank c = false) (cs : List Char) :
    (trimmed cs).count c = cs.count c := by
  obtain ⟨before, after, hcs, hbefore, hafter⟩ := exists_trimmed cs
  have hnone : ∀ blanks : List Char, (∀ b ∈ blanks, isBlank b = true) → blanks.count c = 0 := by
    intro blanks hblanks
    refine List.count_eq_zero_of_not_mem fun hmem => ?_
    rw [hblanks c hmem] at hc
    cases hc
  conv => rhs; rw [hcs]
  rw [List.count_append, List.count_append, hnone before hbefore, hnone after hafter]
  omega

theorem mem_trimmed_iff {c : Char} (hc : isBlank c = false) {cs : List Char} :
    c ∈ trimmed cs ↔ c ∈ cs := by
  rw [← List.count_pos_iff, count_trimmed hc, List.count_pos_iff]

/-- Blanks before and after a text are no part of what is left of it. -/
theorem trimmed_append_blanks {before after : List Char} (cs : List Char)
    (hbefore : ∀ c ∈ before, isBlank c = true) (hafter : ∀ c ∈ after, isBlank c = true) :
    trimmed (before ++ cs ++ after) = trimmed cs := by
  have hend : ∀ ds, trimEnd (ds ++ after) = trimEnd ds := by
    intro ds
    rw [trimEnd, List.reverse_append,
      List.dropWhile_append_of_pos fun c hc => hafter c (List.mem_reverse.mp hc)]
    rfl
  have hstart : trimStart (before ++ cs ++ after) = trimStart (cs ++ after) := by
    rw [trimStart, List.append_assoc, List.dropWhile_append_of_pos hbefore]
    rfl
  rw [trimmed, hstart, trimStart, List.dropWhile_append]
  split
  next hnone =>
    have hcs : trimStart cs = [] := List.isEmpty_iff.mp hnone
    rw [List.dropWhile_eq_nil_iff.mpr hafter, trimmed, hcs]
  next => exact hend _

theorem trimmed_trimStart (cs : List Char) : trimmed (trimStart cs) = trimmed cs := by
  obtain ⟨blanks, hcs, hblanks⟩ := exists_blanks cs
  have h := trimmed_append_blanks (trimStart cs) hblanks (List.forall_mem_nil _)
  rwa [List.append_nil, ← hcs, eq_comm] at h

theorem trimmed_trimEnd (cs : List Char) : trimmed (trimEnd cs) = trimmed cs := by
  obtain ⟨blanks, hcs, hblanks⟩ := exists_blanks cs.reverse
  have hafter : ∀ c ∈ blanks.reverse, isBlank c = true :=
    fun c hc => hblanks c (List.mem_reverse.mp hc)
  have hends : trimEnd cs ++ blanks.reverse = cs := by
    rw [trimEnd, ← List.reverse_append, ← trimStart, ← hcs, List.reverse_reverse]
  have h := trimmed_append_blanks (trimEnd cs) (List.forall_mem_nil _) hafter
  rwa [List.nil_append, hends, eq_comm] at h

theorem trimmed_trimmed (cs : List Char) : trimmed (trimmed cs) = trimmed cs :=
  (trimmed_trimEnd _).trans (trimmed_trimStart cs)

theorem trim_trim (s : String) : trim (trim s) = trim s := by
  rw [trim, trim, String.toList_ofList, trimmed_trimmed]

/-- Blanks are taken off on each side of a character that is none. -/
theorem trimmed_append_cons {c : Char} (hc : isBlank c = false) (before after : List Char) :
    trimmed (before ++ c :: after) = trimStart before ++ c :: trimEnd after := by
  have hstart : ∀ before after : List Char,
      (before ++ c :: after).dropWhile isBlank = before.dropWhile isBlank ++ c :: after := by
    intro before after
    rw [List.dropWhile_append, List.dropWhile_cons_of_neg (by simp [hc])]
    split
    next hnone => rw [List.isEmpty_iff.mp hnone, List.nil_append]
    next => rfl
  rw [trimmed, trimStart, hstart, trimEnd, List.reverse_append, List.reverse_cons,
    List.append_assoc, List.singleton_append, hstart, List.reverse_append, List.reverse_cons,
    List.reverse_reverse, List.append_assoc]
  rfl

end Text

end Listing
