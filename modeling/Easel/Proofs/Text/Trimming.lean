import Mathlib.Data.List.DropRight
import Mathlib.Data.List.TakeWhile
import Easel.Text.Basic

/-! Text without the blanks around it. -/

namespace Easel.Text

variable {blanks s : List Char} {c : Char}

theorem trimStart_blanks (blank : blanks.all isBlank = true) (s : List Char) :
    trimStart (blanks ++ s) = trimStart s := by
  unfold trimStart
  rw [List.dropWhile_append_of_pos]
  exact List.all_eq_true.mp blank

theorem trimStart_cons (visible : isBlank c = false) (s : List Char) :
    trimStart (c :: s) = c :: s := by
  rw [trimStart, List.dropWhile_cons_of_neg]
  simp [visible]

theorem trimEnd_blanks (s : List Char) (blank : blanks.all isBlank = true) :
    trimEnd (s ++ blanks) = trimEnd s := by
  unfold trimEnd
  rw [List.reverse_append, List.dropWhile_append_of_pos]
  intro c member
  exact List.all_eq_true.mp blank c (List.mem_reverse.mp member)

/-- Neither the first character nor the last one is blank. -/
structure Trimmed (s : List Char) : Prop where
  begins : ∀ c, s.head? = some c → isBlank c = false
  ends : ∀ c, s.getLast? = some c → isBlank c = false

theorem trimStart_eq_self (begins : ∀ c, s.head? = some c → isBlank c = false) :
    trimStart s = s := by
  cases s with
  | nil => rfl
  | cons c s => exact trimStart_cons (begins c rfl) s

theorem trimEnd_eq_self (ends : ∀ c, s.getLast? = some c → isBlank c = false) :
    trimEnd s = s := by
  apply List.rdropWhile_eq_self_iff.mpr
  intro filled blank
  rw [ends _ (List.getLast?_eq_some_getLast filled)] at blank
  cases blank

theorem trimmed_of_visible (visible : ∀ c ∈ s, isBlank c = false) : Trimmed s where
  begins c next := visible c (List.mem_of_head? next)
  ends c last := visible c (List.mem_of_getLast? last)

theorem Trimmed.trim_eq (trimmed : Trimmed s) : trim s = s := by
  rw [trim, trimStart_eq_self trimmed.begins, trimEnd_eq_self trimmed.ends]

theorem isBlank_of_head?_trimStart (next : (trimStart s).head? = some c) : isBlank c = false := by
  have visible := List.head?_dropWhile_not isBlank s
  unfold trimStart at next
  rw [next] at visible
  exact visible

theorem trimmed_trim (s : List Char) : Trimmed (trim s) where
  begins c next := by
    -- What is left of a text is a beginning of it, so its first character is the same.
    obtain ⟨back, whole⟩ : trimEnd (trimStart s) <+: trimStart s := List.rdropWhile_prefix isBlank _
    rw [trim] at next
    apply isBlank_of_head?_trimStart (s := s)
    rw [← whole, List.head?_append, next]
    rfl
  ends c last := by
    rw [trim, trimEnd, List.getLast?_reverse] at last
    exact isBlank_of_head?_trimStart last

theorem trim_blanks (blank : blanks.all isBlank = true) (s : List Char) :
    trim (blanks ++ s) = trim s := by
  rw [trim, trimStart_blanks blank, trim]

theorem trimStart_append (filled : trimStart s ≠ []) (t : List Char) :
    trimStart (s ++ t) = trimStart s ++ t := by
  unfold trimStart at filled ⊢
  rw [List.dropWhile_append, if_neg]
  simpa using filled

theorem trim_append_blanks (s : List Char) (blank : blanks.all isBlank = true) :
    trim (s ++ blanks) = trim s := by
  by_cases empty : trimStart s = []
  · have all : s.all isBlank = true := by
      rw [List.all_eq_true]
      exact List.dropWhile_eq_nil_iff.mp empty
    have nothing : trimStart blanks = [] :=
      List.dropWhile_eq_nil_iff.mpr (List.all_eq_true.mp blank)
    rw [trim, trimStart_blanks all, nothing, trim, empty]
  · rw [trim, trimStart_append empty, trimEnd_blanks _ blank, trim]

theorem exists_trim (s : List Char) :
    ∃ front back, front.all isBlank = true ∧ back.all isBlank = true ∧
      s = front ++ (trim s ++ back) := by
  refine ⟨s.takeWhile isBlank, (trimStart s).rtakeWhile isBlank, List.all_takeWhile, ?_, ?_⟩
  · rw [List.all_eq_true]
    intro c member
    exact List.mem_rtakeWhile_imp member
  · have whole : trim s ++ (trimStart s).rtakeWhile isBlank = trimStart s :=
      List.rdropWhile_append_rtakeWhile
    rw [whole]
    exact List.takeWhile_append_dropWhile.symm

theorem all_blank_of_trim (empty : trim s = []) : s.all isBlank = true := by
  obtain ⟨front, back, blank, blank', whole⟩ := exists_trim s
  rw [empty, List.nil_append] at whole
  rw [whole, List.all_append, blank, blank']
  rfl

theorem Trimmed.suffix {front back : List Char} (trimmed : Trimmed (front ++ back))
    (begins : ∀ c, back.head? = some c → isBlank c = false) : Trimmed back := by
  refine ⟨begins, fun c last => trimmed.ends c ?_⟩
  rw [List.getLast?_append, last]
  rfl

theorem Trimmed.no_blanks (trimmed : Trimmed (s ++ blanks)) (blank : blanks.all isBlank = true) :
    blanks = [] := by
  by_contra filled
  have last := List.getLast?_eq_some_getLast filled
  have visible := trimmed.ends (blanks.getLast filled) (by rw [List.getLast?_append, last]; rfl)
  rw [List.all_eq_true.mp blank _ (List.getLast_mem filled)] at visible
  cases visible

theorem head?_trim (visible : isBlank c = false) (s : List Char) :
    (trim (c :: s)).head? = some c := by
  obtain ⟨front, back, margin, blank, whole⟩ := exists_trim (c :: s)
  cases front with
  | cons d front =>
      obtain ⟨rfl, -⟩ := List.cons.inj whole
      simp [visible] at margin
  | nil =>
      cases left : trim (c :: s) with
      | nil =>
          have all := all_blank_of_trim left
          simp [visible] at all
      | cons d rest =>
          rw [left] at whole
          obtain ⟨rfl, -⟩ := List.cons.inj whole
          rfl

theorem count_trim (visible : isBlank c = false) (s : List Char) :
    (trim s).count c = s.count c := by
  have absent {blanks : List Char} (blank : blanks.all isBlank = true) : blanks.count c = 0 := by
    apply List.count_eq_zero.mpr
    intro member
    rw [List.all_eq_true.mp blank c member] at visible
    cases visible
  obtain ⟨front, back, margin, blank, whole⟩ := exists_trim s
  conv => rhs; rw [whole]
  simp [List.count_append, absent margin, absent blank]

end Easel.Text
