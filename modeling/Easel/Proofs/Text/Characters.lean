import Easel.Decimal.Reading
import Easel.Text.Name

/-! Characters by their sort, as ranges of code points. -/

namespace Easel.Text

variable {c : Char}

theorem isDigit_iff : Decimal.isDigit c = true ↔ 48 ≤ c.toNat ∧ c.toNat ≤ 57 := by
  simp only [Decimal.isDigit, Bool.and_eq_true, decide_eq_true_eq, Char.le_def,
    UInt32.le_iff_toNat_le]
  exact Iff.rfl

theorem isNameStart_iff : isNameStart c = true ↔
    (65 ≤ c.toNat ∧ c.toNat ≤ 90) ∨ (97 ≤ c.toNat ∧ c.toNat ≤ 122) ∨ c.toNat = 95 := by
  have underscore : c = '_' ↔ c.toNat = 95 := Char.toNat_inj.symm
  have alpha : c.isAlpha = (c.isUpper || c.isLower) := rfl
  have upper : c.isUpper = decide (65 ≤ c.val ∧ c.val ≤ 90) := rfl
  have lower : c.isLower = (decide (97 ≤ c.val) && decide (c.val ≤ 122)) := rfl
  simp only [isNameStart, alpha, upper, lower, Bool.or_eq_true, Bool.and_eq_true,
    decide_eq_true_eq, beq_iff_eq, UInt32.le_iff_toNat_le, underscore, or_assoc]
  exact Iff.rfl

theorem isNameChar_iff : isNameChar c = true ↔
    isNameStart c = true ∨ Decimal.isDigit c = true := by
  simp only [isNameChar, isNameStart, Char.isAlphanum, Char.isDigit, Decimal.isDigit,
    Bool.or_eq_true, Bool.and_eq_true, decide_eq_true_eq, Char.le_def]
  exact or_right_comm

theorem isNameStart_of_isDigit (digit : Decimal.isDigit c = true) : isNameStart c = false := by
  rw [isDigit_iff] at digit
  rw [Bool.eq_false_iff, Ne, isNameStart_iff]
  omega

theorem visible_of_isNameChar (named : isNameChar c = true) : isBlank c = false := by
  rw [isNameChar_iff, isNameStart_iff, isDigit_iff] at named
  unfold isBlank
  simp only [Bool.or_eq_false_iff, Bool.and_eq_false_iff, decide_eq_false_iff_not,
    beq_eq_false_iff_ne]
  omega

theorem isNameChar_of_isName {name : List Char} (named : isName name = true) :
    ∀ c ∈ name, isNameChar c = true := by
  cases name with
  | nil => cases named
  | cons d rest =>
      rw [isName, Bool.and_eq_true, List.all_eq_true] at named
      exact List.forall_mem_cons.mpr ⟨isNameChar_iff.mpr (.inl named.1), named.2⟩

theorem visible_of_isDigit (digit : Decimal.isDigit c = true) : isBlank c = false :=
  visible_of_isNameChar (isNameChar_iff.mpr (.inr digit))

theorem visible_of_isNameStart (start : isNameStart c = true) : isBlank c = false :=
  visible_of_isNameChar (isNameChar_iff.mpr (.inl start))

theorem not_isAlpha_of_isBlank (blank : isBlank c = true) : c.isAlpha = false := by
  cases alpha : c.isAlpha with
  | false => rfl
  | true =>
      have start : isNameStart c = true := by simp [isNameStart, alpha]
      rw [visible_of_isNameStart start] at blank
      cases blank

theorem takeWhile_run {sort : Char → Bool} {run rest : List Char} (inside : run.all sort = true)
    (ends : ∀ c, rest.head? = some c → sort c = false) :
    (run ++ rest).takeWhile sort = run ∧ (run ++ rest).dropWhile sort = rest := by
  have member := List.all_eq_true.mp inside
  rw [List.takeWhile_append_of_pos member, List.dropWhile_append_of_pos member]
  cases rest with
  | nil => exact ⟨List.append_nil run, rfl⟩
  | cons c rest =>
      have other := ends c rfl
      have stops : ¬ sort c = true := by simp [other]
      rw [List.takeWhile_cons_of_neg stops, List.dropWhile_cons_of_neg stops]
      exact ⟨List.append_nil run, rfl⟩

theorem isNameStart_of_toLower (start : isNameStart c.toLower = true) :
    isNameStart c = true := by
  unfold Char.toLower at start
  split at start
  · rename_i upper
    rw [isNameStart_iff]
    simp only [UInt32.le_iff_toNat_le, ge_iff_le] at upper
    exact .inl upper
  · exact start

theorem length_of_sameWord {s word : List Char} (same : sameWord s word = true) :
    s.length = word.length := by
  have equal := congrArg List.length (beq_iff_eq.mp same)
  simpa [lower] using equal

end Easel.Text
