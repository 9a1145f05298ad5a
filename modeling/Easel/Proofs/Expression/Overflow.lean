import Easel.Proofs.Decimal.Range
import Easel.Proofs.Expression.Evaluation

/-! Numbers that are too large for a real. Arithmetic refuses a result that is not finite, but a
number that stands alone is not looked at again: it can be infinite, and nothing else can. -/

namespace Easel.Expression

open Text

variable {vars : Variables} {s : List Char}

/-- The value of a text by the rules of arithmetic, also where it is a number that stands alone. -/
def computed (vars : Variables) (s : List Char) : Except Error Float := do
  finite (← complete (← sum vars (4 * s.length + 4) s))

namespace Numeral

def digits (numeral : Numeral) : Nat :=
  Decimal.digitsValue (numeral.whole ++ numeral.fraction.getD [])

def places (numeral : Numeral) : Nat := (numeral.fraction.getD []).length

theorem value_range (numeral : Numeral) :
    (numeral.digits < Decimal.limit * 10 ^ numeral.places → numeral.value.isFinite = true) ∧
      (Decimal.limit * 10 ^ numeral.places ≤ numeral.digits → numeral.value = 1 / 0) := by
  have same : numeral.value = Decimal.nearest numeral.digits (-numeral.places) := by
    rw [value, Int.zero_sub]
    rfl
  rw [same]
  exact Decimal.nearest_range numeral.digits numeral.places

theorem real_chars (numeral : Numeral) : real vars numeral.chars = .ok numeral.value := by
  obtain ⟨filled, trimmed⟩ := numeral.solid
  unfold real
  dsimp only
  rw [trimmed.trim_eq, if_neg (by simpa using filled),
    literal?_eq_some.mpr ⟨numeral, rfl, rfl⟩]

theorem computed_chars (numeral : Numeral) : computed vars numeral.chars = finite numeral.value := by
  have spaced : Spaced [numeral.chars] ([] ++ numeral.chars) := .single rfl numeral.chars
  have read : sum vars (4 * numeral.chars.length + 4) (numeral.chars ++ []) = _ :=
    (Term.reads vars (.summand (.factor (.plain (.number numeral))))).whole spaced
      (before_blanks rfl _) (by simp)
  rw [List.append_nil] at read
  unfold computed
  rw [read]
  change (Token.value numeral.chars >>= _) >>= _ = _
  rw [numeral.value_chars]
  rfl

end Numeral

/-- The text is a number that rounds to infinity. -/
def TooLarge (s : List Char) : Prop :=
  ∃ numeral : Numeral, numeral.chars = s ∧
    Decimal.limit * 10 ^ numeral.places ≤ numeral.digits

theorem tooLarge_iff {digits places : Nat} (read : Decimal.fixed? s = some (digits, places)) :
    TooLarge s ↔ Decimal.limit * 10 ^ places ≤ digits := by
  constructor
  · rintro ⟨numeral, rfl, large⟩
    rw [numeral.fixed?_chars] at read
    cases read
    exact large
  · intro large
    obtain ⟨numeral, rfl⟩ := exists_numeral read
    rw [numeral.fixed?_chars] at read
    cases read
    exact ⟨numeral, rfl, large⟩

theorem infinite : (1 / 0 : Float).isFinite = false := by decide

theorem TooLarge.real_and_computed (large : TooLarge s) (vars : Variables) :
    real vars s = .ok (1 / 0) ∧ computed vars s = .error .overflow := by
  obtain ⟨numeral, rfl, large⟩ := large
  have value := numeral.value_range.2 large
  rw [numeral.real_chars, numeral.computed_chars, value, finite, infinite]
  exact ⟨rfl, rfl⟩

theorem real_eq_computed (filled : s ≠ []) (numeric : s.all Token.isNumeric = true)
    (fits : ¬ TooLarge s) : real vars s = computed vars s := by
  cases found : literal? s with
  | some x =>
      obtain ⟨numeral, rfl, rfl⟩ := literal?_eq_some.mp found
      have below : numeral.digits < Decimal.limit * 10 ^ numeral.places := by
        by_contra large
        exact fits ⟨numeral, rfl, Nat.not_lt.mp large⟩
      rw [numeral.real_chars, numeral.computed_chars, finite, if_pos (numeral.value_range.1 below)]
  | none =>
      unfold real computed
      dsimp only
      rw [(trimmed_of_numeric numeric).trim_eq, if_neg (by simpa using filled), found]

theorem real_trim (vars : Variables) (s : List Char) : real vars (trim s) = real vars s := by
  unfold real
  rw [(trimmed_trim s).trim_eq]

theorem finite_or_numeral_of_real {x : Float} (found : real vars s = .ok x) :
    x.isFinite = true ∨ ∃ numeral : Numeral, numeral.chars = trim s ∧ numeral.value = x := by
  unfold real at found
  dsimp only at found
  split at found
  · cases found
  · split at found
    · rename_i literal
      cases found
      exact .inr (literal?_eq_some.mp literal)
    · obtain ⟨reading, -, found⟩ := bind_eq_ok.mp found
      obtain ⟨y, -, found⟩ := bind_eq_ok.mp found
      rw [finite] at found
      split at found
      · rename_i fine
        cases found
        exact .inl fine
      · cases found

/-- Digits and points that stand alone have the value that arithmetic finds in them, or the same
fault, up to the numbers that round to infinity. Those are taken as infinity where arithmetic finds
an overflow, and no other text has a value that is not finite. -/
theorem lone_number_is_infinite_beyond_limit (vars : Variables) :
    (∀ s : List Char, s ≠ [] → s.all (fun c => Decimal.isDigit c || c == '.') = true →
      (real vars s = computed vars s ↔ ¬ TooLarge s) ∧
      (TooLarge s → real vars s = .ok (1 / 0) ∧ computed vars s = .error .overflow)) ∧
    ∀ (s : List Char) (x : Float),
      real vars s = .ok x ∧ x.isFinite = false ↔ TooLarge (trim s) ∧ x = 1 / 0 := by
  constructor
  · intro s filled numeric
    refine ⟨⟨?_, real_eq_computed filled numeric⟩, fun large => large.real_and_computed vars⟩
    intro same large
    obtain ⟨taken, refused⟩ := large.real_and_computed vars
    rw [taken, refused] at same
    cases same
  · intro s x
    constructor
    · rintro ⟨found, endless⟩
      rcases finite_or_numeral_of_real found with fine | ⟨numeral, chars, rfl⟩
      · rw [fine] at endless
        cases endless
      · have large : Decimal.limit * 10 ^ numeral.places ≤ numeral.digits := by
          by_contra below
          rw [numeral.value_range.1 (Nat.not_le.mp below)] at endless
          cases endless
        exact ⟨⟨numeral, chars, large⟩, numeral.value_range.2 large⟩
    · rintro ⟨large, rfl⟩
      rw [← real_trim]
      exact ⟨(large.real_and_computed vars).1, infinite⟩

theorem lone_powers_of_ten :
    real .empty ('1' :: List.replicate 308 '0') = computed .empty ('1' :: List.replicate 308 '0') ∧
    real .empty ('2' :: List.replicate 308 '0') = .ok (1 / 0) ∧
    computed .empty ('2' :: List.replicate 308 '0') = .error .overflow := by
  have agrees := (lone_number_is_infinite_beyond_limit .empty).1
  have one : Decimal.fixed? ('1' :: List.replicate 308 '0') = some (10 ^ 308, 0) := by
    decide +kernel
  have two : Decimal.fixed? ('2' :: List.replicate 308 '0') = some (2 * 10 ^ 308, 0) := by
    decide +kernel
  have small : ¬ TooLarge ('1' :: List.replicate 308 '0') := by
    rw [tooLarge_iff one]
    decide +kernel
  have large : TooLarge ('2' :: List.replicate 308 '0') := by
    rw [tooLarge_iff two]
    decide +kernel
  exact ⟨(agrees _ (List.cons_ne_nil _ _) (by decide +kernel)).1.mpr small,
    (agrees _ (List.cons_ne_nil _ _) (by decide +kernel)).2 large⟩

theorem nines_are_infinite :
    (List.replicate 400 '9').all (fun c => Decimal.isDigit c || c == '.') = true ∧
    real .empty (List.replicate 400 '9') = .ok (1 / 0) ∧ (1 / 0 : Float).isFinite = false ∧
    computed .empty (List.replicate 400 '9') = .error .overflow := by
  have read : Decimal.fixed? (List.replicate 400 '9') = some (10 ^ 400 - 1, 0) := by
    decide +kernel
  have large : TooLarge (List.replicate 400 '9') := by
    rw [tooLarge_iff read]
    decide +kernel
  obtain ⟨taken, refused⟩ := large.real_and_computed .empty
  exact ⟨by decide +kernel, taken, infinite, refused⟩

end Easel.Expression
