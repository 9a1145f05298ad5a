import Easel.Program
import Easel.Proofs.Expression.Evaluation

/-! The literals of each kind, and the values that they write. A literal is read as a whole or not
at all, so that a declaration begins with its value or with zero. -/

namespace Easel

open Text Expression

inductive Sign where
  | absent
  | plus
  | minus

namespace Sign

def chars : Sign → List Char
  | absent => []
  | plus => ['+']
  | minus => ['-']

def isMinus : Sign → Bool
  | minus => true
  | _ => false

def isSign (c : Char) : Bool := c == '+' || c == '-'

theorem sign_append (sign : Sign) {rest : List Char}
    (unsigned : ∀ c, rest.head? = some c → isSign c = false) :
    Decimal.sign (sign.chars ++ rest) = (sign.isMinus, rest) := by
  cases sign with
  | plus | minus => rfl
  | absent =>
      change Decimal.sign rest = (false, rest)
      unfold Decimal.sign
      split
      · cases unsigned '-' rfl
      · cases unsigned '+' rfl
      · rfl

theorem exists_sign (s : List Char) :
    ∃ sign : Sign, sign.chars ++ (Decimal.sign s).2 = s ∧ sign.isMinus = (Decimal.sign s).1 := by
  unfold Decimal.sign
  split
  · exact ⟨minus, rfl, rfl⟩
  · exact ⟨plus, rfl, rfl⟩
  · exact ⟨absent, rfl, rfl⟩

theorem isSign_of_isNumeric {c : Char} (numeric : Token.isNumeric c = true) : isSign c = false := by
  rw [isSign, Bool.or_eq_false_iff, beq_eq_false_iff_ne, beq_eq_false_iff_ne]
  constructor <;> rintro rfl <;> cases numeric

end Sign

structure Digits where
  chars : List Char
  filled : chars ≠ []
  digits : chars.all Decimal.isDigit = true

theorem digits?_eq_some {s : List Char} {n : Nat} :
    Decimal.digits? s = some n ↔
      ∃ digits : Digits, digits.chars = s ∧ Decimal.digitsValue s = n := by
  unfold Decimal.digits?
  constructor
  · intro found
    split at found
    · rename_i digits
      rw [Bool.and_eq_true, Bool.not_eq_true', List.isEmpty_eq_false_iff] at digits
      exact ⟨⟨s, digits.1, digits.2⟩, rfl, Option.some.inj found⟩
    · cases found
  · rintro ⟨⟨chars, filled, digits⟩, rfl, rfl⟩
    rw [List.isEmpty_eq_false_iff.mpr filled, digits]
    rfl

def Expression.Numeral.scaled (numeral : Numeral) (power : Int) : Float :=
  Decimal.nearest (Decimal.digitsValue (numeral.whole ++ numeral.fraction.getD []))
    (power - (numeral.fraction.getD []).length)

theorem isNameStart_of_isNumeric {c : Char} (numeric : Token.isNumeric c = true) :
    isNameStart c = false := by
  rw [Token.isNumeric, Bool.or_eq_true, beq_iff_eq] at numeric
  rcases numeric with digit | rfl
  · exact isNameStart_of_isDigit digit
  · rfl

theorem Expression.Numeral.exists_first (numeral : Numeral) :
    ∃ c rest, numeral.chars = c :: rest ∧ Token.isNumeric c = true := by
  have numeric := numeral.chars_numeric
  cases same : numeral.chars with
  | nil =>
      have filled := numeral.some_digit
      unfold Numeral.chars at same
      split at same
      · rename_i absent
        rw [absent] at filled
        exact absurd same (filled.resolve_right fun other => other rfl)
      · exact absurd same (by simp)
  | cons c rest =>
      rw [same, List.all_cons, Bool.and_eq_true] at numeric
      exact ⟨c, rest, rfl, numeric.1⟩

inductive Exponent : List Char → Int → Prop
  | absent : Exponent [] 0
  | written {mark : Char} {s : List Char} {power : Int} (isMark : mark = 'e' ∨ mark = 'E')
      (reads : Decimal.power? s = some power) : Exponent (mark :: s) power

/-- A literal of a kind, and the value that it writes. -/
inductive Literal : Kind → List Char → Value → Prop
  | int (sign : Sign) (digits : Digits) {n : Int32}
      (value : n.toInt = if sign.isMinus then -(Decimal.digitsValue digits.chars : Int)
        else Decimal.digitsValue digits.chars) :
      Literal .int (sign.chars ++ digits.chars) (.int n)
  | real (sign : Sign) (numeral : Numeral) {exponent : List Char} {power : Int} {x : Float}
      (scaled : Exponent exponent power)
      (value : x = if sign.isMinus then -numeral.scaled power else numeral.scaled power)
      (finite : x.isFinite = true) :
      Literal .real (sign.chars ++ (numeral.chars ++ exponent)) (.real x)
  | boolean {s : List Char} (b : Bool) (word : lower s = (toString b).toList) :
      Literal .boolean s (.boolean b)

namespace Literal

theorem int?_eq_some {s : List Char} {m : Int} :
    Decimal.int? s = some m ↔ ∃ (sign : Sign) (digits : Digits), sign.chars ++ digits.chars = s ∧
      m = if sign.isMinus then -(Decimal.digitsValue digits.chars : Int)
        else Decimal.digitsValue digits.chars := by
  have split : Decimal.int? s = (Decimal.digits? (Decimal.sign s).2).map fun n : Nat =>
      if (Decimal.sign s).1 then -(n : Int) else n := by
    unfold Decimal.int?
    obtain ⟨negative, rest⟩ := Decimal.sign s
    cases found : Decimal.digits? rest <;> simp [found]
  rw [split, Option.map_eq_some_iff]
  constructor
  · rintro ⟨n, read, rfl⟩
    obtain ⟨digits, same, rfl⟩ := digits?_eq_some.mp read
    obtain ⟨sign, whole, minus⟩ := Sign.exists_sign s
    refine ⟨sign, digits, ?_, ?_⟩
    · rw [same, whole]
    · rw [minus, same]
  · rintro ⟨sign, digits, rfl, rfl⟩
    have unsigned (c : Char) (first : digits.chars.head? = some c) : Sign.isSign c = false := by
      apply Sign.isSign_of_isNumeric
      rw [Token.isNumeric, List.all_eq_true.mp digits.digits c (List.mem_of_head? first),
        Bool.true_or]
    rw [sign.sign_append unsigned]
    exact ⟨_, digits?_eq_some.mpr ⟨digits, rfl, rfl⟩, rfl⟩

theorem int32?_eq_some {s : List Char} {n : Int32} :
    Decimal.int32? s = some n ↔ Literal .int s (.int n) := by
  have fits : Decimal.int32? s = some n ↔ Decimal.int? s = some n.toInt := by
    unfold Decimal.int32?
    rw [Option.bind_eq_bind, Option.bind_eq_some_iff]
    constructor
    · rintro ⟨m, read, found⟩
      split at found
      · rename_i range
        rw [Bool.and_eq_true, decide_eq_true_eq, decide_eq_true_eq] at range
        cases found
        rw [read, Int32.toInt_ofInt_of_le range.1 (Int.lt_add_one_of_le range.2)]
      · cases found
    · intro read
      refine ⟨n.toInt, read, ?_⟩
      have range : (Int32.minValue.toInt ≤ n.toInt && n.toInt ≤ Int32.maxValue.toInt) = true := by
        rw [Bool.and_eq_true, decide_eq_true_eq, decide_eq_true_eq]
        exact ⟨n.minValue_le_toInt, n.toInt_le⟩
      rw [if_pos range, Int32.ofInt_toInt]
  rw [fits, int?_eq_some]
  constructor
  · rintro ⟨sign, digits, rfl, value⟩
    exact .int sign digits value
  · rintro ⟨sign, digits, value⟩
    exact ⟨sign, digits, rfl, value⟩

theorem magnitude?_append (numeral : Numeral) {exponent : List Char} {power : Int}
    (scaled : Exponent exponent power) :
    Decimal.magnitude? (numeral.chars ++ exponent) = some (numeral.scaled power) := by
  have noWord {word : List Char} {letter : Char} (first : word.head? = some letter)
      (isLetter : isNameStart letter = true) : lower (numeral.chars ++ exponent) ≠ word := by
    rintro rfl
    obtain ⟨c, rest, same, numeric⟩ := numeral.exists_first
    rw [same] at first
    cases first
    cases (isNameStart_of_isNumeric numeric).symm.trans (isNameStart_of_toLower isLetter)
  have noMark : numeral.chars.all (fun c => c != 'e' && c != 'E') = true := by
    rw [List.all_eq_true]
    intro c member
    have numeric := List.all_eq_true.mp numeral.chars_numeric c member
    rw [Bool.and_eq_true, bne_iff_ne, bne_iff_ne]
    constructor <;> rintro rfl <;> cases numeric
  have mark (c : Char) (first : exponent.head? = some c) : (c != 'e' && c != 'E') = false := by
    cases scaled with
    | absent => cases first
    | written isMark reads =>
        cases first
        rcases isMark with rfl | rfl <;> rfl
  obtain ⟨front, back⟩ := takeWhile_run noMark mark
  have noInf : lower (numeral.chars ++ exponent) ≠ "inf".toList := noWord rfl (by decide)
  have noInfinity : lower (numeral.chars ++ exponent) ≠ "infinity".toList := noWord rfl (by decide)
  have noNan : lower (numeral.chars ++ exponent) ≠ "nan".toList := noWord rfl (by decide)
  unfold Decimal.magnitude?
  simp only [noInf, noInfinity, noNan, decide_false, Bool.or_self, Bool.false_eq_true, ↓reduceIte,
    front, back, numeral.fixed?_chars]
  cases scaled with
  | absent => rfl
  | written isMark reads =>
      simp only [Option.bind_eq_bind, Option.bind_some, reads]
      rfl

theorem magnitude?_cases {s : List Char} {x : Float} (found : Decimal.magnitude? s = some x) :
    (∃ (numeral : Numeral) (exponent : List Char) (power : Int), numeral.chars ++ exponent = s ∧
      Exponent exponent power ∧ numeral.scaled power = x) ∨ x = 1 / 0 ∨ x = 0 / 0 := by
  have whole := List.takeWhile_append_dropWhile (p := fun c => c != 'e' && c != 'E') (l := s)
  unfold Decimal.magnitude? at found
  dsimp only at found
  split at found
  · exact .inr (.inl (Option.some.inj found).symm)
  split at found
  · exact .inr (.inr (Option.some.inj found).symm)
  obtain ⟨⟨digits, places⟩, read, found⟩ := Option.bind_eq_some_iff.mp found
  obtain ⟨numeral, same⟩ := exists_numeral read
  rw [← same, numeral.fixed?_chars] at read
  cases read
  have value {power : Int} (scaled : Exponent (s.dropWhile fun c => c != 'e' && c != 'E') power)
      (found : some (numeral.scaled power) = some x) :
      ∃ (numeral : Numeral) (exponent : List Char) (power : Int), numeral.chars ++ exponent = s ∧
        Exponent exponent power ∧ numeral.scaled power = x := by
    refine ⟨numeral, _, power, ?_, scaled, Option.some.inj found⟩
    rw [same, whole]
  left
  split at found
  · rename_i ends
    exact value (ends ▸ .absent) found
  · rename_i mark rest ends
    obtain ⟨power, reads, found⟩ := Option.bind_eq_some_iff.mp found
    have first := List.head?_dropWhile_not (fun c => c != 'e' && c != 'E') s
    rw [ends] at first
    have isMark : mark = 'e' ∨ mark = 'E' := by
      simpa [imp_iff_not_or] using first
    exact value (ends ▸ .written isMark reads) found

theorem real?_eq_some {s : List Char} {x : Float} :
    (Decimal.real? s = some x ∧ x.isFinite = true) ↔ Literal .real s (.real x) := by
  have split (s : List Char) : Decimal.real? s = (Decimal.magnitude? (Decimal.sign s).2).map
      fun y => if (Decimal.sign s).1 then -y else y := rfl
  have infinite (minus : Bool) : (if minus then -(1 / 0 : Float) else 1 / 0).isFinite = false := by
    cases minus <;> decide +kernel
  have undefined (minus : Bool) : (if minus then -(0 / 0 : Float) else 0 / 0).isFinite = false := by
    cases minus <;> decide +kernel
  constructor
  · rintro ⟨read, finite⟩
    rw [split, Option.map_eq_some_iff] at read
    obtain ⟨y, read, rfl⟩ := read
    obtain ⟨sign, whole, minus⟩ := Sign.exists_sign s
    rcases magnitude?_cases read with ⟨numeral, exponent, power, same, scaled, rfl⟩ | rfl | rfl
    · have literal : Literal .real (sign.chars ++ (numeral.chars ++ exponent)) _ :=
        .real sign numeral scaled rfl (minus ▸ finite)
      rw [same, whole, minus] at literal
      exact literal
    · rw [infinite] at finite
      cases finite
    · rw [undefined] at finite
      cases finite
  · intro literal
    cases literal with
    | @real sign numeral exponent power x scaled value finite =>
        have unsigned (c : Char) (first : (numeral.chars ++ exponent).head? = some c) :
            Sign.isSign c = false := by
          obtain ⟨d, rest, same, numeric⟩ := numeral.exists_first
          rw [same] at first
          cases first
          exact Sign.isSign_of_isNumeric numeric
        rw [split, sign.sign_append unsigned, magnitude?_append numeral scaled, value]
        exact ⟨rfl, value ▸ finite⟩

theorem kind_eq {kind : Kind} {s : List Char} {value : Value} (literal : Literal kind s value) :
    value.kind = kind := by
  cases literal <;> rfl

end Literal

theorem Program.literal?_eq_some_iff {kind : Kind} {expression : String} {value : Value} :
    Program.literal? kind expression = some value ↔ Literal kind expression.toList value := by
  unfold Program.literal?
  cases kind with
  | int =>
      rw [Option.map_eq_some_iff]
      generalize expression.toList = s
      constructor
      · rintro ⟨n, read, rfl⟩
        exact Literal.int32?_eq_some.mp read
      · intro literal
        obtain ⟨n, rfl⟩ : ∃ n, value = .int n := by cases literal; exact ⟨_, rfl⟩
        exact ⟨n, Literal.int32?_eq_some.mpr literal, rfl⟩
  | real =>
      simp only [Option.map_eq_some_iff, Option.filter_eq_some_iff]
      generalize expression.toList = s
      constructor
      · rintro ⟨x, read, rfl⟩
        exact Literal.real?_eq_some.mp read
      · intro literal
        obtain ⟨x, rfl⟩ : ∃ x, value = .real x := by cases literal; exact ⟨_, rfl⟩
        exact ⟨x, Literal.real?_eq_some.mpr literal, rfl⟩
  | boolean =>
      have word (b : Bool) : lowercase expression = toString b ↔
          lower expression.toList = (toString b).toList := by
        rw [lowercase, ← String.toList_inj, String.toList_ofList]
      constructor
      · intro found
        dsimp only at found
        split at found
        · rename_i same
          cases found
          exact .boolean true ((word true).mp same)
        · rename_i same
          cases found
          exact .boolean false ((word false).mp same)
        · cases found
      · intro literal
        cases literal with
        | boolean b same =>
            rw [(word b).mpr same]
            cases b <;> rfl
  | array =>
      constructor
      · intro found
        cases found
      · intro literal
        cases literal

/-- What a declaration begins with: the value of its literal, or zero where it has none. -/
def Declaration.Begins (declaration : Declaration) (value : Value) : Prop :=
  Literal declaration.kind declaration.expression.toList value ∨
    (∀ other, ¬ Literal declaration.kind declaration.expression.toList other) ∧
      value = Value.zero declaration.kind

theorem Program.seed_begins (declaration : Declaration) :
    declaration.Begins (Program.seed declaration).2 := by
  unfold Program.seed
  cases found : Program.literal? declaration.kind declaration.expression with
  | some value => exact .inl (Program.literal?_eq_some_iff.mp found)
  | none =>
      refine .inr ⟨fun other literal => ?_, rfl⟩
      rw [← Program.literal?_eq_some_iff, found] at literal
      cases literal

end Easel
