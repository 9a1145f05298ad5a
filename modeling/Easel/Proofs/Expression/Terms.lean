import Easel.Expression.Arithmetic
import Easel.Proofs.Expression.Spacing
import Easel.Proofs.Text.Characters

/-! Terms of arithmetic. A term is built by the rules of precedence, so that its tokens in a row can
be read in one way only, and its value is found from left to right. Whatever the blanks between the
tokens are, the readers of arithmetic come to that value, or to its fault. -/

namespace Easel

/-- The number that a name stands for by its entry in the table. -/
def Variables.numberOf (vars : Variables) (name : String) : Except Error Float :=
  match vars.get? name with
  | none => .error (.unknown name)
  | some ⟨.array _, _⟩ => .error (.arrayAsNumber name)
  | some ⟨.int n, _⟩ => .ok (Float.ofInt n.toInt)
  | some ⟨.real x, _⟩ => .ok x
  | some ⟨.boolean true, _⟩ => .ok 1
  | some ⟨.boolean false, _⟩ => .ok 0

namespace Expression

open Text

theorem number_eq (vars : Variables) (name : String) : number vars name = vars.numberOf name := by
  unfold number Variables.fetch Variables.entry Variables.numberOf
  cases vars.get? name with
  | none => rfl
  | some entry =>
      obtain ⟨value, scope⟩ := entry
      cases value with
      | int n => rfl
      | real x => rfl
      | boolean b => cases b <;> rfl
      | array grid => rfl

/-! ### Numerals and names -/

/-- Digits with at most one point among them, but no point alone. -/
structure Numeral where
  whole : List Char
  fraction : Option (List Char)
  whole_digits : whole.all Decimal.isDigit = true
  fraction_digits : (fraction.getD []).all Decimal.isDigit = true
  some_digit : whole ≠ [] ∨ fraction.getD [] ≠ []

def Numeral.chars (numeral : Numeral) : List Char :=
  match numeral.fraction with
  | none => numeral.whole
  | some fraction => numeral.whole ++ '.' :: fraction

structure Name where
  chars : List Char
  isName : isName chars = true

def afterOperand : List Char := "*/+-)<>=!&|".toList
def afterProduct : List Char := "+-)<>=!&|".toList
def afterSum : List Char := ")<>=!&|".toList

theorem ends_of_before {rest : List Char} (before : Before afterOperand rest) {c : Char}
    (next : rest.head? = some c) : isNameChar c = false ∧ c ≠ '.' := by
  rcases before.head? next with blank | member
  · constructor
    · cases named : isNameChar c with
      | false => rfl
      | true =>
          rw [visible_of_isNameChar named] at blank
          cases blank
    · rintro rfl
      cases blank
  · have signs : afterOperand.all (fun d => !isNameChar d && d != '.') = true := by decide
    simpa using List.all_eq_true.mp signs c member

theorem ends_digits {rest : List Char} (before : Before afterOperand rest) {c : Char}
    (next : rest.head? = some c) : Decimal.isDigit c = false := by
  cases digit : Decimal.isDigit c with
  | false => rfl
  | true =>
      have named := isNameChar_iff.mpr (.inr digit)
      rw [(ends_of_before before next).1] at named
      cases named

namespace Numeral

variable (numeral : Numeral)

theorem begins : ∃ c s, numeral.chars = c :: s ∧ (Decimal.isDigit c = true ∨ c = '.') := by
  obtain ⟨whole, fraction, wholeDigits, fractionDigits, someDigit⟩ := numeral
  cases whole with
  | cons c whole =>
      have digit : Decimal.isDigit c = true := List.all_eq_true.mp wholeDigits c (by simp)
      cases fraction with
      | none => exact ⟨c, whole, rfl, .inl digit⟩
      | some fraction => exact ⟨c, whole ++ '.' :: fraction, rfl, .inl digit⟩
  | nil =>
      cases fraction with
      | none => simp at someDigit
      | some fraction => exact ⟨'.', fraction, rfl, .inr rfl⟩

theorem trimStart_chars (rest : List Char) :
    trimStart (numeral.chars ++ rest) = numeral.chars ++ rest := by
  obtain ⟨c, s, chars, digit | rfl⟩ := numeral.begins
  · rw [chars]
    exact trimStart_cons (visible_of_isDigit digit) _
  · rw [chars]
    exact trimStart_cons (by decide) _

theorem first (rest : List Char) :
    ∃ c, first? (numeral.chars ++ rest) = some c ∧ (Decimal.isDigit c = true ∨ c = '.') := by
  obtain ⟨c, s, chars, begins⟩ := numeral.begins
  refine ⟨c, ?_, begins⟩
  rw [first?, numeral.trimStart_chars, chars]
  rfl

theorem digits? {rest : List Char} (before : Before afterOperand rest) :
    Token.digits? (numeral.chars ++ rest) = some (numeral.chars, rest) := by
  have trimmed := numeral.trimStart_chars rest
  obtain ⟨whole, fraction, wholeDigits, fractionDigits, someDigit⟩ := numeral
  unfold Token.digits?
  rw [trimmed]
  cases fraction with
  | none =>
      obtain ⟨take, drop⟩ := takeWhile_run wholeDigits fun c => ends_digits before
      have filled : whole.isEmpty = false := by simpa using someDigit
      simp only [chars, take, drop, filled]
      split
      · exact absurd rfl (ends_of_before before (c := '.') rfl).2
      · rfl
  | some fraction =>
      have point (c : Char) (next : ('.' :: (fraction ++ rest)).head? = some c) :
          Decimal.isDigit c = false := by
        cases next
        decide
      obtain ⟨take, drop⟩ := takeWhile_run wholeDigits point
      obtain ⟨take', drop'⟩ := takeWhile_run fractionDigits fun c => ends_digits before
      rw [Option.getD_some] at take' drop'
      simp only [chars, List.append_assoc, List.cons_append, take, drop, take', drop']

end Numeral

namespace Name

variable (name : Name)

theorem begins : ∃ c s, name.chars = c :: s ∧ isNameStart c = true ∧ s.all isNameChar = true := by
  obtain ⟨chars, isName⟩ := name
  cases chars with
  | nil => cases isName
  | cons c s =>
      rw [Text.isName, Bool.and_eq_true] at isName
      exact ⟨c, s, rfl, isName⟩

theorem trimStart_chars (rest : List Char) :
    trimStart (name.chars ++ rest) = name.chars ++ rest := by
  obtain ⟨c, s, chars, start, -⟩ := name.begins
  rw [chars]
  exact trimStart_cons (visible_of_isNameStart start) _

theorem first (rest : List Char) :
    ∃ c, first? (name.chars ++ rest) = some c ∧ isNameStart c = true := by
  obtain ⟨c, s, chars, start, -⟩ := name.begins
  refine ⟨c, ?_, start⟩
  rw [first?, name.trimStart_chars, chars]
  rfl

theorem no_group (rest : List Char) : Token.char? '(' (name.chars ++ rest) = none := by
  obtain ⟨c, found, start⟩ := name.first rest
  apply Token.char?_eq_none
  rw [found]
  rintro ⟨⟩
  cases start

theorem name? {rest : List Char} (before : Before afterOperand rest) :
    Token.name? (name.chars ++ rest) = some (name.chars, rest) := by
  obtain ⟨c, s, chars, start, tail⟩ := name.begins
  obtain ⟨take, drop⟩ := takeWhile_run tail fun c next => (ends_of_before before next).1
  unfold Token.name?
  rw [name.trimStart_chars, chars, List.cons_append]
  simp only [start, ↓reduceIte, take, drop]

theorem digits?_eq_none (rest : List Char) : Token.digits? (name.chars ++ rest) = none := by
  obtain ⟨c, s, chars, start, -⟩ := name.begins
  have digit : ¬ Decimal.isDigit c = true := by
    intro digit
    rw [isNameStart_of_isDigit digit] at start
    cases start
  have noPoint : c ≠ '.' := by
    rintro rfl
    cases start
  unfold Token.digits?
  rw [name.trimStart_chars, chars, List.cons_append]
  simp only [List.takeWhile_cons_of_neg digit, List.dropWhile_cons_of_neg digit]
  split
  · rename_i same
    exact absurd (List.cons.inj same).1 noPoint
  · rfl

end Name

/-! ### Terms -/

inductive Sign where
  | plus
  | minus
  deriving DecidableEq, Repr

namespace Sign

def char : Sign → Char
  | plus => '+'
  | minus => '-'

def apply : Sign → Float → Float
  | plus, x => x
  | minus, x => -x

def combine : Sign → Float → Float → Float
  | plus, x, y => x + y
  | minus, x, y => x - y

end Sign

inductive Scaling where
  | times
  | divide
  deriving DecidableEq, Repr

namespace Scaling

def char : Scaling → Char
  | times => '*'
  | divide => '/'

def combine : Scaling → Float → Float → Except Error Float
  | times, x, y => .ok (x * y)
  | divide, x, y => if y == 0 then .error .divisionByZero else .ok (x / y)

end Scaling

inductive Level where
  | sum
  | product
  | signed
  | operand

/-- Terms by what holds their parts together. Sums and products are read from the left, so that
only their left part may be of the same kind. -/
inductive Term : Level → Type where
  | number (numeral : Numeral) : Term .operand
  | named (name : Name) : Term .operand
  | group (inner : Term .sum) : Term .operand
  | plain (inner : Term .operand) : Term .signed
  | signed (sign : Sign) (inner : Term .signed) : Term .signed
  | factor (inner : Term .signed) : Term .product
  | scaled (scaling : Scaling) (left : Term .product) (right : Term .signed) : Term .product
  | summand (inner : Term .product) : Term .sum
  | added (sign : Sign) (left : Term .sum) (right : Term .product) : Term .sum

namespace Term

def tokens : {level : Level} → Term level → List (List Char)
  | _, number numeral => [numeral.chars]
  | _, named name => [name.chars]
  | _, group inner => ['('] :: (inner.tokens ++ [[')']])
  | _, plain inner | _, factor inner | _, summand inner => inner.tokens
  | _, signed sign inner => [sign.char] :: inner.tokens
  | _, scaled scaling left right => left.tokens ++ [scaling.char] :: right.tokens
  | _, added sign left right => left.tokens ++ [sign.char] :: right.tokens

/-- The value, or the first fault from the left. -/
def value (vars : Variables) : {level : Level} → Term level → Except Error Float
  | _, number numeral => Token.value numeral.chars
  | _, named name => vars.numberOf (String.ofList name.chars)
  | _, group inner | _, plain inner | _, factor inner | _, summand inner => inner.value vars
  | _, signed sign inner => do return sign.apply (← inner.value vars)
  | _, scaled scaling left right => do scaling.combine (← left.value vars) (← right.value vars)
  | _, added sign left right => do return sign.combine (← left.value vars) (← right.value vars)

def names : {level : Level} → Term level → List Name
  | _, number _ => []
  | _, named name => [name]
  | _, group inner | _, plain inner | _, factor inner | _, summand inner => inner.names
  | _, signed _ inner => inner.names
  | _, scaled _ left right => left.names ++ right.names
  | _, added _ left right => left.names ++ right.names

end Term

/-! ### Reading terms -/

def Level.signs : Level → List Char
  | .operand => ['.', '(']
  | _ => ['.', '(', '+', '-']

theorem Sign.visible (sign : Sign) : isBlank sign.char = false := by cases sign <;> decide

theorem Scaling.visible (scaling : Scaling) : isBlank scaling.char = false := by
  cases scaling <;> decide

theorem Term.first {level : Level} (term : Term level) {s : List Char}
    (spaced : Spaced term.tokens s) (rest : List Char) :
    ∃ c, first? (s ++ rest) = some c ∧ (isNameChar c = true ∨ c ∈ level.signs) := by
  induction term generalizing s rest with
  | number numeral =>
      obtain ⟨blanks, blank, rfl⟩ := spaced.one
      obtain ⟨c, found, begins⟩ := numeral.first rest
      rw [List.append_assoc, first?_blanks blank]
      refine ⟨c, found, ?_⟩
      rcases begins with digit | rfl
      · exact .inl (isNameChar_iff.mpr (.inr digit))
      · exact .inr (by decide)
  | named name =>
      obtain ⟨blanks, blank, rfl⟩ := spaced.one
      obtain ⟨c, found, start⟩ := name.first rest
      rw [List.append_assoc, first?_blanks blank]
      exact ⟨c, found, .inl (isNameChar_iff.mpr (.inl start))⟩
  | group inner =>
      obtain ⟨blanks, tail, blank, rfl, -⟩ := spaced
      rw [List.append_assoc]
      exact ⟨'(', first?_token blank (by decide) _, .inr (by decide)⟩
  | plain inner ih =>
      obtain ⟨c, found, begins⟩ := ih spaced rest
      refine ⟨c, found, begins.imp_right ?_⟩
      have subset : Level.signs .operand ⊆ Level.signs .signed := by decide
      exact fun member => subset member
  | signed sign inner =>
      obtain ⟨blanks, tail, blank, rfl, -⟩ := spaced
      rw [List.append_assoc]
      exact ⟨sign.char, first?_token blank sign.visible _, .inr (by cases sign <;> decide)⟩
  | factor inner ih => exact ih spaced rest
  | summand inner ih => exact ih spaced rest
  | scaled scaling left right ih =>
      obtain ⟨front, back, rfl, first, -⟩ := spaced.append
      rw [List.append_assoc]
      exact ih first _
  | added sign left right ih =>
      obtain ⟨front, back, rfl, first, -⟩ := spaced.append
      rw [List.append_assoc]
      exact ih first _

theorem Term.length_pos {level : Level} (term : Term level) {s : List Char}
    (spaced : Spaced term.tokens s) : 0 < s.length := by
  obtain ⟨c, found, -⟩ := term.first spaced []
  rw [List.append_nil] at found
  exact length_pos_of_first? found

variable {vars : Variables}

theorem productFrom_end {rest : List Char} (before : Before afterProduct rest) {fuel : Nat}
    (enough : 0 < fuel) (x : Float) : productFrom vars fuel x rest = .ok (x, rest) := by
  obtain _ | fuel := fuel
  · cases enough
  · unfold productFrom
    rw [Token.char?_of_before before (by decide), Token.char?_of_before before (by decide)]

theorem sumFrom_end {rest : List Char} (before : Before afterSum rest) {fuel : Nat}
    (enough : 0 < fuel) (x : Float) : sumFrom vars fuel x rest = .ok (x, rest) := by
  obtain _ | fuel := fuel
  · cases enough
  · unfold sumFrom
    rw [Token.char?_of_before before (by decide), Token.char?_of_before before (by decide)]

section

variable {blanks : List Char} (blank : blanks.all isBlank = true)

include blank

theorem productFrom_scaled (scaling : Scaling) (fuel : Nat) (x : Float) (s : List Char) :
    productFrom vars (fuel + 1) x (blanks ++ scaling.char :: s) = (do
      let (y, s) ← signed vars fuel s
      productFrom vars fuel (← scaling.combine x y) s) := by
  cases scaling with
  | times =>
      simp only [productFrom, Scaling.char, Token.char?_token blank (c := '*') (by decide)]
      rfl
  | divide =>
      simp only [productFrom, Scaling.char, Token.char?_token blank (c := '/') (by decide),
        Token.char?_other blank (c := '*') (d := '/') (by decide) (by decide)]
      cases signed vars fuel s with
      | error fault => rfl
      | ok reading =>
          obtain ⟨y, s⟩ := reading
          simp only [Scaling.combine, bind, Except.bind]
          split <;> rfl

theorem sumFrom_added (sign : Sign) (fuel : Nat) (x : Float) (s : List Char) :
    sumFrom vars (fuel + 1) x (blanks ++ sign.char :: s) = (do
      let (y, s) ← product vars fuel s
      sumFrom vars fuel (sign.combine x y) s) := by
  cases sign with
  | plus =>
      simp only [sumFrom, Sign.char, Token.char?_token blank (c := '+') (by decide), Sign.combine]
  | minus =>
      simp only [sumFrom, Sign.char, Token.char?_token blank (c := '-') (by decide),
        Token.char?_other blank (c := '+') (d := '-') (by decide) (by decide), Sign.combine]

theorem signed_sign (sign : Sign) (fuel : Nat) (s : List Char) :
    signed vars (fuel + 1) (blanks ++ sign.char :: s) = (do
      let (x, s) ← signed vars fuel s
      return (sign.apply x, s)) := by
  cases sign with
  | minus =>
      simp only [signed, Sign.char, Token.char?_token blank (c := '-') (by decide), Sign.apply]
  | plus =>
      simp only [signed, Sign.char, Token.char?_token blank (c := '+') (by decide),
        Token.char?_other blank (c := '-') (d := '+') (by decide) (by decide), Sign.apply]
      cases signed vars fuel s <;> rfl

end

/-- A term is read to its end, and its value is what the readers come to. Sums and products may go
on behind it, so that theirs is the value to go on from. -/
def Reads (vars : Variables) : {level : Level} → Term level → Prop
  | .operand, term => ∀ (fuel : Nat) (s rest : List Char), Spaced term.tokens s →
    Before afterOperand rest → 4 * s.length ≤ fuel + 3 →
    operand vars fuel (s ++ rest) = (do return (← term.value vars, rest))
  | .signed, term => ∀ (fuel : Nat) (s rest : List Char), Spaced term.tokens s →
    Before afterOperand rest → 4 * s.length ≤ fuel + 2 →
    signed vars fuel (s ++ rest) = (do return (← term.value vars, rest))
  | .product, term => ∀ (fuel : Nat) (s rest : List Char), Spaced term.tokens s →
    Before afterOperand rest → 4 * s.length ≤ fuel + 1 →
    ∃ left, fuel ≤ left + s.length ∧
      product vars fuel (s ++ rest) = (do productFrom vars left (← term.value vars) rest)
  | .sum, term => ∀ (fuel : Nat) (s rest : List Char), Spaced term.tokens s →
    Before afterProduct rest → 4 * s.length ≤ fuel →
    ∃ left, fuel ≤ left + s.length ∧
      sum vars fuel (s ++ rest) = (do sumFrom vars left (← term.value vars) rest)

namespace Reads

theorem number (numeral : Numeral) : Reads vars (.number numeral) := by
  intro fuel s rest spaced before enough
  have length := Term.length_pos _ spaced
  obtain ⟨blanks, blank, rfl⟩ := spaced.one
  obtain _ | fuel := fuel
  · omega
  · have noGroup : Token.char? '(' (numeral.chars ++ rest) = none := by
      obtain ⟨c, found, begins⟩ := numeral.first rest
      apply Token.char?_eq_none
      rw [found]
      rintro ⟨⟩
      revert begins
      decide
    rw [List.append_assoc, operand, Token.char?_blanks blank, noGroup, Token.digits?_blanks blank,
      numeral.digits? before]
    rfl

theorem named (name : Name) : Reads vars (.named name) := by
  intro fuel s rest spaced before enough
  have length := Term.length_pos _ spaced
  obtain ⟨blanks, blank, rfl⟩ := spaced.one
  obtain _ | fuel := fuel
  · omega
  · rw [List.append_assoc, operand, Token.char?_blanks blank, name.no_group,
      Token.digits?_blanks blank, name.digits?_eq_none, Token.name?_blanks blank, name.name? before]
    dsimp only
    rw [number_eq]
    rfl

theorem whole {term : Term .sum} (reads : Reads vars term) {fuel : Nat} {s rest : List Char}
    (spaced : Spaced term.tokens s) (before : Before afterSum rest) (enough : 4 * s.length ≤ fuel) :
    sum vars fuel (s ++ rest) = (do return (← term.value vars, rest)) := by
  have length := term.length_pos spaced
  obtain ⟨left, fuel_le, eq⟩ := reads fuel s rest spaced (before.mono (by decide)) enough
  rw [eq]
  exact congrArg (term.value vars >>= ·) (funext fun x => sumFrom_end before (by omega) x)

theorem group {inner : Term .sum} (reads : Reads vars inner) : Reads vars (.group inner) := by
  intro fuel s rest spaced before enough
  obtain ⟨blanks, body, blanks', blank, blank', rfl, inside⟩ := spaced.enclosed
  simp only [List.length_append, List.length_cons, List.length_nil] at enough
  obtain _ | fuel := fuel
  · omega
  · have closes : Before afterSum (blanks' ++ ')' :: rest) :=
      before_token blank' (by decide) (by decide) rest
    have whole : sum vars fuel (body ++ (blanks' ++ ')' :: rest)) = _ :=
      reads.whole inside closes (by omega)
    have close := Token.char?_token (c := ')') blank' (by decide) rest
    simp only [List.append_assoc, List.cons_append, List.nil_append]
    rw [operand, Token.char?_token blank (by decide)]
    dsimp only
    rw [whole, Term.value]
    cases inner.value vars with
    | error fault => rfl
    | ok x => simp only [bind, Except.bind, pure, Except.pure, close]

theorem plain {inner : Term .operand} (reads : Reads vars inner) : Reads vars (.plain inner) := by
  intro fuel s rest spaced before enough
  have length := inner.length_pos spaced
  obtain _ | fuel := fuel
  · omega
  · obtain ⟨c, found, begins⟩ := inner.first spaced rest
    have noSign (sign : Sign) : Token.char? sign.char (s ++ rest) = none := by
      apply Token.char?_eq_none
      rw [found]
      rintro ⟨⟩
      cases sign <;> revert begins <;> decide
    have noMinus : Token.char? '-' (s ++ rest) = none := noSign .minus
    have noPlus : Token.char? '+' (s ++ rest) = none := noSign .plus
    rw [Expression.signed, noMinus, noPlus]
    exact reads fuel s rest spaced before (by omega)

theorem signed {sign : Sign} {inner : Term .signed} (reads : Reads vars inner) :
    Reads vars (.signed sign inner) := by
  intro fuel s rest spaced before enough
  obtain ⟨blanks, tail, blank, rfl, spaced⟩ := spaced
  simp only [List.length_append, List.length_cons, List.length_nil] at enough
  obtain _ | fuel := fuel
  · omega
  · simp only [List.append_assoc, List.cons_append, List.nil_append]
    rw [signed_sign blank, reads fuel tail rest spaced before (by omega), Term.value]
    cases inner.value vars <;> rfl

theorem factor {inner : Term .signed} (reads : Reads vars inner) : Reads vars (.factor inner) := by
  intro fuel s rest spaced before enough
  have length := inner.length_pos spaced
  obtain _ | fuel := fuel
  · omega
  · refine ⟨fuel, by omega, ?_⟩
    rw [product, reads fuel s rest spaced before (by omega), Term.value]
    cases inner.value vars <;> rfl

theorem scaled {scaling : Scaling} {left : Term .product} {right : Term .signed}
    (reads : Reads vars left) (reads' : Reads vars right) :
    Reads vars (.scaled scaling left right) := by
  intro fuel s rest spaced before enough
  obtain ⟨front, blanks, back, blank, rfl, first, second⟩ := spaced.between
  have length := left.length_pos first
  simp only [List.length_append, List.length_cons, List.length_nil] at enough ⊢
  have operator : Before afterOperand (blanks ++ scaling.char :: (back ++ rest)) :=
    before_token blank scaling.visible (by cases scaling <;> decide) _
  obtain ⟨middle, fuel_le, eq⟩ := reads fuel front _ first operator (by omega)
  obtain _ | middle := middle
  · omega
  · refine ⟨middle, by omega, ?_⟩
    simp only [List.append_assoc, List.cons_append, List.nil_append]
    rw [eq, Term.value]
    cases left.value vars with
    | error fault => rfl
    | ok x =>
        change productFrom vars (middle + 1) x _ = _
        rw [productFrom_scaled blank, reads' middle back rest second before (by omega)]
        cases right.value vars <;> rfl

theorem summand {inner : Term .product} (reads : Reads vars inner) :
    Reads vars (.summand inner) := by
  intro fuel s rest spaced before enough
  have length := inner.length_pos spaced
  obtain _ | fuel := fuel
  · omega
  · obtain ⟨left, fuel_le, eq⟩ := reads fuel s rest spaced (before.mono (by decide)) (by omega)
    refine ⟨fuel, by omega, ?_⟩
    rw [sum, eq, Term.value]
    cases inner.value vars with
    | error fault => rfl
    | ok x =>
        change (productFrom vars left x rest >>= _) = _
        rw [productFrom_end before (by omega)]
        rfl

theorem added {sign : Sign} {left : Term .sum} {right : Term .product}
    (reads : Reads vars left) (reads' : Reads vars right) :
    Reads vars (.added sign left right) := by
  intro fuel s rest spaced before enough
  obtain ⟨front, blanks, back, blank, rfl, first, second⟩ := spaced.between
  have length := left.length_pos first
  have length' := right.length_pos second
  simp only [List.length_append, List.length_cons, List.length_nil] at enough ⊢
  have operator : Before afterProduct (blanks ++ sign.char :: (back ++ rest)) :=
    before_token blank sign.visible (by cases sign <;> decide) _
  obtain ⟨middle, fuel_le, eq⟩ := reads fuel front _ first operator (by omega)
  obtain _ | middle := middle
  · omega
  · obtain ⟨rest', middle_le, eq'⟩ :=
      reads' middle back rest second (before.mono (by decide)) (by omega)
    refine ⟨middle, by omega, ?_⟩
    simp only [List.append_assoc, List.cons_append, List.nil_append]
    rw [eq, Term.value]
    cases left.value vars with
    | error fault => rfl
    | ok x =>
        change sumFrom vars (middle + 1) x _ = _
        rw [sumFrom_added blank, eq']
        cases right.value vars with
        | error fault => rfl
        | ok y =>
            change (productFrom vars rest' y rest >>= _) = _
            rw [productFrom_end before (by omega)]
            rfl

end Reads

theorem Term.reads (vars : Variables) {level : Level} (term : Term level) : Reads vars term := by
  induction term with
  | number numeral => exact Reads.number numeral
  | named name => exact Reads.named name
  | group inner ih => exact Reads.group ih
  | plain inner ih => exact Reads.plain ih
  | signed sign inner ih => exact Reads.signed ih
  | factor inner ih => exact Reads.factor ih
  | scaled scaling left right ih ih' => exact Reads.scaled ih ih'
  | summand inner ih => exact Reads.summand ih
  | added sign left right ih ih' => exact Reads.added ih ih'

end Expression

end Easel
