import Easel.Proofs.Expression.Terms
import Easel.Proofs.Outcomes

/-! Arithmetic has the value of the term that it spells, and what spells no term has none.

The readers come to the value of a term wherever one stands (`Term.reads`). For the other direction,
whatever they pass is a term: a step of a reader adds one rule of the grammar to what was read
before it. -/

namespace Easel.Expression

open Text

variable {vars : Variables} {s : List Char}

/-! ### Numerals -/

namespace Numeral

def value (numeral : Numeral) : Float :=
  Decimal.nearest (Decimal.digitsValue (numeral.whole ++ numeral.fraction.getD []))
    (0 - (numeral.fraction.getD []).length)

theorem chars_numeric (numeral : Numeral) : numeral.chars.all Token.isNumeric = true := by
  obtain ⟨whole, fraction, wholeDigits, fractionDigits, -⟩ := numeral
  have numeric {digits : List Char} (all : digits.all Decimal.isDigit = true) :
      digits.all Token.isNumeric = true := by
    rw [List.all_eq_true] at all ⊢
    intro c member
    rw [Token.isNumeric, all c member]
    rfl
  cases fraction with
  | none => exact numeric wholeDigits
  | some fraction =>
      have behind := numeric fractionDigits
      rw [Option.getD_some] at behind
      rw [chars, List.all_append, List.all_cons, numeric wholeDigits, behind]
      rfl

theorem fixed?_chars (numeral : Numeral) : Decimal.fixed? numeral.chars =
    some (Decimal.digitsValue (numeral.whole ++ numeral.fraction.getD []),
      (numeral.fraction.getD []).length) := by
  obtain ⟨whole, fraction, wholeDigits, fractionDigits, someDigit⟩ := numeral
  unfold Decimal.fixed?
  cases fraction with
  | none =>
      have ends (c : Char) (next : ([] : List Char).head? = some c) :
          Decimal.isDigit c = false := by cases next
      obtain ⟨take, drop⟩ := takeWhile_run wholeDigits ends
      rw [List.append_nil] at take drop
      have filled : whole.isEmpty = false := by simpa using someDigit
      simp [chars, take, drop, filled]
  | some fraction =>
      have point (c : Char) (next : ('.' :: fraction).head? = some c) :
          Decimal.isDigit c = false := by
        cases next
        decide
      obtain ⟨take, drop⟩ := takeWhile_run wholeDigits point
      have behind : fraction.all Decimal.isDigit = true := fractionDigits
      have filled : (whole.isEmpty && fraction.isEmpty) = false := by
        simpa [imp_iff_not_or] using someDigit
      simp [chars, take, drop, behind, filled]

end Numeral

theorem exists_numeral {read : Nat × Nat} (found : Decimal.fixed? s = some read) :
    ∃ numeral : Numeral, numeral.chars = s := by
  have whole := List.takeWhile_append_dropWhile (p := Decimal.isDigit) (l := s)
  unfold Decimal.fixed? at found
  dsimp only at found
  split at found
  · rename_i ends
    split at found
    · cases found
    · rename_i filled
      rw [ends, List.append_nil] at whole
      exact ⟨⟨_, none, List.all_takeWhile, rfl, .inl (by simpa using filled)⟩, whole⟩
  · rename_i fraction point
    split at found
    · rename_i digits
      rw [Bool.and_eq_true, Bool.not_eq_true', Bool.and_eq_false_iff] at digits
      refine ⟨⟨s.takeWhile Decimal.isDigit, some fraction, List.all_takeWhile, digits.1, ?_⟩, ?_⟩
      · simpa using digits.2
      · rw [point] at whole
        exact whole
    · cases found
  · cases found

theorem real?_numeric (numeric : s.all Token.isNumeric = true) :
    Decimal.real? s =
      (Decimal.fixed? s).map fun read => Decimal.nearest read.1 (0 - read.2) := by
  have member := List.all_eq_true.mp numeric
  have noLetter {c : Char} (inside : c ∈ s) : isNameStart c = false := by
    have here := member c inside
    rw [Token.isNumeric, Bool.or_eq_true, beq_iff_eq] at here
    rcases here with digit | rfl
    · exact isNameStart_of_isDigit digit
    · decide
  have noWord {word : List Char} {c : Char} (letter : isNameStart c = true) (inside : c ∈ word) :
      lower s ≠ word := by
    rintro rfl
    obtain ⟨d, found, rfl⟩ := List.mem_map.mp inside
    have none := noLetter found
    rw [isNameStart_of_toLower letter] at none
    cases none
  have noSign : Decimal.sign s = (false, s) := by
    unfold Decimal.sign
    split
    · exact absurd (member '-' (by simp)) (by decide)
    · exact absurd (member '+' (by simp)) (by decide)
    · rfl
  have noPower (c : Char) (inside : c ∈ s) : (c != 'e' && c != 'E') = true := by
    rw [Bool.and_eq_true, bne_iff_ne, bne_iff_ne]
    constructor <;> rintro rfl <;> cases noLetter inside
  have plain : Decimal.magnitude? s =
      (Decimal.fixed? s).map fun read => Decimal.nearest read.1 (0 - read.2) := by
    have noInf : lower s ≠ "inf".toList := noWord (c := 'i') (by decide) (by decide)
    have noInfinity : lower s ≠ "infinity".toList := noWord (c := 'i') (by decide) (by decide)
    have noNan : lower s ≠ "nan".toList := noWord (c := 'n') (by decide) (by decide)
    unfold Decimal.magnitude?
    simp only [noInf, noInfinity, noNan, decide_false, Bool.or_self, Bool.false_eq_true, ↓reduceIte,
      List.takeWhile_eq_self_iff.mpr noPower, List.dropWhile_eq_nil_iff.mpr noPower]
    cases Decimal.fixed? s <;> rfl
  unfold Decimal.real?
  rw [noSign]
  dsimp only
  rw [plain, Option.map_map]
  rfl

theorem real?_eq_some {x : Float} (numeric : s.all Token.isNumeric = true) :
    Decimal.real? s = some x ↔ ∃ numeral : Numeral, numeral.chars = s ∧ numeral.value = x := by
  rw [real?_numeric numeric, Option.map_eq_some_iff]
  constructor
  · rintro ⟨read, found, rfl⟩
    obtain ⟨numeral, rfl⟩ := exists_numeral found
    refine ⟨numeral, rfl, ?_⟩
    rw [numeral.fixed?_chars] at found
    cases found
    rfl
  · rintro ⟨numeral, rfl, rfl⟩
    exact ⟨_, numeral.fixed?_chars, rfl⟩

theorem value_eq_ok {x : Float} (numeric : s.all Token.isNumeric = true) :
    Token.value s = .ok x ↔ ∃ numeral : Numeral, numeral.chars = s ∧ numeral.value = x := by
  rw [← real?_eq_some numeric]
  unfold Token.value
  cases Decimal.real? s <;> simp

theorem Numeral.value_chars (numeral : Numeral) : Token.value numeral.chars = .ok numeral.value :=
  (value_eq_ok numeral.chars_numeric).mpr ⟨numeral, rfl, rfl⟩

theorem literal?_eq_some {x : Float} :
    literal? s = some x ↔ ∃ numeral : Numeral, numeral.chars = s ∧ numeral.value = x := by
  unfold literal?
  split
  · rename_i numeric
    exact real?_eq_some numeric
  · rename_i other
    constructor
    · nofun
    · rintro ⟨numeral, rfl, -⟩
      exact absurd numeral.chars_numeric other

/-! ### Faults of terms -/

/-- The name can not be looked up as a number: nothing has it, or an array has. -/
inductive Unreadable (vars : Variables) (name : String) : Error → Prop
  | unknown (absent : vars.get? name = none) : Unreadable vars name (.unknown name)
  | array {grid : Grid} {scope : Scope} (found : vars.get? name = some ⟨.array grid, scope⟩) :
      Unreadable vars name (.arrayAsNumber name)

theorem numberOf_eq_error {name : String} {fault : Error} :
    vars.numberOf name = .error fault ↔ Unreadable vars name fault := by
  unfold Variables.numberOf
  constructor
  · intro failed
    cases found : vars.get? name with
    | none =>
        rw [found] at failed
        cases failed
        exact .unknown found
    | some entry =>
        rw [found] at failed
        obtain ⟨value, scope⟩ := entry
        cases value with
        | int n => cases failed
        | real x => cases failed
        | boolean b => cases b <;> cases failed
        | array grid =>
            cases failed
            exact .array found
  · intro unreadable
    cases unreadable with
    | unknown absent => rw [absent]
    | array found => rw [found]

/-- The fault of a term that divides by zero or in which a name can not be looked up. -/
def Failing (vars : Variables) (names : List Name) (fault : Error) : Prop :=
  fault = .divisionByZero ∨ ∃ name ∈ names, Unreadable vars (String.ofList name.chars) fault

theorem Failing.mono {names more : List Name} {fault : Error} (failing : Failing vars names fault)
    (subset : names ⊆ more) : Failing vars more fault :=
  failing.imp_right fun ⟨name, member, failed⟩ => ⟨name, subset member, failed⟩

theorem Term.value_faults {level : Level} (term : Term level) :
    Faults (Failing vars term.names) (term.value vars) := by
  induction term with
  | number numeral =>
      rw [value, numeral.value_chars]
      exact .ok
  | named name =>
      intro fault failed
      exact .inr ⟨name, List.mem_singleton.mpr rfl, numberOf_eq_error.mp failed⟩
  | group inner ih => exact ih
  | plain inner ih => exact ih
  | factor inner ih => exact ih
  | summand inner ih => exact ih
  | signed sign inner ih => exact .bind ih fun _ _ => .pure
  | scaled scaling left right ih ih' =>
      refine .bind (ih.mono fun _ failing => failing.mono (List.subset_append_left _ _)) fun x _ => ?_
      refine .bind (ih'.mono fun _ failing => failing.mono (List.subset_append_right _ _)) fun y _ => ?_
      cases scaling with
      | times => exact .ok
      | divide =>
          rw [Scaling.combine]
          split
          · exact .error (.inl rfl)
          · exact .ok
  | added sign left right ih ih' =>
      refine .bind (ih.mono fun _ failing => failing.mono (List.subset_append_left _ _)) fun x _ => ?_
      refine .bind (ih'.mono fun _ failing => failing.mono (List.subset_append_right _ _)) fun y _ => ?_
      exact .pure

/-! ### What the readers pass is a term -/

/-- What was read spells a term of the value that was found. -/
def Spells (vars : Variables) (level : Level) (s : List Char) (reading : Reading Float) : Prop :=
  ∃ (term : Term level) (front : List Char),
    s = front ++ reading.2 ∧ Spaced term.tokens front ∧ term.value vars = .ok reading.1

namespace Spells

variable {rest : List Char} {x y : Float} {reading : Reading Float}

theorem number {digits : List Char} (found : Token.digits? s = some (digits, rest))
    (value : Token.value digits = .ok x) : Spells vars .operand s (x, rest) := by
  obtain ⟨numeric, front, rfl, spaced⟩ := Token.digits?_eq_some found
  obtain ⟨numeral, rfl, rfl⟩ := (value_eq_ok numeric).mp value
  exact ⟨.number numeral, front, rfl, spaced, value⟩

theorem named {name : List Char} (found : Token.name? s = some (name, rest))
    (value : Expression.number vars (String.ofList name) = .ok x) :
    Spells vars .operand s (x, rest) := by
  rw [number_eq] at value
  obtain ⟨isName, front, rfl, spaced⟩ := Token.name?_eq_some found
  exact ⟨.named ⟨name, isName⟩, front, rfl, spaced, value⟩

theorem group {inner middle : List Char} (opened : Token.char? '(' s = some inner)
    (inside : Spells vars .sum inner (x, middle)) (closed : Token.char? ')' middle = some rest) :
    Spells vars .operand s (x, rest) := by
  obtain ⟨first, rfl, before⟩ := Token.char?_eq_some opened
  obtain ⟨term, front, rfl, spaced, value⟩ := inside
  obtain ⟨last, rfl, behind⟩ := Token.char?_eq_some closed
  refine ⟨.group term, first ++ (front ++ last), ?_, before.join (spaced.join behind), value⟩
  simp only [List.append_assoc]

theorem plain (inner : Spells vars .operand s reading) : Spells vars .signed s reading := by
  obtain ⟨term, front, whole, spaced, value⟩ := inner
  exact ⟨.plain term, front, whole, spaced, value⟩

theorem signed (sign : Sign) {tail : List Char} (found : Token.char? sign.char s = some tail)
    (inner : Spells vars .signed tail (x, rest)) : Spells vars .signed s (sign.apply x, rest) := by
  obtain ⟨first, rfl, before⟩ := Token.char?_eq_some found
  obtain ⟨term, front, rfl, spaced, value⟩ := inner
  refine ⟨.signed sign term, first ++ front, ?_, before.join spaced, ?_⟩
  · rw [List.append_assoc]
  · rw [Term.value, value]
    rfl

theorem factor (inner : Spells vars .signed s reading) : Spells vars .product s reading := by
  obtain ⟨term, front, whole, spaced, value⟩ := inner
  exact ⟨.factor term, front, whole, spaced, value⟩

theorem scaled (scaling : Scaling) {middle tail : List Char} {z : Float}
    (left : Spells vars .product s (x, middle))
    (found : Token.char? scaling.char middle = some tail)
    (right : Spells vars .signed tail (y, rest)) (combined : scaling.combine x y = .ok z) :
    Spells vars .product s (z, rest) := by
  obtain ⟨term, front, rfl, spaced, value⟩ := left
  obtain ⟨sign, rfl, between⟩ := Token.char?_eq_some found
  obtain ⟨term', back, rfl, spaced', value'⟩ := right
  refine ⟨.scaled scaling term term', front ++ (sign ++ back), ?_,
    spaced.join (between.join spaced'), ?_⟩
  · simp only [List.append_assoc]
  · rw [Term.value, value, value']
    exact combined

theorem summand (inner : Spells vars .product s reading) : Spells vars .sum s reading := by
  obtain ⟨term, front, whole, spaced, value⟩ := inner
  exact ⟨.summand term, front, whole, spaced, value⟩

theorem added (sign : Sign) {middle tail : List Char} (left : Spells vars .sum s (x, middle))
    (found : Token.char? sign.char middle = some tail)
    (right : Spells vars .product tail (y, rest)) :
    Spells vars .sum s (sign.combine x y, rest) := by
  obtain ⟨term, front, rfl, spaced, value⟩ := left
  obtain ⟨token, rfl, between⟩ := Token.char?_eq_some found
  obtain ⟨term', back, rfl, spaced', value'⟩ := right
  refine ⟨.added sign term term', front ++ (token ++ back), ?_,
    spaced.join (between.join spaced'), ?_⟩
  · simp only [List.append_assoc]
  · rw [Term.value, value, value']
    rfl

end Spells

/-- What all readers of arithmetic pass with some fuel. Those that go on from a value add to what
was read up to it. -/
structure Sound (vars : Variables) (fuel : Nat) : Prop where
  sum : ∀ s, Gives (Spells vars .sum s) (sum vars fuel s)
  sumFrom : ∀ s x rest, Spells vars .sum s (x, rest) →
    Gives (Spells vars .sum s) (sumFrom vars fuel x rest)
  product : ∀ s, Gives (Spells vars .product s) (product vars fuel s)
  productFrom : ∀ s x rest, Spells vars .product s (x, rest) →
    Gives (Spells vars .product s) (productFrom vars fuel x rest)
  signed : ∀ s, Gives (Spells vars .signed s) (signed vars fuel s)
  operand : ∀ s, Gives (Spells vars .operand s) (operand vars fuel s)

theorem sound_zero : Sound vars 0 := by
  constructor <;> intros <;> exact .error

theorem sound_succ {fuel : Nat} (inner : Sound vars fuel) : Sound vars (fuel + 1) where
  sum s := by
    refine .andThen (inner.product s) ?_
    rintro ⟨x, rest⟩ read
    exact inner.sumFrom s x rest read.summand
  sumFrom s x rest left := by
    unfold Expression.sumFrom
    split
    · rename_i tail found
      refine .andThen (inner.product tail) ?_
      rintro ⟨y, rest⟩ right
      exact inner.sumFrom s _ rest (left.added .plus found right)
    · split
      · rename_i tail found
        refine .andThen (inner.product tail) ?_
        rintro ⟨y, rest⟩ right
        exact inner.sumFrom s _ rest (left.added .minus found right)
      · exact .ok left
  product s := by
    refine .andThen (inner.signed s) ?_
    rintro ⟨x, rest⟩ read
    exact inner.productFrom s x rest read.factor
  productFrom s x rest left := by
    unfold Expression.productFrom
    split
    · rename_i tail found
      refine .andThen (inner.signed tail) ?_
      rintro ⟨y, rest⟩ right
      exact inner.productFrom s _ rest (left.scaled .times found right rfl)
    · split
      · rename_i tail found
        refine .andThen (inner.signed tail) ?_
        rintro ⟨y, rest⟩ right
        dsimp only
        split
        · exact .error
        · rename_i other
          exact inner.productFrom s _ rest (left.scaled .divide found right (if_neg other))
      · exact .ok left
  signed s := by
    unfold Expression.signed
    split
    · rename_i tail found
      refine .andThen (inner.signed tail) ?_
      rintro ⟨x, rest⟩ read
      exact .pure (read.signed .minus found)
    · split
      · rename_i tail found
        intro reading result
        exact (inner.signed tail reading result).signed .plus found
      · intro reading result
        exact (inner.operand s reading result).plain
  operand s := by
    unfold Expression.operand
    split
    · rename_i tail found
      refine .andThen (inner.sum tail) ?_
      rintro ⟨x, rest⟩ read
      dsimp only
      split
      · rename_i rest closed
        exact .pure (.group found read closed)
      · exact .error
    · split
      · rename_i digits rest found
        exact .andThen (.itself _) fun x value => .pure (.number found value)
      · split
        · rename_i name rest found
          exact .andThen (.itself _) fun x value => .pure (.named found value)
        · exact .error

theorem sound (vars : Variables) (fuel : Nat) : Sound vars fuel := by
  induction fuel with
  | zero => exact sound_zero
  | succ fuel ih => exact sound_succ ih

/-! ### Values -/

theorem trimmed_of_numeric (numeric : s.all Token.isNumeric = true) : Trimmed s := by
  apply trimmed_of_visible
  intro c member
  have numeric := List.all_eq_true.mp numeric c member
  rw [Token.isNumeric, Bool.or_eq_true, beq_iff_eq] at numeric
  rcases numeric with digit | rfl
  · exact visible_of_isDigit digit
  · decide

theorem Numeral.solid (numeral : Numeral) : numeral.chars ≠ [] ∧ Trimmed numeral.chars := by
  obtain ⟨c, tail, chars, -⟩ := numeral.begins
  exact ⟨by simp [chars], trimmed_of_numeric numeral.chars_numeric⟩

theorem Name.solid (name : Name) : name.chars ≠ [] ∧ Trimmed name.chars := by
  obtain ⟨c, tail, chars, start, others⟩ := name.begins
  rw [chars]
  refine ⟨List.cons_ne_nil c tail, trimmed_of_visible ?_⟩
  intro d member
  rcases List.mem_cons.mp member with rfl | member
  · exact visible_of_isNameStart start
  · exact visible_of_isNameChar (List.all_eq_true.mp others d member)

theorem Term.solid {level : Level} (term : Term level) :
    ∀ token ∈ term.tokens, token ≠ [] ∧ Trimmed token := by
  have sign {c : Char} (visible : isBlank c = false) : [c] ≠ [] ∧ Trimmed [c] := by
    refine ⟨List.cons_ne_nil c [], trimmed_of_visible ?_⟩
    simpa using visible
  induction term with
  | number numeral => exact List.forall_mem_singleton.mpr numeral.solid
  | named name => exact List.forall_mem_singleton.mpr name.solid
  | group inner ih =>
      rw [tokens, List.forall_mem_cons, List.forall_mem_append, List.forall_mem_singleton]
      exact ⟨sign (by decide), ih, sign (by decide)⟩
  | plain inner ih => exact ih
  | factor inner ih => exact ih
  | summand inner ih => exact ih
  | signed kind inner ih => exact List.forall_mem_cons.mpr ⟨sign kind.visible, ih⟩
  | scaled scaling left right ih ih' =>
      rw [tokens, List.forall_mem_append, List.forall_mem_cons]
      exact ⟨ih, sign scaling.visible, ih'⟩
  | added kind left right ih ih' =>
      rw [tokens, List.forall_mem_append, List.forall_mem_cons]
      exact ⟨ih, sign kind.visible, ih'⟩

def Term.IsNumeral (term : Term .sum) : Prop :=
  ∃ numeral, term = .summand (.factor (.plain (.number numeral)))

theorem Term.literal?_eq_none (term : Term .sum) (other : ¬ term.IsNumeral)
    (spaced : Spaced term.tokens s) : literal? s = none := by
  unfold literal?
  refine if_neg fun numeric => ?_
  have member := List.all_eq_true.mp numeric
  have alien (token : List Char) (c : Char) (listed : token ∈ term.tokens) (inside : c ∈ token)
      (strange : Token.isNumeric c = false) : False := by
    have plain : Token.isNumeric c = true := member c (spaced.mem listed inside)
    rw [strange] at plain
    cases plain
  cases term with
  | added sign left right =>
      exact alien [sign.char] sign.char (by simp [tokens]) (List.mem_singleton.mpr rfl)
        (by cases sign <;> decide)
  | summand inner => cases inner with
    | scaled scaling left right =>
        exact alien [scaling.char] scaling.char (by simp [tokens]) (List.mem_singleton.mpr rfl)
          (by cases scaling <;> decide)
    | factor inner => cases inner with
      | signed sign inner =>
          exact alien [sign.char] sign.char (by simp [tokens]) (List.mem_singleton.mpr rfl)
            (by cases sign <;> decide)
      | plain inner => cases inner with
        | number numeral => exact other ⟨numeral, rfl⟩
        | group inner =>
            exact alien ['('] '(' (by simp [tokens]) (List.mem_singleton.mpr rfl) (by decide)
        | named name =>
            obtain ⟨c, tail, chars, start, -⟩ := name.begins
            refine alien name.chars c (by simp [tokens]) (by simp [chars]) ?_
            rw [Token.isNumeric, Bool.or_eq_false_iff, beq_eq_false_iff_ne]
            constructor
            · cases digit : Decimal.isDigit c with
              | false => rfl
              | true =>
                  rw [isNameStart_of_isDigit digit] at start
                  cases start
            · rintro rfl
              cases start

theorem real_eq (term : Term .sum) (other : ¬ term.IsNumeral) (spaced : Spaced term.tokens s)
    {blanks : List Char} (blank : blanks.all isBlank = true) :
    real vars (s ++ blanks) = (do finite (← term.value vars)) := by
  have trimmed : Spaced term.tokens (trim (s ++ blanks)) := by
    rw [trim_append_blanks s blank]
    exact spaced.trim term.solid
  have filled : (trim (s ++ blanks)).isEmpty = false := by
    have length := term.length_pos trimmed
    rw [List.isEmpty_eq_false_iff]
    exact List.ne_nil_of_length_pos length
  have read : sum vars (4 * (trim (s ++ blanks)).length + 4) (trim (s ++ blanks) ++ []) = _ :=
    (term.reads vars).whole trimmed (before_blanks rfl _) (by omega)
  rw [List.append_nil] at read
  unfold real
  dsimp only
  rw [filled, if_neg Bool.false_ne_true, term.literal?_eq_none other trimmed]
  dsimp only
  rw [read]
  cases term.value vars <;> rfl

theorem exists_term_of_real {x : Float} (found : real vars s = .ok x) :
    ∃ term : Term .sum, Spaced term.tokens (trim s) ∧ term.value vars = .ok x ∧
      (x.isFinite = true ∨ term.IsNumeral) := by
  unfold real at found
  dsimp only at found
  split at found
  · cases found
  · split at found
    · rename_i literal
      cases found
      obtain ⟨numeral, chars, rfl⟩ := literal?_eq_some.mp literal
      refine ⟨.summand (.factor (.plain (.number numeral))), ?_, numeral.value_chars,
        .inr ⟨numeral, rfl⟩⟩
      have bare : Spaced [numeral.chars] ([] ++ numeral.chars) := .single rfl numeral.chars
      rw [← chars]
      exact bare
    · obtain ⟨⟨y, rest⟩, read, found⟩ := bind_eq_ok.mp found
      obtain ⟨z, whole, found⟩ := bind_eq_ok.mp found
      obtain ⟨term, front, cut, spaced, value⟩ := (sound vars _).sum _ _ read
      have ends : (trim rest).isEmpty = true ∧ y = z := by
        rw [complete] at whole
        split at whole
        · rename_i empty
          cases whole
          exact ⟨empty, rfl⟩
        · cases whole
      have fine : z.isFinite = true ∧ z = x := by
        rw [finite] at found
        split at found
        · rename_i fine
          cases found
          exact ⟨fine, rfl⟩
        · cases found
      obtain ⟨fine, rfl⟩ := fine
      obtain ⟨empty, rfl⟩ := ends
      have trimmed := trimmed_trim s
      rw [cut] at trimmed
      have nothing := trimmed.no_blanks (all_blank_of_trim (List.isEmpty_iff.mp empty))
      dsimp only at cut nothing
      rw [nothing, List.append_nil] at cut
      rw [cut]
      exact ⟨term, spaced, value, .inl fine⟩

/-- Arithmetic that spells a term has its value, unless that is not finite, and otherwise its first
fault, whatever the blanks between the tokens are. Just the texts that spell a term have a value. -/
theorem real_evaluates_term (vars : Variables) :
    (∀ (term : Term .sum) (s blanks : List Char), ¬ term.IsNumeral → Spaced term.tokens s →
      blanks.all isBlank = true →
        (∀ fault, term.value vars = .error fault →
          real vars (s ++ blanks) = .error fault ∧ Failing vars term.names fault) ∧
        ∀ x, term.value vars = .ok x →
          real vars (s ++ blanks) = if x.isFinite then .ok x else .error .overflow) ∧
    ∀ (s : List Char) (x : Float), real vars s = .ok x →
      ∃ term : Term .sum, Spaced term.tokens (trim s) ∧ term.value vars = .ok x ∧
        (x.isFinite = true ∨ term.IsNumeral) := by
  refine ⟨?_, fun s x => exists_term_of_real⟩
  intro term s blanks other spaced blank
  have eq : real vars (s ++ blanks) = _ := real_eq term other spaced blank
  refine ⟨?_, ?_⟩
  · intro fault failed
    rw [failed] at eq
    exact ⟨eq, term.value_faults fault failed⟩
  · intro x found
    rw [found] at eq
    exact eq

def quotient : Term .sum :=
  .summand (.scaled .divide
    (.factor (.signed .minus (.plain (.named ⟨"x".toList, by decide⟩))))
    (.plain (.group (.added .minus
      (.summand (.factor (.plain (.number ⟨"2".toList, none, by decide, by decide, by decide⟩))))
      (.factor (.plain
        (.number ⟨[], some "5".toList, by decide, by decide, by decide⟩)))))))

def fives : Variables := ⟨Std.ExtTreeMap.empty.insert "x" ⟨.int 5, .global⟩⟩

theorem real_evaluates_quotient :
    real fives (" -x/( 2 -.5)".toList ++ ['\t']) = .ok (-5 / (2 - 0.5)) ∧
      real .empty (" -x/( 2 -.5)".toList ++ ['\t']) = .error (.unknown "x") ∧
      ∃ term : Term .sum, Spaced term.tokens (trim " 0.5 ".toList) ∧ term.value fives = .ok 0.5 := by
  have other : ¬ quotient.IsNumeral := nofun
  have spaced : Spaced quotient.tokens " -x/( 2 -.5)".toList :=
    ⟨[' '], _, rfl, rfl, [], _, rfl, rfl, [], _, rfl, rfl, [], _, rfl, rfl, [' '], _, rfl, rfl,
      [' '], _, rfl, rfl, [], _, rfl, rfl, [], _, rfl, rfl, rfl⟩
  refine ⟨?_, ?_, ?_⟩
  · have found : quotient.value fives = .ok (-5 / (2 - 0.5)) := by rfl
    have value := ((real_evaluates_term fives).1 quotient _ ['\t'] other spaced rfl).2 _ found
    rw [value]
    exact if_pos (by decide +kernel)
  · have failed : quotient.value .empty = .error (.unknown "x") := by rfl
    exact (((real_evaluates_term .empty).1 quotient _ ['\t'] other spaced rfl).1 _ failed).1
  · have found : real fives " 0.5 ".toList = .ok 0.5 := by rfl
    obtain ⟨term, spaced, value, -⟩ := (real_evaluates_term fives).2 _ _ found
    exact ⟨term, spaced, value⟩

end Easel.Expression
