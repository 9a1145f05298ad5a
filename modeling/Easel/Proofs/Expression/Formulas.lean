import Easel.Expression.Condition
import Easel.Proofs.Expression.Terms

/-! Formulas: truth values, comparisons of terms and terms alone, joined by `!`, `&&` and `||`. A
formula that holds a term without a value has none itself, whatever the rest of it says.

Parentheses may enclose a term or a formula, and the readers find out by trying. It makes no
difference: what is read as a formula and then again as a term has the same value both times, and
what is no term is not taken for one. -/

namespace Easel.Expression

open Text

/-! ### Words -/

def truthWord : Bool → List Char
  | true => "true".toList
  | false => "false".toList

theorem letters_of_sameWord {s : List Char} {truth : Bool}
    (same : sameWord s (truthWord truth) = true) : ∀ c ∈ s, isNameStart c = true := by
  have equal : lower s = lower (truthWord truth) := beq_iff_eq.mp same
  have letters : (lower (truthWord truth)).all isNameStart = true := by cases truth <;> decide
  intro c member
  apply isNameStart_of_toLower
  apply List.all_eq_true.mp letters
  rw [← equal]
  exact List.mem_map_of_mem member

/-- The name is a truth value, in any letter case. -/
def Name.IsTruth (name : Name) : Prop := ∃ truth, sameWord name.chars (truthWord truth) = true

theorem Name.word? (name : Name) {rest : List Char} (before : Before afterOperand rest)
    (truth : Bool) : Token.word? (truthWord truth) (name.chars ++ rest) =
      if sameWord name.chars (truthWord truth) then some rest else none := by
  obtain ⟨c, tail, chars, start, others⟩ := name.begins
  have named : isNameChar c = true := isNameChar_iff.mpr (.inl start)
  have all : name.chars.all isNameChar = true := by
    rw [chars, List.all_cons, named, others]
    rfl
  unfold Token.word?
  rw [name.trimStart_chars]
  by_cases same : sameWord name.chars (truthWord truth) = true
  · have length := length_of_sameWord same
    have ends : rest.head?.any isNameChar = false := by
      cases next : rest.head? with
      | none => rfl
      | some d => exact (ends_of_before before next).1
    simp [← length, same, ends]
  · rw [if_neg same]
    apply if_neg
    intro read
    rw [Bool.and_eq_true] at read
    obtain ⟨same', ends⟩ := read
    -- What was read as the word is all of the name, since it ends where no name goes on.
    have noMore (d : Char)
        (next : ((name.chars ++ rest).drop (truthWord truth).length).head? = some d) :
        isNameChar d = false := by
      rw [next] at ends
      simpa using ends
    have letters : ((name.chars ++ rest).take (truthWord truth).length).all isNameChar = true := by
      rw [List.all_eq_true]
      intro d member
      exact isNameChar_iff.mpr (.inl (letters_of_sameWord same' d member))
    have piece := takeWhile_run letters noMore
    have whole := takeWhile_run all fun d next => (ends_of_before before next).1
    rw [List.take_append_drop] at piece
    rw [← piece.1, whole.1] at same'
    exact same same'

theorem word?_of_first {s : List Char} {c : Char} (found : first? s = some c)
    (other : isNameStart c = false) (truth : Bool) : Token.word? (truthWord truth) s = none := by
  apply if_neg
  intro read
  rw [Bool.and_eq_true] at read
  obtain ⟨tail, trimmed⟩ := List.head?_eq_some_iff.mp found
  have member : c ∈ (trimStart s).take (truthWord truth).length := by
    rw [trimmed]
    cases truth <;> exact List.mem_cons_self
  rw [letters_of_sameWord read.1 c member] at other
  cases other

/-! ### Formulas -/

structure Literal extends Name where
  truth : Bool
  spelled : sameWord chars (truthWord truth) = true

/-- How tightly the parts of a formula hold together, from loose to tight. -/
inductive Layer where
  | disjunction
  | conjunction
  | negation
  | atom

/-- Formulas by what holds their parts together. -/
inductive Formula : Layer → Type where
  | constant (literal : Literal) : Formula .atom
  | compared (comparison : Comparison) (left right : Term .sum) : Formula .atom
  | bare (term : Term .sum) : Formula .atom
  | group (inner : Formula .disjunction) : Formula .atom
  | plain (inner : Formula .atom) : Formula .negation
  | negated (inner : Formula .negation) : Formula .negation
  | conjunct (inner : Formula .negation) : Formula .conjunction
  | and (left right : Formula .conjunction) : Formula .conjunction
  | disjunct (inner : Formula .conjunction) : Formula .disjunction
  | or (left right : Formula .disjunction) : Formula .disjunction

def Comparison.sign : Comparison → List Char
  | atLeast => ['>', '=']
  | atMost => ['<', '=']
  | equal => ['=', '=']
  | unequal => ['!', '=']
  | greater => ['>']
  | less => ['<']

/-- How the numbers on both sides have to relate. -/
def Comparison.Relates : Comparison → Float → Float → Prop
  | atLeast, x, y => y ≤ x
  | atMost, x, y => x ≤ y
  | equal, x, y => (x == y) = true
  | unequal, x, y => ¬ (x == y) = true
  | greater, x, y => y < x
  | less, x, y => x < y

theorem Comparison.holds_iff (comparison : Comparison) (x y : Float) :
    comparison.holds x y = true ↔ comparison.Relates x y := by
  cases comparison with
  | unequal =>
      have negated : holds unequal x y = !(x == y) := rfl
      simp [negated, Relates]
  | _ => simp [holds, Relates]

/-- The number is further from zero than `2 ^ -52`. -/
def OffZero (x : Float) : Prop := 1 / 4503599627370496 < x.abs

theorem isTrue_iff (x : Float) : isTrue x = true ↔ OffZero x := by
  have same : epsilon = 1 / 4503599627370496 := by decide +kernel
  unfold isTrue OffZero
  rw [same, decide_eq_true_iff]

namespace Formula

def tokens : {layer : Layer} → Formula layer → List (List Char)
  | _, constant literal => [literal.chars]
  | _, compared comparison left right => left.tokens ++ comparison.sign :: right.tokens
  | _, bare term => term.tokens
  | _, group inner => ['('] :: (inner.tokens ++ [[')']])
  | _, plain inner | _, conjunct inner | _, disjunct inner => inner.tokens
  | _, negated inner => ['!'] :: inner.tokens
  | _, and left right => left.tokens ++ ['&', '&'] :: right.tokens
  | _, or left right => left.tokens ++ ['|', '|'] :: right.tokens

def leaves : {layer : Layer} → Formula layer → List (Term .sum)
  | _, constant _ => []
  | _, compared _ left right => [left, right]
  | _, bare term => [term]
  | _, group inner | _, plain inner | _, conjunct inner | _, disjunct inner => inner.leaves
  | _, negated inner => inner.leaves
  | _, and left right | _, or left right => left.leaves ++ right.leaves

/-- The formula is true where the terms have these values. -/
def Holds (value : Term .sum → Float) : {layer : Layer} → Formula layer → Prop
  | _, constant literal => literal.truth = true
  | _, compared comparison left right => comparison.Relates (value left) (value right)
  | _, bare term => OffZero (value term)
  | _, group inner | _, plain inner | _, conjunct inner | _, disjunct inner => inner.Holds value
  | _, negated inner => ¬ inner.Holds value
  | _, and left right => left.Holds value ∧ right.Holds value
  | _, or left right => left.Holds value ∨ right.Holds value

def names {layer : Layer} (formula : Formula layer) : List Name := formula.leaves.flatMap Term.names

/-- What the readers find, if every term has a value. -/
def truth? (vars : Variables) : {layer : Layer} → Formula layer → Option Bool
  | _, constant literal => some literal.truth
  | _, compared comparison left right => do
    return comparison.holds (← (left.value vars).toOption) (← (right.value vars).toOption)
  | _, bare term => (term.value vars).toOption.map isTrue
  | _, group inner | _, plain inner | _, conjunct inner | _, disjunct inner => inner.truth? vars
  | _, negated inner => (inner.truth? vars).map (!·)
  | _, and left right => do return (← left.truth? vars) && (← right.truth? vars)
  | _, or left right => do return (← left.truth? vars) || (← right.truth? vars)

variable {vars : Variables} {layer : Layer}

theorem truth?_of_values (formula : Formula layer) {value : Term .sum → Float}
    (values : ∀ leaf ∈ formula.leaves, leaf.value vars = .ok (value leaf)) :
    ∃ b, formula.truth? vars = some b ∧ (b = true ↔ formula.Holds value) := by
  induction formula with
  | constant literal => exact ⟨literal.truth, rfl, Iff.rfl⟩
  | compared comparison left right =>
      refine ⟨comparison.holds (value left) (value right), ?_, comparison.holds_iff _ _⟩
      rw [truth?, values left (by simp [leaves]), values right (by simp [leaves])]
      rfl
  | bare term =>
      refine ⟨isTrue (value term), ?_, isTrue_iff _⟩
      rw [truth?, values term (by simp [leaves])]
      rfl
  | group inner ih => exact ih values
  | plain inner ih => exact ih values
  | conjunct inner ih => exact ih values
  | disjunct inner ih => exact ih values
  | negated inner ih =>
      obtain ⟨b, found, holds⟩ := ih values
      refine ⟨!b, ?_, by simp [Holds, ← holds]⟩
      rw [truth?, found]
      rfl
  | and left right ih ih' =>
      rw [leaves, List.forall_mem_append] at values
      obtain ⟨b, found, holds⟩ := ih values.1
      obtain ⟨b', found', holds'⟩ := ih' values.2
      refine ⟨b && b', ?_, by simp [Holds, ← holds, ← holds']⟩
      rw [truth?, found, found']
      rfl
  | or left right ih ih' =>
      rw [leaves, List.forall_mem_append] at values
      obtain ⟨b, found, holds⟩ := ih values.1
      obtain ⟨b', found', holds'⟩ := ih' values.2
      refine ⟨b || b', ?_, by simp [Holds, ← holds, ← holds']⟩
      rw [truth?, found, found']
      rfl

theorem truth?_of_fault (formula : Formula layer) {leaf : Term .sum} {fault : Error}
    (member : leaf ∈ formula.leaves) (failed : leaf.value vars = .error fault) :
    formula.truth? vars = none := by
  induction formula with
  | constant literal => cases member
  | compared comparison left right =>
      rw [truth?]
      simp only [leaves, List.mem_cons, List.not_mem_nil, or_false] at member
      rcases member with rfl | rfl
      · rw [failed]
        rfl
      · rw [failed]
        cases left.value vars <;> rfl
  | bare term =>
      cases List.mem_singleton.mp member
      rw [truth?, failed]
      rfl
  | group inner ih => exact ih member
  | plain inner ih => exact ih member
  | conjunct inner ih => exact ih member
  | disjunct inner ih => exact ih member
  | negated inner ih =>
      rw [truth?, ih member]
      rfl
  | and left right ih ih' =>
      rw [truth?]
      rcases List.mem_append.mp member with member | member
      · rw [ih member]
        rfl
      · rw [ih' member]
        cases left.truth? vars <;> rfl
  | or left right ih ih' =>
      rw [truth?]
      rcases List.mem_append.mp member with member | member
      · rw [ih member]
        rfl
      · rw [ih' member]
        cases left.truth? vars <;> rfl

end Formula

/-! ### Comparisons -/

def afterConjunct : List Char := ")&|".toList
def afterDisjunct : List Char := ")|".toList
def afterDisjunction : List Char := ")".toList

namespace Comparison

theorem read?_blanks {blanks : List Char} (blank : blanks.all isBlank = true) (s : List Char) :
    read? (blanks ++ s) = read? s := by
  unfold read?
  simp only [Token.text?_blanks blank]

theorem read?_sign (comparison : Comparison) {s : List Char} (ends : s.head? ≠ some '=') :
    read? (comparison.sign ++ s) = some (comparison, s) := by
  have trimmed : trimStart (comparison.sign ++ s) = comparison.sign ++ s := by
    cases comparison <;> exact trimStart_cons (by decide) _
  have noEqual : dropBeginning? ['='] s = none := by
    cases s with
    | nil => rfl
    | cons c s => exact if_neg fun same => ends (congrArg some same.symm)
  unfold read?
  simp only [Token.text?, trimmed]
  cases comparison <;> simp [signs, sign, dropBeginning?, noEqual]

theorem read?_eq_none {rest : List Char} (noSign : ∀ c ∈ ['<', '>', '='], first? rest ≠ some c)
    (noUnequal : Token.text? ['!', '='] rest = none) : read? rest = none := by
  unfold read?
  rw [List.findSome?_eq_none_iff]
  intro pair member
  rw [Option.map_eq_none_iff]
  simp only [signs, List.mem_cons, List.not_mem_nil, or_false] at member
  rcases member with rfl | rfl | rfl | rfl | rfl | rfl
  · exact Token.text?_eq_none (noSign '>' (by decide))
  · exact Token.text?_eq_none (noSign '<' (by decide))
  · exact Token.text?_eq_none (noSign '=' (by decide))
  · exact noUnequal
  · exact Token.text?_eq_none (noSign '>' (by decide))
  · exact Token.text?_eq_none (noSign '<' (by decide))

theorem read?_of_before {rest : List Char} (before : Before afterConjunct rest) :
    read? rest = none := by
  apply read?_eq_none
  · intro c member found
    have follows := before c found
    simp only [List.mem_cons, List.not_mem_nil, or_false] at member
    rcases member with rfl | rfl | rfl <;> revert follows <;> decide
  · exact Token.text?_of_before before (by decide)

end Comparison

theorem continuesArithmetic_eq_false {rest : List Char} (ends : continuesArithmetic rest = false) :
    (∀ c ∈ "+-*/<>=".toList, first? rest ≠ some c) ∧ Token.text? ['!', '='] rest = none := by
  unfold continuesArithmetic at ends
  unfold Token.text? first?
  split at ends
  · cases ends
  · rename_i c s noUnequal trimmed
    rw [trimmed]
    refine ⟨?_, ?_⟩
    · rintro d member ⟨⟩
      rw [List.contains_eq_mem, decide_eq_false_iff_not] at ends
      exact ends member
    · by_cases bang : c = '!'
      · subst bang
        cases s with
        | nil => rfl
        | cons d s =>
            have other : '=' ≠ d := fun same => noUnequal s rfl (same ▸ rfl)
            simp [dropBeginning?, other]
      · exact if_neg fun same => bang same.symm
  · rename_i trimmed
    rw [trimmed]
    exact ⟨nofun, rfl⟩

theorem continuesArithmetic_of_before {rest : List Char} (before : Before afterConjunct rest) :
    continuesArithmetic rest = false := by
  unfold Before first? at before
  unfold continuesArithmetic
  split
  · rename_i s trimmed
    rw [trimmed] at before
    exact absurd (before '!' rfl) (by decide)
  · rename_i c s other trimmed
    rw [trimmed] at before
    have signs : afterConjunct.all (fun d => !"+-*/<>=".toList.contains d) = true := by decide
    have other := List.all_eq_true.mp signs c (before c rfl)
    rw [Bool.not_eq_true'] at other
    exact other
  · rfl

variable {vars : Variables} {fuel : Nat} {s rest : List Char}

theorem comparison_alone (term : Term .sum) (spaced : Spaced term.tokens s)
    (before : Before afterSum rest) (noSign : Comparison.read? rest = none)
    (enough : 4 * s.length ≤ fuel) :
    comparison vars fuel (s ++ rest) = (do return (isTrue (← term.value vars), rest)) := by
  unfold comparison
  rw [(term.reads vars).whole spaced before enough]
  cases term.value vars with
  | error fault => rfl
  | ok x => simp only [bind, Except.bind, pure, Except.pure, noSign]

theorem comparison_compared (comparison : Comparison) {left right : Term .sum}
    {front blanks back : List Char} (blank : blanks.all isBlank = true)
    (first : Spaced left.tokens front) (second : Spaced right.tokens back)
    (before : Before afterSum rest) (enough : 4 * front.length ≤ fuel)
    (enough' : 4 * back.length ≤ fuel) :
    Expression.comparison vars fuel (front ++ (blanks ++ (comparison.sign ++ (back ++ rest)))) =
      (do return (comparison.holds (← left.value vars) (← right.value vars), rest)) := by
  have sign : Before afterSum (blanks ++ (comparison.sign ++ (back ++ rest))) := by
    cases comparison <;> exact before_token blank (by decide) (by decide) _
  have ends : (back ++ rest).head? ≠ some '=' := by
    intro next
    obtain ⟨c, found, begins⟩ := right.first second rest
    rw [first?_of_head? (by decide) next] at found
    cases found
    revert begins
    decide
  have read := comparison.read?_sign ends
  rw [← Comparison.read?_blanks blank] at read
  unfold Expression.comparison
  rw [(left.reads vars).whole first sign enough]
  cases left.value vars with
  | error fault => rfl
  | ok x =>
      simp only [bind, Except.bind, pure, Except.pure, read,
        (right.reads vars).whole second before enough']
      cases right.value vars <;> rfl

/-! ### Trying parentheses -/

theorem atom_of_other (noTruth : ∀ truth, Token.word? (truthWord truth) s = none)
    (noGroup : Token.char? '(' s = none) : atom vars (fuel + 1) s = comparison vars fuel s := by
  have noTrue : Token.word? "true".toList s = none := noTruth true
  have noFalse : Token.word? "false".toList s = none := noTruth false
  rw [atom, noTrue, noFalse, noGroup]

theorem no_bang {c : Char} (found : first? s = some c)
    (begins : isNameChar c = true ∨ c ∈ Level.signs .sum) : Token.char? '!' s = none := by
  apply Token.char?_eq_none
  rw [found]
  rintro ⟨⟩
  revert begins
  decide

theorem atom_of_first {c : Char} (found : first? s = some c) (noLetter : isNameStart c = false)
    (noGroup : c ≠ '(') : atom vars (fuel + 1) s = comparison vars fuel s := by
  refine atom_of_other (word?_of_first found noLetter) (Token.char?_eq_none ?_)
  rw [found]
  exact fun same => noGroup (Option.some.inj same)

section

variable {blanks blanks' : List Char} (blank : blanks.all isBlank = true)

include blank

theorem no_truth_open (truth : Bool) (inner : List Char) :
    Token.word? (truthWord truth) (blanks ++ '(' :: inner) = none :=
  word?_of_first (first?_token blank (by decide) inner) (by decide) truth

theorem atom_group_error {inner : List Char} {fault : Error}
    (failed : disjunction vars fuel inner = .error fault) :
    atom vars (fuel + 1) (blanks ++ '(' :: inner) =
      comparison vars fuel (blanks ++ '(' :: inner) := by
  have noTrue : Token.word? "true".toList (blanks ++ '(' :: inner) = none :=
    no_truth_open blank true inner
  have noFalse : Token.word? "false".toList (blanks ++ '(' :: inner) = none :=
    no_truth_open blank false inner
  rw [atom, noTrue, noFalse, Token.char?_token blank (by decide)]
  dsimp only
  rw [failed]

theorem atom_group_ok (blank' : blanks'.all isBlank = true) {inner : List Char} {b : Bool}
    (read : disjunction vars fuel inner = .ok (b, blanks' ++ ')' :: rest)) :
    atom vars (fuel + 1) (blanks ++ '(' :: inner) =
      if continuesArithmetic rest then comparison vars fuel (blanks ++ '(' :: inner)
      else .ok (b, rest) := by
  have noTrue : Token.word? "true".toList (blanks ++ '(' :: inner) = none :=
    no_truth_open blank true inner
  have noFalse : Token.word? "false".toList (blanks ++ '(' :: inner) = none :=
    no_truth_open blank false inner
  rw [atom, noTrue, noFalse, Token.char?_token blank (by decide)]
  dsimp only
  rw [read]
  dsimp only
  rw [Token.char?_token blank' (by decide)]

end

theorem conjunctionFrom_end (before : Before afterDisjunct rest) (enough : 0 < fuel) (b : Bool) :
    conjunctionFrom vars fuel b rest = .ok (b, rest) := by
  obtain _ | fuel := fuel
  · cases enough
  · rw [conjunctionFrom, Token.text?_of_before before (by decide)]

theorem disjunctionFrom_end (before : Before afterDisjunction rest) (enough : 0 < fuel) (b : Bool) :
    disjunctionFrom vars fuel b rest = .ok (b, rest) := by
  obtain _ | fuel := fuel
  · cases enough
  · rw [disjunctionFrom, Token.text?_of_before before (by decide)]

theorem disjunction_alone (term : Term .sum) (spaced : Spaced term.tokens s)
    (before : Before afterDisjunction rest) (enough : 8 * s.length ≤ fuel)
    (atom_eq : ∀ fuel, 8 * s.length ≤ fuel + 4 →
      atom vars (fuel + 1) (s ++ rest) = comparison vars fuel (s ++ rest)) :
    disjunction vars fuel (s ++ rest) = (do return (isTrue (← term.value vars), rest)) := by
  have length := term.length_pos spaced
  obtain ⟨fuel, rfl⟩ : ∃ less, fuel = less + 4 := ⟨fuel - 4, by omega⟩
  have noBang : Token.char? '!' (s ++ rest) = none := by
    obtain ⟨c, found, begins⟩ := term.first spaced rest
    exact no_bang found begins
  have noSign : Comparison.read? rest = none :=
    Comparison.read?_of_before (before.mono (by decide))
  rw [disjunction, conjunction, negation, noBang]
  dsimp only
  rw [atom_eq fuel (by omega),
    comparison_alone term spaced (before.mono (by decide)) noSign (by omega)]
  cases term.value vars with
  | error fault => rfl
  | ok x =>
      change (conjunctionFrom vars (fuel + 2) (isTrue x) rest >>= _) = _
      rw [conjunctionFrom_end (before.mono (by decide)) (Nat.zero_lt_succ _)]
      exact disjunctionFrom_end before (Nat.zero_lt_succ _) _

/-- At the beginning of a term it makes no difference that parentheses are taken for those of a
formula first. -/
theorem Term.atom_eq {level : Level} (term : Term level)
    (plain : ∀ name ∈ term.names, ¬ name.IsTruth) {fuel : Nat} {s rest : List Char}
    (spaced : Spaced term.tokens s) (before : Before afterOperand rest)
    (enough : 8 * s.length ≤ fuel + 4) :
    atom vars (fuel + 1) (s ++ rest) = comparison vars fuel (s ++ rest) := by
  induction term generalizing fuel s rest with
  | number numeral =>
      obtain ⟨blanks, blank, rfl⟩ := spaced.one
      obtain ⟨c, found, begins⟩ := numeral.first rest
      rw [← first?_blanks blank, ← List.append_assoc] at found
      rcases begins with digit | rfl
      · apply atom_of_first found (isNameStart_of_isDigit digit)
        rintro rfl
        cases digit
      · exact atom_of_first found (by decide) (by decide)
  | named name =>
      obtain ⟨blanks, blank, rfl⟩ := spaced.one
      rw [List.append_assoc]
      apply atom_of_other
      · intro truth
        have other : ¬ sameWord name.chars (truthWord truth) = true := fun same =>
          plain name (by simp [names]) ⟨truth, same⟩
        rw [Token.word?_blanks blank, name.word? before, if_neg other]
      · rw [Token.char?_blanks blank, name.no_group]
  | signed sign inner ih =>
      obtain ⟨blanks, tail, blank, rfl, -⟩ := spaced
      have found : first? (blanks ++ ([sign.char] ++ tail) ++ rest) = some sign.char := by
        rw [List.append_assoc]
        exact first?_token blank sign.visible _
      cases sign <;> exact atom_of_first found (by decide) (by decide)
  | group inner ih =>
      have length := Term.length_pos _ spaced
      have whole (after : Before afterSum rest) (noSign : Comparison.read? rest = none) :
          comparison vars fuel (s ++ rest) = (do return (isTrue (← inner.value vars), rest)) :=
        comparison_alone (.summand (.factor (.plain (.group inner)))) spaced after noSign (by omega)
      obtain ⟨blanks, body, blanks', blank, blank', rfl, inside⟩ := spaced.enclosed
      simp only [List.append_assoc, List.cons_append, List.nil_append] at whole ⊢
      have closes : Before afterDisjunction (blanks' ++ ')' :: rest) :=
        before_token blank' (by decide) (by decide) rest
      have room : 8 * body.length ≤ fuel := by
        simp only [List.length_append, List.length_cons, List.length_nil] at enough
        omega
      have read := disjunction_alone inner inside closes room fun fuel enough =>
        ih plain inside (closes.mono (by decide)) enough
      cases value : inner.value vars with
      | error fault =>
          rw [value] at read
          exact atom_group_error blank read
      | ok x =>
          rw [value] at read
          rw [atom_group_ok blank blank' read]
          split
          · rfl
          · -- The value of the formula stands, and it is that of the term as nothing goes on here.
            rename_i ends
            obtain ⟨noOperator, noUnequal⟩ :=
              continuesArithmetic_eq_false (Bool.eq_false_iff.mpr ends)
            have after : Before afterSum rest := by
              intro c found
              have signs : afterOperand ⊆ "+-*/<>=".toList ++ afterSum := by decide
              rcases List.mem_append.mp (signs (before c found)) with operator | follows
              · exact absurd found (noOperator c operator)
              · exact follows
            have noSign : Comparison.read? rest = none := by
              refine Comparison.read?_eq_none (fun c member => noOperator c ?_) noUnequal
              have signs : ['<', '>', '='] ⊆ "+-*/<>=".toList := by decide
              exact signs member
            rw [whole after noSign, value]
            rfl
  | plain inner ih => exact ih plain spaced before enough
  | factor inner ih => exact ih plain spaced before enough
  | summand inner ih => exact ih plain spaced before enough
  | scaled scaling left right ih ih' =>
      obtain ⟨front, blanks, back, blank, rfl, first, -⟩ := spaced.between
      have operator : Before afterOperand (blanks ++ scaling.char :: (back ++ rest)) :=
        before_token blank scaling.visible (by cases scaling <;> decide) _
      simp only [names, List.forall_mem_append] at plain
      simp only [List.length_append] at enough
      simp only [List.append_assoc, List.cons_append, List.nil_append]
      exact ih plain.1 first operator (by omega)
  | added sign left right ih ih' =>
      obtain ⟨front, blanks, back, blank, rfl, first, -⟩ := spaced.between
      have operator : Before afterOperand (blanks ++ sign.char :: (back ++ rest)) :=
        before_token blank sign.visible (by cases sign <;> decide) _
      simp only [names, List.forall_mem_append] at plain
      simp only [List.length_append] at enough
      simp only [List.append_assoc, List.cons_append, List.nil_append]
      exact ih plain.1 first operator (by omega)

end Easel.Expression
