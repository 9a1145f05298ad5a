import Easel.Proofs.Expression.Formulas

/-! Conditions have the truth value of the formula that they spell, and none where a term in it has
no value. -/

namespace Easel.Expression

open Text

theorem toOption_bind {α β : Type} (first : Except Error α) (next : α → Except Error β) :
    (first >>= next).toOption = first.toOption.bind fun a => (next a).toOption := by
  cases first <;> rfl

theorem toOption_eq_none {α : Type} {first : Except Error α} :
    first.toOption = none ↔ ∃ fault, first = .error fault := by
  cases first <;> simp [Except.toOption]

theorem toOption_eq_some {α : Type} {first : Except Error α} {a : α} :
    first.toOption = some a ↔ first = .ok a := by
  cases first <;> simp [Except.toOption]

variable {vars : Variables} {fuel : Nat} {s rest blanks : List Char}

/-! ### Formulas that are no terms -/

theorem sum_operand {c : Char} (blank : blanks.all isBlank = true) (visible : isBlank c = false)
    (noMinus : '-' ≠ c) (noPlus : '+' ≠ c) (s : List Char) :
    sum vars (fuel + 3) (blanks ++ c :: s) = (do
      let (x, s) ← operand vars fuel (blanks ++ c :: s)
      let (x, s) ← productFrom vars (fuel + 1) x s
      sumFrom vars (fuel + 2) x s) := by
  rw [sum, product, signed, Token.char?_other blank visible noMinus,
    Token.char?_other blank visible noPlus]
  dsimp only
  cases operand vars fuel (blanks ++ c :: s) <;> rfl

theorem operand_of_bang (blank : blanks.all isBlank = true) (fuel : Nat) (s : List Char) :
    ∃ fault, operand vars fuel (blanks ++ '!' :: s) = .error fault := by
  cases fuel with
  | zero => exact ⟨_, rfl⟩
  | succ fuel =>
      have trimmed : trimStart (blanks ++ '!' :: s) = '!' :: s := by
        rw [trimStart_blanks blank, trimStart_cons (by decide)]
      have noDigits : Token.digits? (blanks ++ '!' :: s) = none := by
        unfold Token.digits?
        rw [trimmed]
        rfl
      have noName : Token.name? (blanks ++ '!' :: s) = none := by
        unfold Token.name?
        rw [trimmed]
        rfl
      rw [operand, Token.char?_other blank (by decide) (by decide), noDigits, noName]
      exact ⟨_, rfl⟩

/-- Something in parentheses is a term only if what stands inside is one. -/
theorem sum_enclosed {blanks' body : List Char} {good : Prop} {x : Float}
    (blank : blanks.all isBlank = true) (blank' : blanks'.all isBlank = true)
    (before : Before afterConjunct rest)
    (inside : ∀ y t, sum vars fuel (body ++ (blanks' ++ ')' :: rest)) = .ok (y, t) →
      good ∧ t = blanks' ++ ')' :: rest ∨ Token.char? ')' t = none)
    (read : sum vars (fuel + 4) (blanks ++ '(' :: (body ++ (blanks' ++ ')' :: rest))) =
      .ok (x, s)) :
    good ∧ s = rest := by
  rw [sum_operand blank (by decide) (by decide) (by decide), operand,
    Token.char?_token blank (by decide)] at read
  dsimp only at read
  cases within : sum vars fuel (body ++ (blanks' ++ ')' :: rest)) with
  | error fault =>
      rw [within] at read
      cases read
  | ok reading =>
      obtain ⟨y, t⟩ := reading
      simp only [within, bind, Except.bind] at read
      rcases inside y t within with ⟨holds, rfl⟩ | unclosed
      · simp only [Token.char?_token (c := ')') blank' (by decide), pure, Except.pure,
          productFrom_end (before.mono (by decide)) (Nat.zero_lt_succ _),
          sumFrom_end (before.mono (by decide)) (Nat.zero_lt_succ _)] at read
        cases read
        exact ⟨holds, rfl⟩
      · simp only [unclosed] at read
        cases read

theorem Term.sum_ends (term : Term .sum) {t : List Char} {x : Float}
    (spaced : Spaced term.tokens s) (before : Before afterSum rest) (enough : 4 * s.length ≤ fuel)
    (read : sum vars fuel (s ++ rest) = .ok (x, t)) : term.value vars = .ok x ∧ t = rest := by
  rw [(term.reads vars).whole spaced before enough] at read
  cases value : term.value vars with
  | error fault =>
      rw [value] at read
      cases read
  | ok y =>
      rw [value] at read
      cases read
      exact ⟨rfl, rfl⟩

theorem unclosed_of_before {signs t : List Char} {good : Prop} (before : Before signs rest)
    (noClose : ')' ∉ signs) (ends : good ∧ t = rest ∨ Token.char? ')' t = none) :
    Token.char? ')' t = none := by
  rcases ends with ⟨-, rfl⟩ | unclosed
  · exact Token.char?_of_before before noClose
  · exact unclosed

/-- Where a formula is read as a term, all of it is one, or no parenthesis is closed behind. -/
theorem Formula.sum_ends {layer : Layer} (formula : Formula layer) {fuel : Nat}
    {s rest t : List Char} {x : Float} (spaced : Spaced formula.tokens s)
    (before : Before afterConjunct rest) (enough : 4 * s.length ≤ fuel)
    (read : sum vars fuel (s ++ rest) = .ok (x, t)) :
    formula.truth? vars ≠ none ∧ t = rest ∨ Token.char? ')' t = none := by
  induction formula generalizing fuel s rest x t with
  | constant literal =>
      -- A truth value is spelled like a name, so that a variable is read here.
      let term : Term .sum := .summand (.factor (.plain (.named literal.toName)))
      obtain ⟨-, same⟩ := term.sum_ends spaced (before.mono (by decide)) enough read
      exact .inl ⟨nofun, same⟩
  | compared comparison left right =>
      obtain ⟨front, blanks, back, blank, rfl, first, -⟩ := spaced.between
      simp only [List.append_assoc] at read
      simp only [List.length_append] at enough
      have sign : Before "<>=!".toList (blanks ++ (comparison.sign ++ (back ++ rest))) := by
        cases comparison <;> exact before_token blank (by decide) (by decide) _
      have ends := left.sum_ends first (sign.mono (by decide)) (by omega) read
      exact .inr (unclosed_of_before sign (by decide) (.inl ends))
  | bare term =>
      obtain ⟨value, same⟩ := term.sum_ends spaced (before.mono (by decide)) enough read
      refine .inl ⟨?_, same⟩
      rw [truth?, value]
      exact Option.some_ne_none _
  | group inner ih =>
      obtain ⟨blanks, body, blanks', blank, blank', rfl, inside⟩ := spaced.enclosed
      simp only [List.append_assoc, List.cons_append, List.nil_append] at read
      simp only [List.length_append, List.length_cons, List.length_nil] at enough
      obtain ⟨fuel, rfl⟩ : ∃ less, fuel = less + 4 := ⟨fuel - 4, by omega⟩
      refine .inl (sum_enclosed blank blank' before (fun y t => ?_) read)
      exact ih inside (before_token blank' (by decide) (by decide) rest) (by omega)
  | plain inner ih => exact ih spaced before enough read
  | conjunct inner ih => exact ih spaced before enough read
  | disjunct inner ih => exact ih spaced before enough read
  | negated inner ih =>
      obtain ⟨blanks, tail, blank, rfl, -⟩ := spaced
      simp only [List.append_assoc, List.cons_append, List.nil_append] at read
      simp only [List.length_append, List.length_cons, List.length_nil] at enough
      obtain ⟨fuel, rfl⟩ : ∃ less, fuel = less + 3 := ⟨fuel - 3, by omega⟩
      obtain ⟨fault, failed⟩ := operand_of_bang blank fuel (tail ++ rest)
      rw [sum_operand blank (by decide) (by decide) (by decide), failed] at read
      cases read
  | and left right ih ih' =>
      obtain ⟨front, blanks, back, blank, rfl, first, -⟩ := spaced.between
      simp only [List.append_assoc, List.cons_append, List.nil_append] at read
      simp only [List.length_append] at enough
      have sign : Before ['&'] (blanks ++ '&' :: '&' :: (back ++ rest)) :=
        before_token blank (by decide) (by decide) _
      have ends := ih first (sign.mono (by decide)) (by omega) read
      exact .inr (unclosed_of_before sign (by decide) ends)
  | or left right ih ih' =>
      obtain ⟨front, blanks, back, blank, rfl, first, -⟩ := spaced.between
      simp only [List.append_assoc, List.cons_append, List.nil_append] at read
      simp only [List.length_append] at enough
      have sign : Before ['|'] (blanks ++ '|' :: '|' :: (back ++ rest)) :=
        before_token blank (by decide) (by decide) _
      have ends := ih first (sign.mono (by decide)) (by omega) read
      exact .inr (unclosed_of_before sign (by decide) ends)

/-! ### Reading formulas -/

def conjunctionOn (vars : Variables) (fuel : Nat) (sofar : Bool) (s : List Char) :
    Except Error (Reading Bool) := do
  let (b, s) ← negation vars fuel s
  conjunctionFrom vars fuel (sofar && b) s

def disjunctionOn (vars : Variables) (fuel : Nat) (sofar : Bool) (s : List Char) :
    Except Error (Reading Bool) := do
  let (b, s) ← conjunction vars fuel s
  disjunctionFrom vars fuel (sofar || b) s

theorem conjunction_eq (s : List Char) :
    conjunction vars (fuel + 1) s = conjunctionOn vars fuel true s := by
  rw [conjunction, conjunctionOn]
  simp only [Bool.true_and]

theorem disjunction_eq (s : List Char) :
    disjunction vars (fuel + 1) s = disjunctionOn vars fuel false s := by
  rw [disjunction, disjunctionOn]
  simp only [Bool.false_or]

theorem conjunctionFrom_and (blank : blanks.all isBlank = true) (sofar : Bool) (s : List Char) :
    conjunctionFrom vars (fuel + 1) sofar (blanks ++ '&' :: '&' :: s) =
      conjunctionOn vars fuel sofar s := by
  have sign : Token.text? ['&', '&'] (blanks ++ '&' :: '&' :: s) = some s :=
    Token.text?_token blank (by decide) ['&'] s
  rw [conjunctionFrom, sign]
  rfl

theorem disjunctionFrom_or (blank : blanks.all isBlank = true) (sofar : Bool) (s : List Char) :
    disjunctionFrom vars (fuel + 1) sofar (blanks ++ '|' :: '|' :: s) =
      disjunctionOn vars fuel sofar s := by
  have sign : Token.text? ['|', '|'] (blanks ++ '|' :: '|' :: s) = some s :=
    Token.text?_token blank (by decide) ['|'] s
  rw [disjunctionFrom, sign]
  rfl

theorem chain {op : Bool → Bool → Bool} (assoc : ∀ a b c, op (op a b) c = op a (op b c))
    {on more : Nat → Bool → List Char → Except Error (Reading Bool)} {first second : Option Bool}
    {fuel middle last : Nat} {s behind s' rest : List Char}
    (eq : ∀ sofar, (on fuel sofar s).toOption =
      first.bind fun a => (more (middle + 1) (op sofar a) behind).toOption)
    (goes : ∀ sofar, more (middle + 1) sofar behind = on middle sofar s')
    (eq' : ∀ sofar, (on middle sofar s').toOption =
      second.bind fun b => (more last (op sofar b) rest).toOption)
    (sofar : Bool) :
    (on fuel sofar s).toOption =
      (do return op (← first) (← second)).bind fun b => (more last (op sofar b) rest).toOption := by
  rw [eq]
  cases first with
  | none => rfl
  | some a =>
      rw [Option.bind_some, goes, eq']
      cases second with
      | none => rfl
      | some b =>
          rw [Option.bind_some, assoc]
          rfl

/-- A formula is read to its end, and its truth value, if it has one, is what the readers come
to. -/
def Formula.Reads (vars : Variables) : {layer : Layer} → Formula layer → Prop
  | .atom, formula => ∀ (fuel : Nat) (s rest : List Char), Spaced formula.tokens s →
    Before afterConjunct rest → 8 * s.length ≤ fuel + 3 →
    (atom vars fuel (s ++ rest)).toOption = (formula.truth? vars).map (·, rest)
  | .negation, formula => ∀ (fuel : Nat) (s rest : List Char), Spaced formula.tokens s →
    Before afterConjunct rest → 8 * s.length ≤ fuel + 2 →
    (negation vars fuel (s ++ rest)).toOption = (formula.truth? vars).map (·, rest)
  | .conjunction, formula => ∀ (fuel : Nat) (s rest : List Char), Spaced formula.tokens s →
    Before afterConjunct rest → 8 * s.length ≤ fuel + 2 →
    ∃ left, fuel ≤ left + s.length ∧ ∀ sofar,
      (conjunctionOn vars fuel sofar (s ++ rest)).toOption =
        (formula.truth? vars).bind fun b => (conjunctionFrom vars left (sofar && b) rest).toOption
  | .disjunction, formula => ∀ (fuel : Nat) (s rest : List Char), Spaced formula.tokens s →
    Before afterDisjunct rest → 8 * s.length ≤ fuel + 1 →
    ∃ left, fuel ≤ left + s.length ∧ ∀ sofar,
      (disjunctionOn vars fuel sofar (s ++ rest)).toOption =
        (formula.truth? vars).bind fun b => (disjunctionFrom vars left (sofar || b) rest).toOption

def Layer.signs : Layer → List Char
  | .atom => ['.', '(', '+', '-']
  | _ => ['.', '(', '+', '-', '!']

namespace Formula

theorem first {layer : Layer} (formula : Formula layer) {s : List Char}
    (spaced : Spaced formula.tokens s) (rest : List Char) :
    ∃ c, first? (s ++ rest) = some c ∧ (isNameChar c = true ∨ c ∈ layer.signs) := by
  induction formula generalizing s rest with
  | constant literal =>
      let term : Term .sum := .summand (.factor (.plain (.named literal.toName)))
      exact term.first spaced rest
  | compared comparison left right =>
      obtain ⟨front, back, rfl, first, -⟩ := spaced.append
      rw [List.append_assoc]
      exact left.first first _
  | bare term => exact term.first spaced rest
  | group inner =>
      obtain ⟨blanks, tail, blank, rfl, -⟩ := spaced
      rw [List.append_assoc]
      exact ⟨'(', first?_token blank (by decide) _, .inr (by decide)⟩
  | plain inner ih =>
      obtain ⟨c, found, begins⟩ := ih spaced rest
      have subset : Layer.signs .atom ⊆ Layer.signs .negation := by decide
      exact ⟨c, found, begins.imp_right fun member => subset member⟩
  | negated inner =>
      obtain ⟨blanks, tail, blank, rfl, -⟩ := spaced
      rw [List.append_assoc]
      exact ⟨'!', first?_token blank (by decide) _, .inr (by decide)⟩
  | conjunct inner ih => exact ih spaced rest
  | disjunct inner ih => exact ih spaced rest
  | and left right ih =>
      obtain ⟨front, back, rfl, first, -⟩ := spaced.append
      rw [List.append_assoc]
      exact ih first _
  | or left right ih =>
      obtain ⟨front, back, rfl, first, -⟩ := spaced.append
      rw [List.append_assoc]
      exact ih first _

theorem length_pos {layer : Layer} (formula : Formula layer) (spaced : Spaced formula.tokens s) :
    0 < s.length := by
  obtain ⟨c, found, -⟩ := formula.first spaced []
  rw [List.append_nil] at found
  exact length_pos_of_first? found

namespace Reads

theorem constant (literal : Literal) : Reads vars (.constant literal) := by
  intro fuel s rest spaced before enough
  have length := length_pos _ spaced
  obtain ⟨blanks, blank, rfl⟩ := spaced.one
  obtain _ | fuel := fuel
  · omega
  · have word (truth : Bool) : Token.word? (truthWord truth) (blanks ++ (literal.chars ++ rest)) =
        if sameWord literal.chars (truthWord truth) then some rest else none := by
      rw [Token.word?_blanks blank]
      exact literal.toName.word? (before.mono (by decide)) truth
    have isTrue : Token.word? "true".toList (blanks ++ (literal.chars ++ rest)) = _ := word true
    have isFalse : Token.word? "false".toList (blanks ++ (literal.chars ++ rest)) = _ := word false
    have spelled := literal.spelled
    rw [List.append_assoc, atom, isTrue, isFalse]
    cases truth : literal.truth with
    | true =>
        rw [truth] at spelled
        rw [if_pos spelled, truth?, truth]
        rfl
    | false =>
        rw [truth] at spelled
        have other : ¬ sameWord literal.chars (truthWord true) = true := by
          intro same
          have equal := (beq_iff_eq.mp same).symm.trans (beq_iff_eq.mp spelled)
          revert equal
          decide
        rw [if_neg other, if_pos spelled, truth?, truth]
        rfl

theorem compared {comparison : Comparison} {left right : Term .sum}
    (plain : ∀ name ∈ left.names, ¬ name.IsTruth) :
    Reads vars (.compared comparison left right) := by
  intro fuel s rest spaced before enough
  have length := length_pos _ spaced
  obtain ⟨front, blanks, back, blank, rfl, first, second⟩ := spaced.between
  simp only [List.length_append] at enough length
  obtain _ | fuel := fuel
  · omega
  · have sign : Before afterOperand (blanks ++ (comparison.sign ++ (back ++ rest))) := by
      cases comparison <;> exact before_token blank (by decide) (by decide) _
    simp only [List.append_assoc]
    rw [left.atom_eq plain first sign (by omega),
      comparison_compared comparison blank first second (before.mono (by decide)) (by omega)
        (by omega), truth?]
    cases left.value vars with
    | error fault => rfl
    | ok x => cases right.value vars <;> rfl

theorem bare {term : Term .sum} (plain : ∀ name ∈ term.names, ¬ name.IsTruth) :
    Reads vars (.bare term) := by
  intro fuel s rest spaced before enough
  have length := term.length_pos spaced
  obtain _ | fuel := fuel
  · omega
  · have noSign : Comparison.read? rest = none := Comparison.read?_of_before before
    rw [term.atom_eq plain spaced (before.mono (by decide)) (by omega),
      comparison_alone term spaced (before.mono (by decide)) noSign (by omega), truth?]
    cases term.value vars <;> rfl

theorem whole {formula : Formula .disjunction} (reads : Reads vars formula)
    (spaced : Spaced formula.tokens s) (before : Before afterDisjunction rest)
    (enough : 8 * s.length ≤ fuel) :
    (disjunction vars fuel (s ++ rest)).toOption = (formula.truth? vars).map (·, rest) := by
  have length := formula.length_pos spaced
  obtain ⟨fuel, rfl⟩ : ∃ less, fuel = less + 1 := ⟨fuel - 1, by omega⟩
  obtain ⟨left, fuel_le, eq⟩ := reads fuel s rest spaced (before.mono (by decide)) (by omega)
  rw [disjunction_eq, eq]
  cases formula.truth? vars with
  | none => rfl
  | some b =>
      rw [Option.bind_some, Bool.false_or, disjunctionFrom_end before (by omega)]
      rfl

theorem comparison_failing {inner : Formula .disjunction} {body blanks' : List Char}
    (blank : blanks.all isBlank = true) (blank' : blanks'.all isBlank = true)
    (inside : Spaced inner.tokens body) (before : Before afterConjunct rest)
    (enough : 4 * body.length + 4 ≤ fuel) (failing : inner.truth? vars = none) :
    (comparison vars fuel (blanks ++ '(' :: (body ++ (blanks' ++ ')' :: rest)))).toOption =
      none := by
  obtain ⟨fuel, rfl⟩ : ∃ less, fuel = less + 4 := ⟨fuel - 4, by omega⟩
  unfold comparison
  cases read : sum vars (fuel + 4) (blanks ++ '(' :: (body ++ (blanks' ++ ')' :: rest))) with
  | error fault => rfl
  | ok reading =>
      have closes : Before afterConjunct (blanks' ++ ')' :: rest) :=
        before_token blank' (by decide) (by decide) rest
      have ends := sum_enclosed blank blank' before
        (fun y t within => inner.sum_ends inside closes (by omega) within) read
      exact absurd failing ends.1

theorem group {inner : Formula .disjunction} (reads : Reads vars inner) :
    Reads vars (.group inner) := by
  intro fuel s rest spaced before enough
  obtain ⟨blanks, body, blanks', blank, blank', rfl, inside⟩ := spaced.enclosed
  simp only [List.append_assoc, List.cons_append, List.nil_append]
  simp only [List.length_append, List.length_cons, List.length_nil] at enough
  have closes : Before afterDisjunction (blanks' ++ ')' :: rest) :=
    before_token blank' (by decide) (by decide) rest
  obtain ⟨fuel, rfl⟩ : ∃ less, fuel = less + 1 := ⟨fuel - 1, by omega⟩
  have room : 8 * body.length ≤ fuel := by omega
  have read := reads.whole inside closes room
  rw [truth?]
  cases truth : inner.truth? vars with
  | none =>
      rw [truth] at read
      obtain ⟨fault, failed⟩ := toOption_eq_none.mp read
      -- The parentheses are tried again as those of a term, which must not succeed.
      rw [atom_group_error blank failed]
      exact comparison_failing blank blank' inside before (by omega) truth
  | some b =>
      rw [truth] at read
      rw [atom_group_ok blank blank' (toOption_eq_some.mp read),
        continuesArithmetic_of_before before]
      rfl

theorem plain {inner : Formula .atom} (reads : Reads vars inner) : Reads vars (.plain inner) := by
  intro fuel s rest spaced before enough
  have length := length_pos _ spaced
  obtain _ | fuel := fuel
  · omega
  · have noBang : Token.char? '!' (s ++ rest) = none := by
      obtain ⟨c, found, begins⟩ := inner.first spaced rest
      exact no_bang found begins
    rw [negation, noBang]
    exact reads fuel s rest spaced before (by omega)

theorem negated {inner : Formula .negation} (reads : Reads vars inner) :
    Reads vars (.negated inner) := by
  intro fuel s rest spaced before enough
  obtain ⟨blanks, tail, blank, rfl, spaced⟩ := spaced
  simp only [List.length_append, List.length_cons, List.length_nil] at enough
  obtain _ | fuel := fuel
  · omega
  · have inside := reads fuel tail rest spaced before (by omega)
    simp only [List.append_assoc, List.cons_append, List.nil_append]
    rw [negation, Token.char?_token blank (by decide), truth?]
    dsimp only
    rw [toOption_bind, inside]
    cases inner.truth? vars <;> rfl

theorem conjunct {inner : Formula .negation} (reads : Reads vars inner) :
    Reads vars (.conjunct inner) := by
  intro fuel s rest spaced before enough
  refine ⟨fuel, by omega, ?_⟩
  intro sofar
  rw [conjunctionOn, toOption_bind, reads fuel s rest spaced before enough, truth?]
  cases inner.truth? vars <;> rfl

theorem and {left right : Formula .conjunction} (reads : Reads vars left)
    (reads' : Reads vars right) : Reads vars (.and left right) := by
  intro fuel s rest spaced before enough
  obtain ⟨front, blanks, back, blank, rfl, first, second⟩ := spaced.between
  have length := left.length_pos first
  simp only [List.length_append, List.length_cons, List.length_nil] at enough ⊢
  have sign : Before afterConjunct (blanks ++ '&' :: '&' :: (back ++ rest)) :=
    before_token blank (by decide) (by decide) _
  -- What is left behind the first conjuncts still has to be enough for the others.
  obtain ⟨middle, fuel_le, eq⟩ := reads fuel front _ first sign (by omega)
  obtain _ | middle := middle
  · omega
  · obtain ⟨last, middle_le, eq'⟩ := reads' middle back rest second before (by omega)
    refine ⟨last, by omega, ?_⟩
    simp only [List.append_assoc, List.cons_append, List.nil_append]
    exact chain Bool.and_assoc eq (fun sofar => conjunctionFrom_and blank sofar (back ++ rest)) eq'

theorem disjunct {inner : Formula .conjunction} (reads : Reads vars inner) :
    Reads vars (.disjunct inner) := by
  intro fuel s rest spaced before enough
  have length := length_pos _ spaced
  obtain _ | fuel := fuel
  · omega
  · obtain ⟨left, fuel_le, eq⟩ := reads fuel s rest spaced (before.mono (by decide)) (by omega)
    refine ⟨fuel + 1, by omega, ?_⟩
    intro sofar
    rw [disjunctionOn, conjunction_eq, toOption_bind, eq, truth?]
    cases inner.truth? vars with
    | none => rfl
    | some b =>
        simp only [Option.bind_some, Bool.true_and]
        rw [conjunctionFrom_end before (by omega)]
        rfl

theorem or {left right : Formula .disjunction} (reads : Reads vars left)
    (reads' : Reads vars right) : Reads vars (.or left right) := by
  intro fuel s rest spaced before enough
  obtain ⟨front, blanks, back, blank, rfl, first, second⟩ := spaced.between
  have length := left.length_pos first
  simp only [List.length_append, List.length_cons, List.length_nil] at enough ⊢
  have sign : Before afterDisjunct (blanks ++ '|' :: '|' :: (back ++ rest)) :=
    before_token blank (by decide) (by decide) _
  obtain ⟨middle, fuel_le, eq⟩ := reads fuel front _ first sign (by omega)
  obtain _ | middle := middle
  · omega
  · obtain ⟨last, middle_le, eq'⟩ := reads' middle back rest second before (by omega)
    refine ⟨last, by omega, ?_⟩
    simp only [List.append_assoc, List.cons_append, List.nil_append]
    exact chain Bool.or_assoc eq (fun sofar => disjunctionFrom_or blank sofar (back ++ rest)) eq'

end Reads

theorem reads (vars : Variables) {layer : Layer} (formula : Formula layer)
    (plain : ∀ name ∈ formula.names, ¬ name.IsTruth) : Reads vars formula := by
  induction formula with
  | constant literal => exact Reads.constant literal
  | compared comparison left right =>
      apply Reads.compared
      intro name member
      exact plain name (by simp [names, leaves, member])
  | bare term =>
      apply Reads.bare
      intro name member
      exact plain name (by simp [names, leaves, member])
  | group inner ih => exact Reads.group (ih plain)
  | plain inner ih => exact Reads.plain (ih plain)
  | negated inner ih => exact Reads.negated (ih plain)
  | conjunct inner ih => exact Reads.conjunct (ih plain)
  | disjunct inner ih => exact Reads.disjunct (ih plain)
  | and left right ih ih' =>
      simp only [names, leaves, List.flatMap_append, List.forall_mem_append] at plain
      exact Reads.and (ih plain.1) (ih' plain.2)
  | or left right ih ih' =>
      simp only [names, leaves, List.flatMap_append, List.forall_mem_append] at plain
      exact Reads.or (ih plain.1) (ih' plain.2)

end Formula

/-! ### Conditions -/

theorem boolean_eq {formula : Formula .disjunction}
    (plain : ∀ name ∈ formula.names, ¬ name.IsTruth) (spaced : Spaced formula.tokens s)
    (blank : blanks.all isBlank = true) :
    (boolean vars (s ++ blanks)).toOption = formula.truth? vars := by
  obtain ⟨c, found, -⟩ := formula.first spaced blanks
  have filled : (trim (s ++ blanks)).isEmpty = false := by
    rw [trim_isEmpty, found]
    rfl
  have ends : (trim blanks).isEmpty = true := by
    rw [trim_isEmpty, first?_eq_none blank]
    rfl
  have enough : 8 * s.length ≤ 8 * (s ++ blanks).length + 8 := by
    rw [List.length_append]
    omega
  have read := (formula.reads vars plain).whole spaced (before_blanks blank _) enough
  have done (b : Bool) : (complete (b, blanks)).toOption = some b := by
    rw [complete, if_pos ends]
    rfl
  calc
    (boolean vars (s ++ blanks)).toOption =
        (disjunction vars (8 * (s ++ blanks).length + 8) (s ++ blanks) >>= complete).toOption := by
      unfold boolean
      rw [filled, if_neg Bool.false_ne_true]
    _ = ((formula.truth? vars).map (·, blanks)).bind fun read => (complete read).toOption := by
      rw [toOption_bind, read]
    _ = formula.truth? vars := by
      cases formula.truth? vars with
      | none => rfl
      | some b => exact done b

/-- A condition that spells a formula is true if the formula holds and false if it does not, as long
as every term in it has a value. Otherwise it fails, whatever the blanks between the tokens are. -/
theorem boolean_evaluates_formula (vars : Variables) (formula : Formula .disjunction)
    (plain : ∀ name ∈ formula.names, ¬ name.IsTruth) (s blanks : List Char)
    (spaced : Spaced formula.tokens s) (blank : blanks.all isBlank = true) :
    (∀ value : Term .sum → Float,
      (∀ leaf ∈ formula.leaves, leaf.value vars = .ok (value leaf)) →
        ∃ b, boolean vars (s ++ blanks) = .ok b ∧ (b = true ↔ formula.Holds value)) ∧
    ((∃ leaf ∈ formula.leaves, ∃ fault, leaf.value vars = .error fault) →
      ∃ fault, boolean vars (s ++ blanks) = .error fault) := by
  have eq : (boolean vars (s ++ blanks)).toOption = _ := boolean_eq plain spaced blank
  constructor
  · intro value values
    obtain ⟨b, found, holds⟩ := formula.truth?_of_values values
    rw [found] at eq
    exact ⟨b, toOption_eq_some.mp eq, holds⟩
  · rintro ⟨leaf, member, fault, failed⟩
    rw [formula.truth?_of_fault member failed] at eq
    exact toOption_eq_none.mp eq

def alone (operand : Term .operand) : Term .sum := .summand (.factor (.plain operand))

def count : Term .sum := alone (.named ⟨"n".toList, by decide⟩)
def two : Term .sum := alone (.number ⟨['2'], none, rfl, rfl, .inl (List.cons_ne_nil _ _)⟩)
def gap : Term .sum := alone (.named ⟨"gap".toList, by decide⟩)

/-- There are two at least and no gap. Only on the way it turns out that the first parentheses are
those of a term and the last those of a formula. -/
def closeTogether : Formula .disjunction :=
  .disjunct (.and
    (.conjunct (.plain (.compared .atLeast (alone (.group count)) two)))
    (.conjunct (.negated (.plain (.group (.disjunct (.conjunct (.plain (.bare gap)))))))))

def counted (n : Int32) : Variables := ⟨Std.ExtTreeMap.empty.insert "n" ⟨.int n, .global⟩⟩

def measured (n : Int32) (gap : Float) : Variables :=
  ⟨(counted n).table.insert "gap" ⟨.real gap, .global⟩⟩

/-- The comparison is false, or the gap is above `2 ^ -52`, or neither is the case. A gap that nobody
has measured is missed even where the comparison is false. -/
theorem boolean_evaluates_close_together :
    boolean (measured 3 2e-16) ("(n)>=2 && !( gap)".toList ++ [' ']) = .ok true ∧
      boolean (measured 3 3e-16) ("(n)>=2 && !( gap)".toList ++ [' ']) = .ok false ∧
      boolean (measured 1 2e-16) ("(n)>=2 && !( gap)".toList ++ [' ']) = .ok false ∧
      ∃ fault, boolean (counted 1) ("(n)>=2 && !( gap)".toList ++ [' ']) = .error fault := by
  have plain : ∀ name ∈ closeTogether.names, ¬ name.IsTruth := by
    rintro name member ⟨truth, same⟩
    have names : name.chars = "n".toList ∨ name.chars = "gap".toList := by
      have listed : closeTogether.names.map (·.chars) = ["n".toList, "gap".toList] := rfl
      have inside := List.mem_map_of_mem (f := (·.chars)) member
      rw [listed] at inside
      simpa using inside
    revert same
    rcases names with chars | chars <;> rw [chars] <;> cases truth <;> decide
  have spaced : Spaced closeTogether.tokens "(n)>=2 && !( gap)".toList :=
    ⟨[], _, rfl, rfl, [], _, rfl, rfl, [], _, rfl, rfl, [], _, rfl, rfl, [], _, rfl, rfl,
      [' '], _, rfl, rfl, [' '], _, rfl, rfl, [], _, rfl, rfl, [' '], _, rfl, rfl,
      [], _, rfl, rfl, rfl⟩
  have decided (n : Int32) (width : Float) (b : Bool)
      (holds : b = true ↔ 2 ≤ Float.ofInt n.toInt ∧ ¬ 1 / 4503599627370496 < width.abs) :
      boolean (measured n width) ("(n)>=2 && !( gap)".toList ++ [' ']) = .ok b := by
    let value (leaf : Term .sum) : Float := (leaf.value (measured n width)).toOption.getD 0
    have values : ∀ leaf ∈ closeTogether.leaves,
        leaf.value (measured n width) = .ok (value leaf) := by
      intro leaf member
      simp only [closeTogether, Formula.leaves, List.cons_append, List.nil_append, List.mem_cons,
        List.not_mem_nil, or_false] at member
      rcases member with rfl | rfl | rfl <;> rfl
    obtain ⟨b', found, holds'⟩ := (boolean_evaluates_formula (measured n width) closeTogether plain _
      [' '] spaced (by decide)).1 value values
    have same : b' = b := Bool.eq_iff_iff.mpr (holds'.trans holds.symm)
    rw [found, same]
  refine ⟨decided 3 2e-16 true (by decide +kernel), decided 3 3e-16 false (by decide +kernel),
    decided 1 2e-16 false (by decide +kernel), ?_⟩
  apply (boolean_evaluates_formula (counted 1) closeTogether plain _ [' '] spaced (by decide)).2
  exact ⟨gap, by simp [closeTogether, Formula.leaves], .unknown "gap", rfl⟩

end Easel.Expression
