import Easel.Expression.Text
import Easel.Proofs.Expression.Evaluation
import Easel.Proofs.Text.Words

/-! Text that is put together with plus signs. A plus sign inside a literal joins nothing, and as
soon as a literal stands behind the first piece, numbers are joined too and not added. -/

namespace Easel.Expression

open Text

/-! ### Pieces -/

/-- A text between two quotes of one sort, with no quote inside. -/
structure Quotation where
  quote : Char
  content : List Char
  quoting : isQuote quote = true
  plain : ∀ c ∈ content, isQuote c = false

def Quotation.chars (quotation : Quotation) : List Char :=
  quotation.quote :: (quotation.content ++ [quotation.quote])

/-- Arithmetic without a plus sign, and its value. Blanks around it are not part of it. -/
structure Amount (vars : Variables) where
  chars : List Char
  value : Float
  plain : '+' ∉ chars
  trimmed : Trimmed chars
  evaluated : real vars chars = .ok value

inductive Piece (vars : Variables) where
  | quoted (quotation : Quotation)
  | counted (amount : Amount vars)

namespace Piece

variable {vars : Variables}

def chars : Piece vars → List Char
  | quoted quotation => quotation.chars
  | counted amount => amount.chars

def text : Piece vars → String
  | quoted quotation => String.ofList quotation.content
  | counted amount => Decimal.pointText amount.value

def quote? : Piece vars → Option Char
  | quoted quotation => some quotation.quote
  | counted _ => none

def tokens (pieces : List (Piece vars)) : List (List Char) :=
  (pieces.map chars).intersperse ['+']

theorem tokens_cons (first second : Piece vars) (rest : List (Piece vars)) :
    tokens (first :: second :: rest) = first.chars :: ['+'] :: tokens (second :: rest) := by
  simp [tokens]

end Piece

/-! ### Quotes and arithmetic -/

variable {vars : Variables} {s blanks : List Char} {c : Char}

theorem isQuote_iff : isQuote c = true ↔ c = '"' ∨ c = '\'' := by
  rw [isQuote, Bool.or_eq_true, beq_iff_eq, beq_iff_eq]

theorem unquoted_of_sort (sort : Char → Bool) (double : sort '"' = false)
    (single : sort '\'' = false) (inside : sort c = true) : isQuote c = false := by
  by_contra quoting
  rcases isQuote_iff.mp (eq_true_of_ne_false quoting) with rfl | rfl
  · exact absurd inside (Bool.eq_false_iff.mp double)
  · exact absurd inside (Bool.eq_false_iff.mp single)

theorem visible_of_isQuote (quoting : isQuote c = true) : isBlank c = false := by
  rcases isQuote_iff.mp quoting with rfl | rfl <;> decide

theorem Term.unquoted {level : Level} (term : Term level) :
    ∀ token ∈ term.tokens, ∀ c ∈ token, isQuote c = false := by
  have sign {c : Char} (plain : isQuote c = false) : ∀ d ∈ [c], isQuote d = false :=
    List.forall_mem_singleton.mpr plain
  induction term with
  | number numeral =>
      refine List.forall_mem_singleton.mpr fun c inside => ?_
      apply unquoted_of_sort Token.isNumeric (by decide) (by decide)
      exact List.all_eq_true.mp numeral.chars_numeric c inside
  | named name =>
      obtain ⟨d, tail, chars, start, others⟩ := name.begins
      refine List.forall_mem_singleton.mpr fun c inside => ?_
      apply unquoted_of_sort isNameChar (by decide) (by decide)
      rcases List.mem_cons.mp (chars ▸ inside) with rfl | inside
      · exact isNameChar_iff.mpr (.inl start)
      · exact List.all_eq_true.mp others c inside
  | group inner ih =>
      refine List.forall_mem_cons.mpr ⟨sign (by decide), List.forall_mem_append.mpr ⟨ih, ?_⟩⟩
      exact List.forall_mem_singleton.mpr (sign (by decide))
  | plain inner ih => exact ih
  | factor inner ih => exact ih
  | summand inner ih => exact ih
  | signed kind inner ih => exact List.forall_mem_cons.mpr ⟨sign (by cases kind <;> decide), ih⟩
  | scaled scaling left right ih ih' =>
      rw [tokens, List.forall_mem_append, List.forall_mem_cons]
      exact ⟨ih, sign (by cases scaling <;> decide), ih'⟩
  | added kind left right ih ih' =>
      rw [tokens, List.forall_mem_append, List.forall_mem_cons]
      exact ⟨ih, sign (by cases kind <;> decide), ih'⟩

theorem blank_or_mem_of_spaced {tokens : List (List Char)} (spaced : Spaced tokens s)
    (inside : c ∈ s) : isBlank c = true ∨ ∃ token ∈ tokens, c ∈ token := by
  induction tokens generalizing s with
  | nil =>
      cases spaced
      cases inside
  | cons token tokens ih =>
      obtain ⟨blanks, rest, blank, rfl, spaced⟩ := spaced
      rcases List.mem_append.mp inside with inside | inside
      · exact .inl (List.all_eq_true.mp blank c inside)
      · rcases List.mem_append.mp inside with inside | inside
        · exact .inr ⟨token, List.mem_cons_self, inside⟩
        · obtain blank | ⟨other, member, inside⟩ := ih spaced inside
          · exact .inl blank
          · exact .inr ⟨other, List.mem_cons_of_mem token member, inside⟩

theorem mem_trim_of_visible (visible : isBlank c = false) (inside : c ∈ s) : c ∈ trim s := by
  obtain ⟨front, back, blank, blank', whole⟩ := exists_trim s
  have alien {blanks : List Char} (blank : blanks.all isBlank = true) : c ∉ blanks := by
    intro member
    rw [List.all_eq_true.mp blank c member] at visible
    cases visible
  rw [whole, List.mem_append, List.mem_append] at inside
  rcases inside with inside | inside | inside
  · exact absurd inside (alien blank)
  · exact inside
  · exact absurd inside (alien blank')

theorem unquoted_of_real {x : Float} (found : real vars s = .ok x) :
    ∀ c ∈ s, isQuote c = false := by
  intro c inside
  by_contra quoting
  have quoting := eq_true_of_ne_false quoting
  obtain ⟨term, spaced, -⟩ := exists_term_of_real found
  have visible := visible_of_isQuote quoting
  obtain blank | ⟨token, member, inside⟩ :=
    blank_or_mem_of_spaced spaced (mem_trim_of_visible visible inside)
  · rw [visible] at blank
    cases blank
  · rw [term.unquoted token member c inside] at quoting
    cases quoting

theorem real_eq_none_of_quote (quoting : isQuote c = true) (inside : c ∈ s) :
    (real vars s).toOption = none := by
  cases found : real vars s with
  | error fault => rfl
  | ok x =>
      rw [unquoted_of_real found c inside] at quoting
      cases quoting

/-! ### Cutting at plus signs -/

/-- The text opens no quote that it does not close and has no plus sign outside of quotes, so that
it falls into one part. -/
def Unparted (p : List Char) : Prop :=
  ∀ s, parts? none (p ++ s) = (parts? none s).map (p.foldr onFirst ·)

namespace Unparted

theorem append {p q : List Char} (first : Unparted p) (second : Unparted q) :
    Unparted (p ++ q) := by
  intro s
  rw [List.append_assoc, first, second, Option.map_map]
  simp only [List.foldr_append]
  rfl

theorem plain (unquoted : ∀ c ∈ s, isQuote c = false) (whole : '+' ∉ s) : Unparted s := by
  induction s with
  | nil =>
      intro s
      rw [List.nil_append]
      exact Option.map_id'.symm
  | cons c s ih =>
      intro t
      obtain ⟨first, unquoted⟩ := List.forall_mem_cons.mp unquoted
      obtain ⟨other, whole⟩ := not_or.mp (List.mem_cons.not.mp whole)
      rw [List.cons_append, parts?, first, if_neg Bool.false_ne_true, if_neg (Ne.symm other),
        ih unquoted whole, Option.map_map]
      rfl

theorem blank (blank : blanks.all isBlank = true) : Unparted blanks := by
  have plus : isBlank '+' = false := by decide
  refine plain (fun c inside => ?_) fun inside => ?_
  · exact unquoted_of_sort isBlank (by decide) (by decide) (List.all_eq_true.mp blank c inside)
  · rw [List.all_eq_true.mp blank _ inside] at plus
    cases plus

end Unparted

theorem parts?_quoted {quote : Char} (absent : quote ∉ s) (t : List Char) :
    parts? (some quote) (s ++ quote :: t) =
      (parts? none t).map ((s ++ [quote]).foldr onFirst ·) := by
  induction s with
  | nil =>
      rw [List.nil_append, parts?, if_pos rfl]
      rfl
  | cons c s ih =>
      obtain ⟨other, absent⟩ := not_or.mp (List.mem_cons.not.mp absent)
      rw [List.cons_append, parts?, if_neg (Ne.symm other), ih absent, Option.map_map]
      rfl

theorem Quotation.quote_absent (quotation : Quotation) : quotation.quote ∉ quotation.content := by
  intro inside
  have plain := quotation.plain _ inside
  rw [quotation.quoting] at plain
  cases plain

theorem Quotation.unparted (quotation : Quotation) : Unparted quotation.chars := by
  intro s
  rw [chars, List.cons_append, parts?, if_pos quotation.quoting, List.append_assoc,
    List.singleton_append, parts?_quoted quotation.quote_absent, Option.map_map]
  rfl

theorem Piece.unparted (piece : Piece vars) : Unparted piece.chars := by
  cases piece with
  | quoted quotation => exact quotation.unparted
  | counted amount => exact .plain (unquoted_of_real amount.evaluated) amount.plain

theorem foldr_onFirst (p part : List Char) (parts : List (List Char)) :
    p.foldr onFirst (part :: parts) = (p ++ part) :: parts := by
  induction p with
  | nil => rfl
  | cons c p ih => rw [List.foldr_cons, ih, onFirst, List.cons_append]

theorem parts?_joined (first : Piece vars) (rest : List (Piece vars))
    (joined : Spaced (Piece.tokens (first :: rest)) s) :
    ∃ parts, parts? none s = some parts ∧
      List.Forall₂ (fun piece part => trim part = trim piece.chars) (first :: rest) parts := by
  induction rest generalizing first s with
  | nil =>
      obtain ⟨front, blank, rfl⟩ := Spaced.one joined
      refine ⟨[front ++ first.chars], ?_, .cons (trim_blanks blank _) .nil⟩
      have whole := (Unparted.blank blank).append first.unparted []
      rw [List.append_nil] at whole
      rw [whole, parts?, Option.map_some, foldr_onFirst, List.append_nil]
  | cons second rest ih =>
      rw [Piece.tokens_cons] at joined
      obtain ⟨front, tail, blank, rfl, back, s, blank', rfl, joined⟩ := joined
      obtain ⟨parts, cut, pieces⟩ := ih second joined
      refine ⟨(front ++ first.chars ++ back) :: parts, ?_, .cons ?_ pieces⟩
      · have whole := ((Unparted.blank blank).append first.unparted).append (.blank blank')
        have plus : parts? none ('+' :: s) = some ([] :: parts) := by
          rw [parts?, if_neg (by decide), if_pos rfl, cut]
          rfl
        have shape : front ++ (first.chars ++ (back ++ (['+'] ++ s))) =
            (front ++ first.chars ++ back) ++ '+' :: s := by simp
        rw [shape, whole, plus, Option.map_some, foldr_onFirst, List.append_nil]
      · rw [trim_append_blanks _ blank', trim_blanks blank]

/-! ### Pieces as parts -/

theorem Quotation.trimmed (quotation : Quotation) : Trimmed quotation.chars := by
  have visible := visible_of_isQuote quotation.quoting
  constructor
  · rintro c ⟨⟩
    exact visible
  · intro c last
    rw [chars, ← List.cons_append, List.getLast?_concat] at last
    cases last
    exact visible

theorem Amount.chars_ne_nil (amount : Amount vars) : amount.chars ≠ [] := by
  intro empty
  have evaluated := amount.evaluated
  rw [empty] at evaluated
  cases evaluated

namespace Piece

theorem solid (piece : Piece vars) : piece.chars ≠ [] ∧ Trimmed piece.chars := by
  cases piece with
  | quoted quotation => exact ⟨List.cons_ne_nil _ _, quotation.trimmed⟩
  | counted amount => exact ⟨amount.chars_ne_nil, amount.trimmed⟩

theorem mem_tokens {pieces : List (Piece vars)} {piece : Piece vars} (member : piece ∈ pieces) :
    piece.chars ∈ tokens pieces := by
  induction pieces with
  | nil => cases member
  | cons first rest ih =>
      cases rest with
      | nil => exact List.mem_map_of_mem member
      | cons second rest =>
          rw [tokens_cons]
          rcases List.mem_cons.mp member with rfl | member
          · exact List.mem_cons_self
          · exact List.mem_cons_of_mem _ (List.mem_cons_of_mem _ (ih member))

theorem tokens_solid (pieces : List (Piece vars)) :
    ∀ token ∈ tokens pieces, token ≠ [] ∧ Trimmed token := by
  have plus : ['+'] ≠ [] ∧ Trimmed ['+'] :=
    ⟨List.cons_ne_nil _ _, trimmed_of_visible (List.forall_mem_singleton.mpr (by decide))⟩
  induction pieces with
  | nil => nofun
  | cons first rest ih =>
      cases rest with
      | nil => exact List.forall_mem_singleton.mpr first.solid
      | cons second rest =>
          rw [tokens_cons, List.forall_mem_cons, List.forall_mem_cons]
          exact ⟨first.solid, plus, ih⟩

theorem quote_of_first {piece : Piece vars} {tail : List Char} (quoting : isQuote c = true)
    (first : (piece.chars ++ tail).head? = some c) : piece.quote? = some c := by
  rw [List.head?_append, List.head?_eq_some_head piece.solid.1] at first
  cases piece with
  | quoted quotation => exact first
  | counted amount =>
      cases first
      have plain := unquoted_of_real amount.evaluated _ (List.head_mem amount.chars_ne_nil)
      exact absurd quoting (Bool.eq_false_iff.mp plain)

theorem quote_of_last {piece : Piece vars} {front : List Char} (quoting : isQuote c = true)
    (last : (front ++ piece.chars).getLast? = some c) : piece.quote? = some c := by
  rw [List.getLast?_append, List.getLast?_eq_some_getLast piece.solid.1] at last
  cases piece with
  | quoted quotation =>
      rw [← last]
      simp [quote?, chars, Quotation.chars]
  | counted amount =>
      cases last
      have plain := unquoted_of_real amount.evaluated _ (List.getLast_mem amount.chars_ne_nil)
      exact absurd quoting (Bool.eq_false_iff.mp plain)

theorem chars_of_quote? {piece : Piece vars} (literal : piece.quote? = some c) :
    isQuote c = true ∧ ∃ content, piece.chars = c :: (content ++ [c]) := by
  cases piece with
  | quoted quotation =>
      cases literal
      exact ⟨quotation.quoting, quotation.content, rfl⟩
  | counted amount => cases literal

theorem exists_quote {piece : Piece vars} (literal : piece.quote?.isSome = true) :
    ∃ c ∈ piece.chars, isQuote c = true := by
  obtain ⟨c, literal⟩ := Option.isSome_iff_exists.mp literal
  obtain ⟨quoting, content, chars⟩ := chars_of_quote? literal
  exact ⟨c, chars ▸ List.mem_cons_self, quoting⟩

end Piece

theorem quoted?_eq_some {inner : List Char} : quoted? s = some inner ↔
    ∃ quote, isQuote quote = true ∧ s = quote :: (inner ++ [quote]) := by
  cases s with
  | nil => simp [quoted?]
  | cons quote rest =>
      rw [quoted?]
      constructor
      · intro found
        split at found
        · rename_i closed
          rw [Bool.and_eq_true, beq_iff_eq] at closed
          cases found
          exact ⟨quote, closed.1, by rw [List.dropLast_append_getLast? quote closed.2]⟩
        · cases found
      · rintro ⟨other, quoting, same⟩
        cases same
        simp [quoting]

theorem quotedLiteral?_chars (quotation : Quotation) :
    quotedLiteral? quotation.chars = some quotation.content := by
  have found : quoted? quotation.chars = some quotation.content :=
    quoted?_eq_some.mpr ⟨quotation.quote, quotation.quoting, rfl⟩
  rw [quotedLiteral?, found]
  simp [Quotation.chars, quotation.quote_absent]

theorem quotedLiteral?_unquoted (unquoted : ∀ c ∈ s, isQuote c = false) :
    quotedLiteral? s = none := by
  cases found : quoted? s with
  | none => rw [quotedLiteral?, found]; rfl
  | some inner =>
      obtain ⟨quote, quoting, rfl⟩ := quoted?_eq_some.mp found
      rw [unquoted quote List.mem_cons_self] at quoting
      cases quoting

theorem part?_of_trim {piece : Piece vars} {part : List Char}
    (same : trim part = trim piece.chars) : part? vars part = some piece.text := by
  rw [part?, same, piece.solid.2.trim_eq]
  cases piece with
  | quoted quotation => rw [Piece.chars, quotedLiteral?_chars]; rfl
  | counted amount =>
      rw [Piece.chars, quotedLiteral?_unquoted (unquoted_of_real amount.evaluated),
        amount.evaluated]
      rfl

theorem mapM_part? {pieces : List (Piece vars)} {parts : List (List Char)}
    (same : List.Forall₂ (fun piece part => trim part = trim piece.chars) pieces parts) :
    parts.mapM (part? vars) = some (pieces.map Piece.text) := by
  induction same with
  | nil => rfl
  | cons same _ ih =>
      rw [List.mapM_cons, part?_of_trim same, ih]
      rfl

theorem concatenation?_joined (first : Piece vars) (rest : List (Piece vars))
    (joined : Spaced (Piece.tokens (first :: rest)) s) :
    concatenation? vars s = some (String.join ((first :: rest).map Piece.text)) := by
  obtain ⟨parts, cut, same⟩ := parts?_joined first rest joined
  rw [concatenation?, cut]
  change (parts.mapM (part? vars) >>= _) = _
  rw [mapM_part? same]
  rfl

/-! ### Which reading is taken -/

theorem begins_joined {first : Piece vars} {rest : List (Piece vars)}
    (joined : Spaced (Piece.tokens (first :: rest)) s) (trimmed : Trimmed s) :
    ∃ tail, s = first.chars ++ tail := by
  obtain ⟨more, tokens⟩ : ∃ more, Piece.tokens (first :: rest) = first.chars :: more := by
    cases rest with
    | nil => exact ⟨[], rfl⟩
    | cons second rest => exact ⟨_, Piece.tokens_cons first second rest⟩
  rw [tokens] at joined
  obtain ⟨front, tail, blank, rfl, -⟩ := joined
  cases front with
  | nil => exact ⟨tail, rfl⟩
  | cons c front =>
      rw [List.all_cons, trimmed.begins c rfl] at blank
      cases blank

theorem ends_joined {first last : Piece vars} {rest : List (Piece vars)}
    (joined : Spaced (Piece.tokens (first :: rest)) s)
    (ends : (first :: rest).getLast? = some last) : ∃ front, s = front ++ last.chars := by
  induction rest generalizing first s with
  | nil =>
      cases ends
      obtain ⟨front, -, rfl⟩ := Spaced.one joined
      exact ⟨front, rfl⟩
  | cons second rest ih =>
      rw [Piece.tokens_cons] at joined
      obtain ⟨front, tail, -, rfl, back, tail, -, rfl, joined⟩ := joined
      rw [List.getLast?_cons_cons] at ends
      obtain ⟨middle, rfl⟩ := ih joined ends
      exact ⟨front ++ (first.chars ++ (back ++ '+' :: middle)), by simp⟩

theorem suffix_of_cut {p t left right : List Char}
    (found : cut? c (p ++ c :: t) = some (left, right)) : t <:+ right := by
  have whole := cut?_eq_some found
  have absent := not_mem_of_cut found
  rcases List.append_eq_append_iff.mp whole with ⟨more, rfl, same⟩ | ⟨more, rfl, same⟩
  · cases more with
    | nil =>
        cases same
        exact List.suffix_rfl
    | cons d more =>
        cases same
        exact absurd (List.mem_append_right p List.mem_cons_self) absent
  · cases more with
    | nil =>
        cases same
        exact List.suffix_rfl
    | cons d more =>
        cases same
        exact ⟨more ++ [c], by simp⟩

theorem labelled?_joined {first : Piece vars} {rest : List (Piece vars)}
    (joined : Spaced (Piece.tokens (first :: rest)) s)
    (later : ∃ piece ∈ rest, piece.quote?.isSome = true) : labelled? vars s = none := by
  obtain ⟨piece, member, literal⟩ := later
  obtain ⟨c, inside, quoting⟩ := piece.exists_quote literal
  obtain ⟨second, rest, rfl⟩ := List.exists_cons_of_ne_nil (List.ne_nil_of_mem member)
  rw [Piece.tokens_cons] at joined
  obtain ⟨front, tail, -, rfl, back, tail, -, rfl, joined⟩ := joined
  have behind : c ∈ tail := joined.mem (Piece.mem_tokens member) inside
  have shape : front ++ (first.chars ++ (back ++ (['+'] ++ tail))) =
      (front ++ first.chars ++ back) ++ '+' :: tail := by simp
  rw [shape, labelled?]
  -- What follows the first plus sign of all holds that quote, wherever the sign stands.
  cases found : cut? '+' ((front ++ first.chars ++ back) ++ '+' :: tail) with
  | none => rfl
  | some sides =>
      obtain ⟨left, right⟩ := sides
      have failed : (real vars right).toOption = none :=
        real_eq_none_of_quote quoting ((suffix_of_cut found).mem behind)
      change (quotedLiteral? (trim left) >>= fun label => _) = none
      cases quotedLiteral? (trim left) with
      | none => rfl
      | some label =>
          change ((real vars right).toOption >>= _) = none
          rw [failed]
          rfl

/-- The first piece and the last one are literals in the same quotes. -/
def Enclosing (first last : Piece vars) : Prop :=
  ∃ quote, first.quote? = some quote ∧ last.quote? = some quote

theorem enclosing_of_quoted? {first last : Piece vars} {rest : List (Piece vars)}
    {inner : List Char} (joined : Spaced (Piece.tokens (first :: rest)) s) (trimmed : Trimmed s)
    (ends : (first :: rest).getLast? = some last) (found : quoted? s = some inner) :
    Enclosing first last := by
  obtain ⟨quote, quoting, whole⟩ := quoted?_eq_some.mp found
  obtain ⟨tail, begins⟩ := begins_joined joined trimmed
  obtain ⟨front, ends⟩ := ends_joined joined ends
  have head : (first.chars ++ tail).head? = some quote := by
    rw [← begins, whole]
    rfl
  have foot : (front ++ last.chars).getLast? = some quote := by
    rw [← ends, whole, ← List.cons_append, List.getLast?_concat]
  exact ⟨quote, Piece.quote_of_first quoting head, Piece.quote_of_last quoting foot⟩

theorem quoted?_of_enclosing {first last : Piece vars} {rest : List (Piece vars)}
    (joined : Spaced (Piece.tokens (first :: rest)) s) (trimmed : Trimmed s)
    (ends : (first :: rest).getLast? = some last) (enclosing : Enclosing first last) :
    ∃ quote inner, first.quote? = some quote ∧ s = quote :: (inner ++ [quote]) ∧
      quoted? s = some inner := by
  obtain ⟨quote, opens, closes⟩ := enclosing
  obtain ⟨tail, begins⟩ := begins_joined joined trimmed
  obtain ⟨front, ends⟩ := ends_joined joined ends
  obtain ⟨quoting, content, chars⟩ := Piece.chars_of_quote? opens
  obtain ⟨-, content', chars'⟩ := Piece.chars_of_quote? closes
  obtain ⟨inner, whole⟩ : ∃ inner, s = quote :: (inner ++ [quote]) := by
    rw [chars, List.cons_append] at begins
    rw [chars', ← List.cons_append, ← List.append_assoc] at ends
    cases front with
    | nil => exact ⟨content', ends⟩
    | cons c front =>
        have head : quote = c := (List.cons.inj (begins.symm.trans ends)).1
        exact ⟨front ++ quote :: content', by rw [ends, ← head]; rfl⟩
  exact ⟨quote, inner, opens, whole, quoted?_eq_some.mpr ⟨quote, quoting, whole⟩⟩

/-- Pieces with plus signs between them, of which one behind the first is a literal, stand for the
literals and the numbers one after the other, whatever the blanks between them are. Only where the
whole text begins and ends with the same quote it is taken for one literal. -/
theorem text_joins_pieces (vars : Variables) (first last : Piece vars) (rest : List (Piece vars))
    (s blanks : List Char) (joined : Spaced (Piece.tokens (first :: rest)) s)
    (blank : blanks.all isBlank = true) (ends : (first :: rest).getLast? = some last)
    (later : ∃ piece ∈ rest, piece.quote?.isSome = true) :
    (¬ Enclosing first last →
      text vars (s ++ blanks) = .ok (String.join ((first :: rest).map Piece.text))) ∧
    (Enclosing first last →
      ∃ quote inner, first.quote? = some quote ∧
        trim (s ++ blanks) = quote :: (inner ++ [quote]) ∧
        text vars (s ++ blanks) = .ok (String.ofList inner)) := by
  have joined : Spaced (Piece.tokens (first :: rest)) (trim (s ++ blanks)) := by
    rw [trim_append_blanks s blank]
    exact joined.trim (Piece.tokens_solid _)
  have trimmed := trimmed_trim (s ++ blanks)
  rw [text]
  generalize trim (s ++ blanks) = t at joined trimmed
  constructor
  · intro apart
    have unquoted : quoted? t = none := by
      cases found : quoted? t with
      | none => rfl
      | some inner => exact absurd (enclosing_of_quoted? joined trimmed ends found) apart
    have failed : (real vars t).toOption = none := by
      obtain ⟨piece, member, literal⟩ := later
      obtain ⟨c, inside, quoting⟩ := piece.exists_quote literal
      have listed := Piece.mem_tokens (List.mem_cons_of_mem first member)
      exact real_eq_none_of_quote quoting (joined.mem listed inside)
    cases evaluated : real vars t with
    | ok x =>
        rw [evaluated] at failed
        cases failed
    | error fault =>
        rw [unquoted, labelled?_joined joined later, concatenation?_joined first rest joined]
        rfl
  · intro enclosing
    obtain ⟨quote, inner, same, whole, found⟩ := quoted?_of_enclosing joined trimmed ends enclosing
    refine ⟨quote, inner, same, whole, ?_⟩
    rw [found]

def five : Piece fives :=
  .counted ⟨['x'], 5, by decide, trimmed_of_visible (List.forall_mem_singleton.mpr rfl), rfl⟩

theorem text_joins_label_number_unit :
    text fives ("\"a+\" +x\t+'b'".toList ++ [' ']) = .ok "a+5.0b" := by
  let label : Piece fives := .quoted ⟨'"', ['a', '+'], rfl, by simp [isQuote]⟩
  let unit : Piece fives := .quoted ⟨'\'', ['b'], rfl, List.forall_mem_singleton.mpr rfl⟩
  have joined : Spaced (Piece.tokens [label, five, unit]) "\"a+\" +x\t+'b'".toList :=
    ⟨[], _, rfl, rfl, [' '], _, rfl, rfl, [], _, rfl, rfl, ['\t'], _, rfl, rfl, [], _, rfl, rfl,
      rfl⟩
  have apart : ¬ Enclosing label unit := by
    rintro ⟨quote, opens, closes⟩
    cases opens
    cases closes
  have literal : unit.quote?.isSome = true := rfl
  have joins := (text_joins_pieces fives label unit [five, unit] _ [' '] joined rfl rfl
    ⟨unit, by simp, literal⟩).1 apart
  rw [joins]
  decide +kernel

theorem text_of_two_literals_keeps_quotes :
    ∃ first second : Piece .empty, first.quote? = some '\'' ∧ second.quote? = some '\'' ∧
      Spaced (Piece.tokens [first, second]) "'a' + 'b'".toList ∧
      String.join ([first, second].map Piece.text) = "ab" ∧
      text .empty "'a' + 'b'".toList = .ok "a' + 'b" := by
  refine ⟨.quoted ⟨'\'', ['a'], rfl, List.forall_mem_singleton.mpr rfl⟩,
    .quoted ⟨'\'', ['b'], rfl, List.forall_mem_singleton.mpr rfl⟩, rfl, rfl, ?_, by decide +kernel,
    rfl⟩
  exact ⟨[], _, rfl, rfl, [' '], _, rfl, rfl, [' '], _, rfl, rfl, rfl⟩

end Easel.Expression
