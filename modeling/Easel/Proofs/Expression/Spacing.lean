import Easel.Expression.Token
import Easel.Proofs.Text.Trimming

/-! Tokens with blanks between them, and what the readers of tokens do there. A reader only depends
on what stands behind the blanks, and the first character there tells which tokens can not come
next. -/

namespace Easel.Text

def first? (s : List Char) : Option Char := (trimStart s).head?

/-- The text ends, or one of the signs comes next. -/
def Before (signs s : List Char) : Prop := ∀ c, first? s = some c → c ∈ signs

/-- The text spells the tokens, each with any blanks in front. -/
def Spaced : List (List Char) → List Char → Prop
  | [], s => s = []
  | token :: tokens, s => ∃ blanks rest, blanks.all isBlank = true ∧ s = blanks ++ (token ++ rest) ∧
    Spaced tokens rest

variable {blanks s rest : List Char} {c : Char}

theorem first?_blanks (blank : blanks.all isBlank = true) (s : List Char) :
    first? (blanks ++ s) = first? s := by
  unfold first?
  rw [trimStart_blanks blank]

theorem first?_cons (visible : isBlank c = false) (s : List Char) : first? (c :: s) = some c := by
  unfold first?
  rw [trimStart_cons visible]
  rfl

theorem first?_token (blank : blanks.all isBlank = true) (visible : isBlank c = false)
    (s : List Char) : first? (blanks ++ c :: s) = some c := by
  rw [first?_blanks blank, first?_cons visible]

theorem first?_of_head? (visible : isBlank c = false) (next : s.head? = some c) :
    first? s = some c := by
  obtain ⟨tail, rfl⟩ := List.head?_eq_some_iff.mp next
  exact first?_cons visible tail

theorem length_pos_of_first? (found : first? s = some c) : 0 < s.length := by
  cases s with
  | nil => cases found
  | cons d s => exact Nat.zero_lt_succ _

theorem first?_eq_none (blank : blanks.all isBlank = true) : first? blanks = none := by
  have same := first?_blanks blank []
  rw [List.append_nil] at same
  exact same

theorem isBlank_of_first? (found : first? s = some c) : isBlank c = false := by
  unfold first? trimStart at found
  have none := List.head?_dropWhile_not isBlank s
  rw [found] at none
  simpa using none

theorem trim_isEmpty (s : List Char) : (trim s).isEmpty = (first? s).isNone := by
  cases trimmed : trimStart s with
  | nil => simp [trim, trimEnd, first?, trimmed]
  | cons c tail =>
      have found : first? s = some c := by
        rw [first?, trimmed]
        rfl
      have visible := isBlank_of_first? found
      have kept : ¬ ((c :: tail).reverse.dropWhile isBlank) = [] := by
        rw [List.dropWhile_eq_nil_iff]
        intro blank
        have blank := blank c (by simp)
        rw [visible] at blank
        cases blank
      rw [found, trim, trimmed, trimEnd]
      simpa using kept

theorem Before.head? {signs : List Char} (before : Before signs rest) (next : rest.head? = some c) :
    isBlank c = true ∨ c ∈ signs := by
  obtain _ | ⟨d, rest⟩ := rest
  · cases next
  · cases next
    cases visible : isBlank c with
    | true => exact .inl rfl
    | false => exact .inr (before c (first?_cons visible rest))

theorem Before.mono {signs more : List Char} (before : Before signs s)
    (subset : signs ⊆ more) : Before more s :=
  fun c found => subset (before c found)

theorem before_blanks (blank : blanks.all isBlank = true) (signs : List Char) :
    Before signs blanks := by
  intro c found
  rw [first?_eq_none blank] at found
  cases found

theorem before_token {signs : List Char} (blank : blanks.all isBlank = true)
    (visible : isBlank c = false) (member : c ∈ signs) (s : List Char) :
    Before signs (blanks ++ c :: s) := by
  intro d found
  rw [first?_token blank visible] at found
  cases found
  exact member

namespace Spaced

variable {tokens more : List (List Char)} {token : List Char}

theorem append (spaced : Spaced (tokens ++ more) s) :
    ∃ front back, s = front ++ back ∧ Spaced tokens front ∧ Spaced more back := by
  induction tokens generalizing s with
  | nil => exact ⟨[], s, rfl, rfl, spaced⟩
  | cons token tokens ih =>
      obtain ⟨blanks, rest, blank, rfl, spaced⟩ := spaced
      obtain ⟨front, back, rfl, first, second⟩ := ih spaced
      refine ⟨blanks ++ (token ++ front), back, ?_, ⟨blanks, front, blank, rfl, first⟩, second⟩
      simp only [List.append_assoc]

theorem one (spaced : Spaced [token] s) :
    ∃ blanks, blanks.all isBlank = true ∧ s = blanks ++ token := by
  obtain ⟨blanks, rest, blank, rfl, rfl⟩ := spaced
  exact ⟨blanks, blank, by rw [List.append_nil]⟩

theorem single (blank : blanks.all isBlank = true) (token : List Char) :
    Spaced [token] (blanks ++ token) :=
  ⟨blanks, [], blank, by rw [List.append_nil], rfl⟩

theorem join {front back : List Char} (first : Spaced tokens front) (second : Spaced more back) :
    Spaced (tokens ++ more) (front ++ back) := by
  induction tokens generalizing front with
  | nil =>
      cases first
      exact second
  | cons token tokens ih =>
      obtain ⟨blanks, rest, blank, rfl, first⟩ := first
      refine ⟨blanks, rest ++ back, blank, ?_, ih first⟩
      simp only [List.append_assoc]

theorem mem (spaced : Spaced tokens s) (member : token ∈ tokens) : token ⊆ s := by
  induction tokens generalizing s with
  | nil => cases member
  | cons head tokens ih =>
      obtain ⟨blanks, rest, -, rfl, spaced⟩ := spaced
      intro c inside
      rw [List.mem_append, List.mem_append]
      rcases List.mem_cons.mp member with rfl | member
      · exact .inr (.inl inside)
      · exact .inr (.inr (ih spaced member inside))

theorem between (spaced : Spaced (tokens ++ token :: more) s) :
    ∃ front blanks back, blanks.all isBlank = true ∧ s = front ++ (blanks ++ (token ++ back)) ∧
      Spaced tokens front ∧ Spaced more back := by
  obtain ⟨front, rest, rfl, first, blanks, back, blank, rfl, second⟩ := spaced.append
  exact ⟨front, blanks, back, blank, rfl, first, second⟩

theorem enclosed (spaced : Spaced (['('] :: (tokens ++ [[')']])) s) :
    ∃ blanks body blanks', blanks.all isBlank = true ∧ blanks'.all isBlank = true ∧
      s = blanks ++ '(' :: (body ++ (blanks' ++ [')'])) ∧ Spaced tokens body := by
  obtain ⟨blanks, rest, blank, rfl, spaced⟩ := spaced
  obtain ⟨body, close, rfl, first, last⟩ := spaced.append
  obtain ⟨blanks', blank', rfl⟩ := last.one
  exact ⟨blanks, body, blanks', blank, blank', rfl, first⟩

section

variable (solid : ∀ token ∈ tokens, token ≠ [] ∧ Trimmed token)

include solid

theorem ends (spaced : Spaced tokens s) {c : Char} (last : s.getLast? = some c) :
    isBlank c = false := by
  induction tokens generalizing s c with
  | nil =>
      cases spaced
      cases last
  | cons token tokens ih =>
      obtain ⟨blanks, rest, -, rfl, spaced⟩ := spaced
      obtain ⟨⟨filled, trimmed⟩, solid⟩ := List.forall_mem_cons.mp solid
      have whole := List.getLast?_eq_some_getLast filled
      rw [List.getLast?_append, List.getLast?_append] at last
      cases behind : rest.getLast? with
      | some d =>
          rw [behind] at last
          cases last
          exact ih solid spaced behind
      | none =>
          rw [behind, whole] at last
          cases last
          exact trimmed.ends _ whole

theorem trim (spaced : Spaced tokens s) : Spaced tokens (Text.trim s) := by
  have ends : ∀ c, s.getLast? = some c → isBlank c = false := fun c => spaced.ends solid
  cases tokens with
  | nil =>
      cases spaced
      rfl
  | cons token tokens =>
      obtain ⟨blanks, rest, blank, rfl, spaced⟩ := spaced
      obtain ⟨⟨filled, trimmed⟩, -⟩ := List.forall_mem_cons.mp solid
      have first := List.head?_eq_some_head filled
      have inner : Trimmed (token ++ rest) := by
        constructor
        · intro c next
          rw [List.head?_append, first] at next
          cases next
          exact trimmed.begins _ first
        · intro c last
          apply ends c
          rw [List.getLast?_append, last]
          rfl
      rw [trim_blanks blank, inner.trim_eq]
      exact ⟨[], rest, rfl, rfl, spaced⟩

end

end Spaced

theorem spaced_of_trimStart {token : List Char} (found : trimStart s = token ++ rest) :
    ∃ front, s = front ++ rest ∧ Spaced [token] front := by
  refine ⟨s.takeWhile isBlank ++ token, ?_, .single List.all_takeWhile token⟩
  rw [List.append_assoc, ← found]
  exact List.takeWhile_append_dropWhile.symm

end Easel.Text

namespace Easel.Token

open Text

variable {blanks s rest signs : List Char} {c : Char}

theorem char?_blanks (blank : blanks.all isBlank = true) (c : Char) (s : List Char) :
    char? c (blanks ++ s) = char? c s := by
  unfold char?
  rw [trimStart_blanks blank]

theorem text?_blanks (blank : blanks.all isBlank = true) (t s : List Char) :
    text? t (blanks ++ s) = text? t s := by
  unfold text?
  rw [trimStart_blanks blank]

theorem word?_blanks (blank : blanks.all isBlank = true) (word s : List Char) :
    word? word (blanks ++ s) = word? word s := by
  unfold word?
  rw [trimStart_blanks blank]

theorem name?_blanks (blank : blanks.all isBlank = true) (s : List Char) :
    name? (blanks ++ s) = name? s := by
  unfold name?
  rw [trimStart_blanks blank]

theorem digits?_blanks (blank : blanks.all isBlank = true) (s : List Char) :
    digits? (blanks ++ s) = digits? s := by
  unfold digits?
  rw [trimStart_blanks blank]

theorem char?_cons (visible : isBlank c = false) (s : List Char) : char? c (c :: s) = some s := by
  unfold char?
  rw [trimStart_cons visible]
  exact if_pos rfl

theorem char?_eq_none (other : first? s ≠ some c) : char? c s = none := by
  unfold char?
  unfold first? at other
  split
  · rfl
  · rename_i d rest found
    rw [found] at other
    exact if_neg fun same => other (congrArg some same)

theorem char?_eq_some_iff : char? c s = some rest ↔ trimStart s = c :: rest := by
  unfold char?
  split
  · rename_i empty
    rw [empty]
    simp
  · rename_i d tail found
    rw [found]
    split
    · rename_i same
      simp [same]
    · rename_i other
      simp [other]

theorem char?_eq_some (found : char? c s = some rest) :
    ∃ front, s = front ++ rest ∧ Spaced [[c]] front :=
  spaced_of_trimStart (char?_eq_some_iff.mp found)

theorem name?_eq_some {name : List Char} (found : name? s = some (name, rest)) :
    isName name = true ∧ ∃ front, s = front ++ rest ∧ Spaced [name] front := by
  unfold name? at found
  split at found
  · cases found
  · rename_i c tail next
    split at found
    · rename_i start
      cases found
      refine ⟨?_, spaced_of_trimStart ?_⟩
      · rw [isName, start, List.all_takeWhile]
        rfl
      · rw [next, List.cons_append, List.takeWhile_append_dropWhile]
    · cases found

def isNumeric (c : Char) : Bool := Decimal.isDigit c || c == '.'

theorem digits?_eq_some {digits : List Char} (found : digits? s = some (digits, rest)) :
    digits.all isNumeric = true ∧ ∃ front, s = front ++ rest ∧ Spaced [digits] front := by
  have numeric (t : List Char) : (t.takeWhile Decimal.isDigit).all isNumeric = true := by
    rw [List.all_eq_true]
    intro c member
    rw [isNumeric, List.mem_takeWhile_imp member]
    rfl
  have whole := List.takeWhile_append_dropWhile (p := Decimal.isDigit) (l := trimStart s)
  unfold digits? at found
  dsimp only at found
  split at found
  · rename_i tail point
    cases found
    refine ⟨?_, spaced_of_trimStart ?_⟩
    · rw [List.all_append, List.all_cons, numeric, numeric]
      rfl
    · rw [List.append_assoc, List.cons_append, List.takeWhile_append_dropWhile, ← point, whole]
  · split at found
    · cases found
    · cases found
      exact ⟨numeric _, spaced_of_trimStart whole.symm⟩

theorem char?_token (blank : blanks.all isBlank = true) (visible : isBlank c = false)
    (s : List Char) : char? c (blanks ++ c :: s) = some s := by
  rw [char?_blanks blank, char?_cons visible]

theorem char?_other {d : Char} (blank : blanks.all isBlank = true) (visible : isBlank d = false)
    (other : c ≠ d) (s : List Char) : char? c (blanks ++ d :: s) = none := by
  apply char?_eq_none
  rw [first?_token blank visible]
  intro same
  exact other (Option.some.inj same).symm

theorem char?_of_before (before : Before signs s) (absent : c ∉ signs) : char? c s = none :=
  char?_eq_none fun found => absent (before c found)

theorem dropBeginning?_append (t s : List Char) : dropBeginning? t (t ++ s) = some s := by
  induction t with
  | nil => rfl
  | cons c t ih => exact (if_pos rfl).trans ih

theorem text?_token (blank : blanks.all isBlank = true) (visible : isBlank c = false)
    (t s : List Char) : text? (c :: t) (blanks ++ c :: (t ++ s)) = some s := by
  rw [text?, trimStart_blanks blank, trimStart_cons visible]
  exact dropBeginning?_append (c :: t) s

theorem text?_eq_none {t : List Char} (other : first? s ≠ some c) : text? (c :: t) s = none := by
  unfold text?
  unfold first? at other
  cases found : trimStart s with
  | nil => rfl
  | cons d rest =>
      rw [found] at other
      exact if_neg fun same => other (congrArg some same.symm)

theorem text?_of_before {t : List Char} (before : Before signs s) (absent : c ∉ signs) :
    text? (c :: t) s = none :=
  text?_eq_none fun found => absent (before c found)

end Easel.Token
