import Easel.Proofs.Expression.Spacing
import Easel.Proofs.Text.Words
import Easel.Scanner

/-! What the readers of a scanner take from a text: all blanks in front, and then exactly the token
that they report. -/

namespace Easel.Text

/-- The longest beginning of a text that is of a kind. -/
structure Longest (kind : List Char → Prop) (text token : List Char) : Prop where
  begins : token <+: text
  fits : kind token
  longest : ∀ other, other <+: text → kind other → other.length ≤ token.length

theorem longest_of_next {kind : List Char → Prop} {token rest : List Char}
    (closed : ∀ front c back, kind (front ++ [c] ++ back) → kind (front ++ [c]))
    (fits : kind token) (stops : ∀ c, rest.head? = some c → ¬ kind (token ++ [c])) :
    Longest kind (token ++ rest) token := by
  refine ⟨List.prefix_append token rest, fits, ?_⟩
  intro other begins fitting
  by_contra longer
  obtain ⟨more, rfl⟩ := List.prefix_of_prefix_length_le (List.prefix_append token rest) begins
    (Nat.le_of_not_le longer)
  obtain ⟨back, whole⟩ := (List.prefix_append_right_inj token).mp begins
  cases more with
  | nil => exact longer (by rw [List.append_nil])
  | cons c more =>
      apply stops c
      · rw [← whole]
        rfl
      · apply closed token c more
        rw [List.append_assoc]
        exact fitting

theorem eq_false_of_head?_dropWhile {sort : Char → Bool} {text : List Char} {c : Char}
    (next : (text.dropWhile sort).head? = some c) : sort c = false := by
  have other := List.head?_dropWhile_not sort text
  rw [next] at other
  exact other

theorem longest_takeWhile (sort : Char → Bool) (text : List Char) :
    Longest (fun s => s.all sort = true) text (text.takeWhile sort) := by
  have whole := List.takeWhile_append_dropWhile (p := sort) (l := text)
  conv => arg 2; rw [← whole]
  apply longest_of_next
  · intro front c back all
    rw [List.all_append, Bool.and_eq_true] at all
    exact all.1
  · exact List.all_takeWhile
  · intro c next all
    have other := eq_false_of_head?_dropWhile next
    rw [List.all_append, List.all_cons, other] at all
    simp at all

theorem longest_name {c : Char} {rest : List Char} (start : isNameStart c = true) :
    Longest (fun s => isName s = true) (c :: rest) (c :: rest.takeWhile isNameChar) := by
  obtain ⟨begins, named, longest⟩ := longest_takeWhile isNameChar rest
  refine ⟨(List.prefix_cons_inj c).mpr begins, ?_, ?_⟩
  · rw [isName, start, named]
    rfl
  · intro other begins name
    cases other with
    | nil => cases name
    | cons d other =>
        obtain ⟨-, inner⟩ := List.cons_prefix_cons.mp begins
        rw [isName, Bool.and_eq_true] at name
        exact Nat.succ_le_succ (longest other inner name.2)

structure DigitRun (s : List Char) : Prop where
  numeric : s.all Token.isNumeric = true
  pointed : s.count '.' ≤ 1

theorem numeric_and_pointless {s : List Char} (digits : s.all Decimal.isDigit = true) :
    s.all Token.isNumeric = true ∧ s.count '.' = 0 := by
  rw [List.all_eq_true] at digits
  constructor
  · rw [List.all_eq_true]
    intro c member
    rw [Token.isNumeric, digits c member]
    rfl
  · rw [List.count_eq_zero]
    intro member
    exact absurd (digits '.' member) (by decide)

theorem DigitRun.shorten (front : List Char) (c : Char) (back : List Char)
    (run : DigitRun (front ++ [c] ++ back)) : DigitRun (front ++ [c]) := by
  obtain ⟨numeric, pointed⟩ := run
  rw [List.all_append, Bool.and_eq_true] at numeric
  rw [List.count_append] at pointed
  exact ⟨numeric.1, by omega⟩

section

variable {whole fraction rest : List Char} (digits : whole.all Decimal.isDigit = true)

include digits

theorem longest_digits (stops : ∀ c, rest.head? = some c → Token.isNumeric c = false) :
    Longest DigitRun (whole ++ rest) whole := by
  obtain ⟨numeric, pointless⟩ := numeric_and_pointless digits
  refine longest_of_next DigitRun.shorten ⟨numeric, by omega⟩ ?_
  rintro c next ⟨more, -⟩
  rw [List.all_append, List.all_cons, stops c next] at more
  simp at more

theorem longest_pointed (places : fraction.all Decimal.isDigit = true)
    (stops : ∀ c, rest.head? = some c → Decimal.isDigit c = false) :
    Longest DigitRun (whole ++ '.' :: fraction ++ rest) (whole ++ '.' :: fraction) := by
  obtain ⟨numeric, pointless⟩ := numeric_and_pointless digits
  obtain ⟨numeric', pointless'⟩ := numeric_and_pointless places
  refine longest_of_next DigitRun.shorten ⟨?_, ?_⟩ ?_
  · rw [List.all_append, List.all_cons, numeric, numeric']
    rfl
  · rw [List.count_append, List.count_cons_self, pointless, pointless']
  · rintro c next ⟨more, points⟩
    -- Only a second point could come next.
    simp only [List.all_append, List.all_cons, Bool.and_eq_true, Token.isNumeric,
      stops c next] at more
    have second : c = '.' := by simpa using more.2.1
    rw [List.count_append, List.count_append, List.count_cons_self, second] at points
    simp at points

end

end Easel.Text

namespace Easel.Token

open Text

theorem digits?_cases (s : List Char) :
    (∃ whole fraction rest, whole.all Decimal.isDigit = true ∧ fraction.all Decimal.isDigit = true ∧
      (∀ c, rest.head? = some c → Decimal.isDigit c = false) ∧
      trimStart s = whole ++ '.' :: fraction ++ rest ∧
      digits? s = some (whole ++ '.' :: fraction, rest)) ∨
    ∃ whole rest, whole.all Decimal.isDigit = true ∧
      (∀ c, rest.head? = some c → isNumeric c = false) ∧ trimStart s = whole ++ rest ∧
      digits? s = if whole = [] then none else some (whole, rest) := by
  have whole := List.takeWhile_append_dropWhile (p := Decimal.isDigit) (l := trimStart s)
  unfold digits?
  dsimp only
  split
  · rename_i tail point
    refine .inl ⟨_, _, _, List.all_takeWhile, List.all_takeWhile,
      fun c => eq_false_of_head?_dropWhile, ?_, rfl⟩
    rw [List.append_assoc, List.cons_append, List.takeWhile_append_dropWhile, ← point, whole]
  · rename_i _ pointless
    refine .inr ⟨_, _, List.all_takeWhile, fun c next => ?_, whole.symm, by simp⟩
    obtain ⟨tail, found⟩ := List.head?_eq_some_iff.mp next
    have other : c ≠ '.' := by
      rintro rfl
      exact pointless tail found
    rw [isNumeric, eq_false_of_head?_dropWhile next, Bool.false_or]
    exact beq_eq_false_iff_ne.mpr other

theorem digits?_longest (s : List Char) :
    (∃ digits rest, digits? s = some (digits, rest) ∧ digits ≠ [] ∧
      trimStart s = digits ++ rest ∧ Longest DigitRun (trimStart s) digits) ∨
    digits? s = none ∧ Longest DigitRun (trimStart s) [] := by
  obtain ⟨whole, fraction, rest, digits, places, stops, text, found⟩ |
    ⟨whole, rest, digits, stops, text, found⟩ := digits?_cases s
  · refine .inl ⟨_, rest, found, by simp, text, ?_⟩
    rw [text]
    exact longest_pointed digits places stops
  · have longest := longest_digits digits stops
    rw [← text] at longest
    by_cases empty : whole = []
    · rw [if_pos empty] at found
      rw [empty] at longest
      exact .inr ⟨found, longest⟩
    · rw [if_neg empty] at found
      exact .inl ⟨whole, rest, found, empty, text, longest⟩

theorem name?_longest (s : List Char) :
    (∃ name rest, name? s = some (name, rest) ∧ trimStart s = name ++ rest ∧
      Longest (fun t => isName t = true) (trimStart s) name) ∨
    name? s = none ∧ ∀ name, name <+: trimStart s → isName name = false := by
  unfold name?
  split
  · rename_i empty
    refine .inr ⟨rfl, fun name begins => ?_⟩
    rw [empty, List.prefix_nil] at begins
    rw [begins]
    rfl
  · rename_i c rest found
    rw [found]
    split
    · rename_i start
      refine .inl ⟨_, _, rfl, ?_, longest_name start⟩
      rw [List.cons_append, List.takeWhile_append_dropWhile]
    · rename_i other
      refine .inr ⟨rfl, fun name begins => ?_⟩
      cases name with
      | nil => rfl
      | cons d name =>
          obtain ⟨rfl, -⟩ := List.cons_prefix_cons.mp begins
          rw [isName, Bool.eq_false_iff.mpr other]
          rfl

/-- A word in any letter case at the beginning, and no character of a name behind it. -/
def WholeWord (word text token : List Char) : Prop :=
  sameWord token word = true ∧
    ∃ rest, text = token ++ rest ∧ ∀ c, rest.head? = some c → isNameChar c = false

theorem word?_eq_some {word s rest : List Char} (found : word? word s = some rest) :
    ∃ token, trimStart s = token ++ rest ∧ WholeWord word (trimStart s) token := by
  unfold word? at found
  dsimp only at found
  split at found
  · rename_i accepted
    cases found
    rw [Bool.and_eq_true, Bool.not_eq_true', Option.any_eq_false] at accepted
    have whole := (List.take_append_drop word.length (trimStart s)).symm
    exact ⟨_, whole, accepted.1, _, whole, accepted.2⟩
  · cases found

theorem word?_of_wholeWord {word s token : List Char} (whole : WholeWord word (trimStart s) token) :
    word? word s ≠ none := by
  obtain ⟨same, rest, spelled, ends⟩ := whole
  have size := length_of_sameWord same
  have left : rest.head?.any isNameChar = false := by
    rw [Option.any_eq_false]
    exact ends
  rw [word?, spelled, ← size, List.take_left, List.drop_left]
  simp [same, left]

end Easel.Token

namespace Easel.Scanner

open Text

/-- The operations of a scanner that move it forward. -/
inductive Reader where
  | skipBlanks
  | peek
  | atEnd
  | eat (c : Char)
  | eatText (t : String)
  | eatWord (word : String)
  | name
  | number

namespace Reader

def Answer : Reader → Type
  | skipBlanks => Unit
  | peek => Option Char
  | atEnd | eat _ | eatText _ | eatWord _ => Bool
  | name => Option String
  | number => Option (Except Error Float)

def run : (reader : Reader) → Scanner → Option (reader.Answer × Scanner)
  | skipBlanks, s => s.skipBlanks.map ((), ·)
  | peek, s => s.peek
  | atEnd, s => s.atEnd
  | eat c, s => s.eat c
  | eatText t, s => s.eatText t
  | eatWord word, s => s.eatWord word
  | name, s => s.name
  | number, s => s.number

def found (s : List Char) : Option (List Char) → Bool × List Char
  | some rest => (true, rest)
  | none => (false, trimStart s)

/-- What a reader finds in a text of tokens, and the text that it leaves. -/
def find : (reader : Reader) → List Char → reader.Answer × List Char
  | skipBlanks, s => ((), trimStart s)
  | peek, s => ((trimStart s).head?, trimStart s)
  | atEnd, s => ((trimStart s).isEmpty, trimStart s)
  | eat c, s => found s (Token.char? c s)
  | eatText t, s => found s (Token.text? t.toList s)
  | eatWord word, s => found s (Token.word? word.toList s)
  | name, s => match Token.name? s with
    | some (token, rest) => (some (String.ofList token), rest)
    | none => (none, trimStart s)
  | number, s => match Token.digits? s with
    | some (digits, rest) => (some (Token.value digits), rest)
    | none => (none, trimStart s)

end Reader

/-- The token that a reader takes from a text without blanks in front, and its answer. -/
inductive Takes (text : List Char) : (reader : Reader) → List Char → reader.Answer → Prop
  | skipBlanks : Takes text .skipBlanks [] ()
  | peek : Takes text .peek [] text.head?
  | atEnd : Takes text .atEnd [] text.isEmpty
  | character {c : Char} (next : text.head? = some c) : Takes text (.eat c) [c] true
  | noCharacter {c : Char} (other : text.head? ≠ some c) : Takes text (.eat c) [] false
  | text {t : String} (begins : t.toList <+: text) : Takes text (.eatText t) t.toList true
  | noText {t : String} (other : ¬ t.toList <+: text) : Takes text (.eatText t) [] false
  | word {word : String} {token : List Char} (whole : Token.WholeWord word.toList text token) :
      Takes text (.eatWord word) token true
  | noWord {word : String} (other : ∀ token, ¬ Token.WholeWord word.toList text token) :
      Takes text (.eatWord word) [] false
  | name {name : List Char} (longest : Longest (fun s => isName s = true) text name) :
      Takes text .name name (some (String.ofList name))
  | noName (other : ∀ name, name <+: text → isName name = false) : Takes text .name [] none
  | number {digits : List Char} (filled : digits ≠ []) (longest : Longest DigitRun text digits) :
      Takes text .number digits (some (Token.value digits))
  | noNumber (longest : Longest DigitRun text []) : Takes text .number [] none

theorem found_takes (takes : List Char → Bool → Prop) {s : List Char} {token? : Option (List Char)}
    (taken : ∀ rest, token? = some rest →
      ∃ token, trimStart s = token ++ rest ∧ takes token true)
    (missing : token? = none → takes [] false) :
    ∃ token, trimStart s = token ++ (Reader.found s token?).2 ∧
      takes token (Reader.found s token?).1 := by
  cases token? with
  | none => exact ⟨[], rfl, missing rfl⟩
  | some rest => exact taken rest rfl

theorem Reader.takes (reader : Reader) (s : List Char) :
    ∃ token, trimStart s = token ++ (reader.find s).2 ∧
      Takes (trimStart s) reader token (reader.find s).1 := by
  cases reader with
  | skipBlanks => exact ⟨[], rfl, .skipBlanks⟩
  | peek => exact ⟨[], rfl, .peek⟩
  | atEnd => exact ⟨[], rfl, .atEnd⟩
  | eat c =>
      refine found_takes (Takes _ (.eat c)) ?_ ?_
      · intro rest found
        have next := Token.char?_eq_some_iff.mp found
        refine ⟨[c], next, .character ?_⟩
        rw [next]
        rfl
      · intro missing
        refine .noCharacter fun next => ?_
        obtain ⟨rest, next⟩ := List.head?_eq_some_iff.mp next
        rw [Token.char?_eq_some_iff.mpr next] at missing
        cases missing
  | eatText t =>
      refine found_takes (Takes _ (.eatText t)) ?_ ?_
      · intro rest found
        have begins := dropBeginning?_eq_some.mp found
        exact ⟨t.toList, begins, .text ⟨rest, begins.symm⟩⟩
      · intro missing
        refine .noText ?_
        rintro ⟨rest, begins⟩
        rw [Token.text?, dropBeginning?_eq_some.mpr begins.symm] at missing
        cases missing
  | eatWord word =>
      refine found_takes (Takes _ (.eatWord word)) ?_ ?_
      · intro rest found
        obtain ⟨token, begins, whole⟩ := Token.word?_eq_some found
        exact ⟨token, begins, .word whole⟩
      · intro missing
        exact .noWord fun token whole => Token.word?_of_wholeWord whole missing
  | name =>
      rw [find]
      obtain ⟨name, rest, found, begins, longest⟩ | ⟨missing, other⟩ := Token.name?_longest s
      · rw [found]
        exact ⟨name, begins, .name longest⟩
      · rw [missing]
        exact ⟨[], rfl, .noName other⟩
  | number =>
      rw [find]
      obtain ⟨digits, rest, found, filled, begins, longest⟩ | ⟨missing, longest⟩ :=
        Token.digits?_longest s
      · rw [found]
        exact ⟨digits, begins, .number filled longest⟩
      · rw [missing]
        exact ⟨[], rfl, .noNumber longest⟩

end Easel.Scanner
