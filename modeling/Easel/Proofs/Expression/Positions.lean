import Easel.Proofs.Expression.Scanning

/-! Positions of a scanner. It stands between two characters of its source wherever it comes to, so
that no slice of the source fails, and every operation finds what the readers of tokens find in the
characters that are left. -/

namespace Easel.Scanner

open Text

/-! ### Bytes -/

def bytes (s : List Char) : Nat := (String.ofList s).utf8ByteSize

theorem bytes_append (s t : List Char) : bytes (s ++ t) = bytes s + bytes t := by
  rw [bytes, String.ofList_append, String.utf8ByteSize_append]
  rfl

theorem bytes_cons (c : Char) (s : List Char) : bytes (c :: s) = c.utf8Size + bytes s := by
  rw [bytes, String.ofList_cons, String.utf8ByteSize_append, String.utf8ByteSize_singleton]
  rfl

theorem bytes_toList (t : String) : bytes t.toList = t.utf8ByteSize := by
  rw [bytes, String.ofList_toList]

theorem utf8Size_toLower (c : Char) : c.toLower.utf8Size = c.utf8Size := by
  unfold Char.toLower
  split
  · rename_i upper
    have top : c.val.toNat ≤ 90 := upper.2
    have small : c.val ≤ 127 := UInt32.le_trans upper.2 (by decide)
    have shifted : c.val + ('a'.val - 'A'.val) ≤ 127 := by
      have gap : ('a'.val - 'A'.val).toNat = 32 := rfl
      have limit : (127 : UInt32).toNat = 127 := rfl
      rw [UInt32.le_iff_toNat_le, UInt32.toNat_add, gap, limit]
      omega
    rw [Char.utf8Size_eq_one_iff.mpr small]
    exact Char.utf8Size_eq_one_iff.mpr shifted
  · rfl

theorem bytes_lower (s : List Char) : bytes (lower s) = bytes s := by
  induction s with
  | nil => rfl
  | cons c s ih =>
      rw [lower, List.map_cons, bytes_cons, bytes_cons, utf8Size_toLower]
      exact congrArg _ ih

theorem bytes_of_sameWord {s word : List Char} (same : sameWord s word = true) :
    bytes s = bytes word := by
  rw [← bytes_lower s, beq_iff_eq.mp same, bytes_lower]

theorem utf8Size_digit {c : Char} (digit : Decimal.isDigit c = true) : c.utf8Size = 1 := by
  rw [Decimal.isDigit, Bool.and_eq_true, decide_eq_true_iff, decide_eq_true_iff] at digit
  exact Char.utf8Size_eq_one_iff.mpr (UInt32.le_trans digit.2 (by decide))

/-! ### Slices -/

section

variable (front rest : List Char)

theorem isValid_between : String.Pos.Raw.IsValid (String.ofList (front ++ rest)) ⟨bytes front⟩ := by
  rw [String.ofList_append]
  exact String.Pos.Raw.isValid_iff_exists_append.mpr ⟨_, _, rfl, rfl⟩

theorem splits_between : ((String.ofList (front ++ rest)).pos ⟨bytes front⟩
    (isValid_between front rest)).Splits (String.ofList front) (String.ofList rest) :=
  ⟨String.ofList_append, rfl⟩

theorem sliceTo?_between :
    sliceTo? (String.ofList (front ++ rest)) (bytes front) = some (String.ofList front) := by
  rw [sliceTo?, dif_pos (isValid_between front rest), (splits_between front rest).copy_sliceTo_eq]

theorem sliceFrom?_between :
    sliceFrom? (String.ofList (front ++ rest)) (bytes front) = some (String.ofList rest) := by
  rw [sliceFrom?, dif_pos (isValid_between front rest),
    (splits_between front rest).copy_sliceFrom_eq]

end

theorem exists_of_isValid {s : List Char} {place : Nat}
    (valid : String.Pos.Raw.IsValid (String.ofList s) ⟨place⟩) :
    ∃ front rest, s = front ++ rest ∧ bytes front = place := by
  obtain ⟨n, size⟩ := String.Pos.Raw.isValid_ofList.mp valid
  exact ⟨s.take n, s.drop n, (List.take_append_drop n s).symm, size.symm⟩

/-! ### Standing between two characters -/

/-- What the source holds in front of the position, and what it holds behind it. -/
structure Between (scanner : Scanner) (front rest : List Char) : Prop where
  source_eq : scanner.source = String.ofList (front ++ rest)
  position_eq : scanner.position = bytes front

theorem exists_between {scanner : Scanner}
    (valid : String.Pos.Raw.IsValid scanner.source ⟨scanner.position⟩) :
    ∃ front rest, scanner.Between front rest := by
  rw [← String.ofList_toList (s := scanner.source)] at valid
  obtain ⟨front, rest, whole, size⟩ := exists_of_isValid valid
  refine ⟨front, rest, ?_, size.symm⟩
  rw [← whole, String.ofList_toList]

namespace Between

variable {scanner : Scanner} {front piece rest : List Char}

theorem isValid (stands : scanner.Between front rest) :
    String.Pos.Raw.IsValid scanner.source ⟨scanner.position⟩ := by
  rw [stands.source_eq, stands.position_eq]
  exact isValid_between front rest

theorem rest? (stands : scanner.Between front rest) :
    scanner.rest? = some (String.ofList rest) := by
  rw [Scanner.rest?, stands.source_eq, stands.position_eq, sliceFrom?_between]

theorem next? (stands : scanner.Between front rest) : scanner.next? = some rest.head? := by
  obtain ⟨source, position⟩ := scanner
  obtain ⟨rfl, rfl⟩ := stands
  rw [Scanner.next?, dif_pos (isValid_between front rest)]
  have splits := splits_between front rest
  cases rest with
  | nil =>
      rw [String.Pos.get?_eq_none (splits.eq_endPos_iff.mpr rfl)]
      rfl
  | cons c rest =>
      rw [String.ofList_cons] at splits
      have inside := splits.ne_endPos_of_singleton
      rw [String.Pos.get?_eq_some_get inside, splits.next.get_eq_of_singleton]
      rfl

theorem move (stands : scanner.Between front (piece ++ rest)) {n : Nat} (size : n = bytes piece) :
    (scanner.move n).Between (front ++ piece) rest where
  source_eq := by rw [List.append_assoc, ← stands.source_eq, Scanner.move]
  position_eq := by rw [Scanner.move, stands.position_eq, bytes_append, size]

theorem move_char {c : Char} (stands : scanner.Between front (c :: rest)) :
    (scanner.move c.utf8Size).Between (front ++ [c]) rest := by
  have whole : scanner.Between front ([c] ++ rest) := stands
  exact whole.move (by rw [bytes_cons]; rfl)

theorem slice? (stands : scanner.Between front (piece ++ rest)) {last : Nat}
    (place : last = scanner.position + bytes piece) :
    Scanner.slice? scanner.source scanner.position last = some (String.ofList piece) := by
  have ends : last = bytes (front ++ piece) := by rw [place, stands.position_eq, bytes_append]
  rw [Scanner.slice?, ends, stands.source_eq, ← List.append_assoc, sliceTo?_between,
    stands.position_eq]
  exact sliceFrom?_between front piece

end Between

/-! ### Loops -/

section

variable {scanner : Scanner} {c : Char}

theorem skipBlanks_end (ends : scanner.next? = some none) : scanner.skipBlanks = some scanner := by
  rw [skipBlanks]
  split <;> simp_all

theorem skipBlanks_next (found : scanner.next? = some (some c)) :
    scanner.skipBlanks =
      if isBlank c then (scanner.move c.utf8Size).skipBlanks else some scanner := by
  rw [skipBlanks]
  split <;> simp_all

theorem passDigits_end (ends : scanner.next? = some none) (pointed : Bool) :
    scanner.passDigits pointed = some scanner := by
  rw [passDigits]
  split <;> simp_all

theorem passDigits_next (found : scanner.next? = some (some c)) (pointed : Bool) :
    scanner.passDigits pointed =
      if Decimal.isDigit c then (scanner.move 1).passDigits pointed
      else if c = '.' ∧ pointed = false then (scanner.move 1).passDigits true
      else some scanner := by
  rw [passDigits]
  split <;> simp_all

end

namespace Between

variable {scanner : Scanner} {front rest : List Char}

theorem skipBlanks (stands : scanner.Between front rest) :
    ∃ after, scanner.skipBlanks = some after ∧
      after.Between (front ++ rest.takeWhile isBlank) (trimStart rest) := by
  induction rest generalizing scanner front with
  | nil =>
      refine ⟨scanner, skipBlanks_end stands.next?, ?_⟩
      rw [List.takeWhile_nil, List.append_nil]
      exact stands
  | cons c rest ih =>
      rw [skipBlanks_next stands.next?]
      by_cases blank : isBlank c = true
      · obtain ⟨after, skipped, ends⟩ := ih stands.move_char
        refine ⟨after, by rw [if_pos blank, skipped], ?_⟩
        rw [List.append_assoc] at ends
        rw [List.takeWhile_cons_of_pos blank, trimStart, List.dropWhile_cons_of_pos blank]
        exact ends
      · refine ⟨scanner, if_neg blank, ?_⟩
        rw [List.takeWhile_cons_of_neg blank, List.append_nil, trimStart,
          List.dropWhile_cons_of_neg blank]
        exact stands

theorem passDigits_digits {digits : List Char} (all : digits.all Decimal.isDigit = true)
    (stands : scanner.Between front (digits ++ rest)) (pointed : Bool) :
    scanner.passDigits pointed = (scanner.move (bytes digits)).passDigits pointed := by
  induction digits generalizing scanner front with
  | nil => rfl
  | cons c digits ih =>
      rw [List.all_cons, Bool.and_eq_true] at all
      have one := utf8Size_digit all.1
      have next : scanner.next? = some (some c) := stands.next?
      have moved := stands.move_char
      rw [one] at moved
      rw [passDigits_next next, if_pos all.1, ih all.2 moved]
      simp only [Scanner.move, bytes_cons, one, Nat.add_assoc]

theorem passDigits_stop (stands : scanner.Between front rest) (pointed : Bool)
    (stops : ∀ c, rest.head? = some c →
      Decimal.isDigit c = false ∧ ¬ (c = '.' ∧ pointed = false)) :
    scanner.passDigits pointed = some scanner := by
  cases rest with
  | nil => exact passDigits_end stands.next? pointed
  | cons c rest =>
      obtain ⟨noDigit, noPoint⟩ := stops c rfl
      have next : scanner.next? = some (some c) := stands.next?
      rw [passDigits_next next, noDigit, if_neg Bool.false_ne_true, if_neg noPoint]

theorem passDigits_point (stands : scanner.Between front ('.' :: rest)) :
    scanner.passDigits false = (scanner.move 1).passDigits true := by
  have next : scanner.next? = some (some '.') := stands.next?
  rw [passDigits_next next, if_neg (by decide), if_pos ⟨rfl, rfl⟩]

end Between

/-! ### Operations -/

/-- The operation succeeds with an answer, and then the scanner stands in front of a text. -/
def Finds {α : Type} (result : Option (α × Scanner)) (front rest : List Char)
    (found : α × List Char) : Prop :=
  ∃ passed after, result = some (found.1, after) ∧ rest = passed ++ found.2 ∧
    after.Between (front ++ passed) found.2

section

variable {α : Type} {result : Option (α × Scanner)} {a : α} {scanner after : Scanner}
  {front rest : List Char}

theorem Finds.blanks (there : after.Between (front ++ rest.takeWhile isBlank) (trimStart rest))
    (answered : result = some (a, after)) : Finds result front rest (a, trimStart rest) :=
  ⟨_, after, answered, List.takeWhile_append_dropWhile.symm, there⟩

theorem Finds.token {token left : List Char} {n : Nat}
    (there : after.Between (front ++ rest.takeWhile isBlank) (trimStart rest))
    (text : trimStart rest = token ++ left) (size : n = bytes token)
    (answered : result = some (a, after.move n)) : Finds result front rest (a, left) := by
  rw [text] at there
  refine ⟨rest.takeWhile isBlank ++ token, after.move n, answered, ?_, ?_⟩
  · rw [List.append_assoc, ← text]
    exact List.takeWhile_append_dropWhile.symm
  · rw [← List.append_assoc]
    exact there.move size

variable (stands : scanner.Between front rest)

include stands

theorem Between.peek : ∃ after, scanner.peek = some ((trimStart rest).head?, after) ∧
    after.Between (front ++ rest.takeWhile isBlank) (trimStart rest) := by
  obtain ⟨after, skipped, there⟩ := stands.skipBlanks
  refine ⟨after, ?_, there⟩
  simp only [Scanner.peek, skipped, there.next?, bind, Option.bind, pure]

theorem eat_finds (c : Char) :
    Finds (scanner.eat c) front rest (Reader.found rest (Token.char? c rest)) := by
  obtain ⟨after, peeked, there⟩ := stands.peek
  have ate : scanner.eat c = some (if (trimStart rest).head? = some c then
      (true, after.move c.utf8Size) else (false, after)) := by
    simp only [eat, peeked, bind, Option.bind, pure]
  by_cases next : (trimStart rest).head? = some c
  · obtain ⟨left, text⟩ := List.head?_eq_some_iff.mp next
    rw [if_pos next] at ate
    rw [Token.char?_eq_some_iff.mpr text]
    have size : c.utf8Size = bytes [c] := by rw [bytes_cons]; rfl
    exact .token there text size ate
  · rw [if_neg next] at ate
    rw [Token.char?_eq_none next]
    exact .blanks there ate

theorem eatText_finds (t : String) :
    Finds (scanner.eatText t) front rest (Reader.found rest (Token.text? t.toList rest)) := by
  obtain ⟨after, skipped, there⟩ := stands.skipBlanks
  have ate : scanner.eatText t = some (if t.toList.isPrefixOf (trimStart rest) then
      (true, after.move t.utf8ByteSize) else (false, after)) := by
    simp only [eatText, skipped, there.rest?, bind, Option.bind, pure, String.toList_ofList]
  rw [Token.text?]
  cases begins : dropBeginning? t.toList (trimStart rest) with
  | some left =>
      have text := dropBeginning?_eq_some.mp begins
      rw [if_pos (List.isPrefixOf_iff_prefix.mpr ⟨left, text.symm⟩)] at ate
      exact .token there text (bytes_toList t).symm ate
  | none =>
      rw [if_neg] at ate
      · exact .blanks there ate
      · intro other
        obtain ⟨left, text⟩ := List.isPrefixOf_iff_prefix.mp other
        rw [dropBeginning?_eq_some.mpr text.symm] at begins
        cases begins

end

section

variable {scanner after : Scanner} {front token left : List Char} {word : String}
  (skipped : scanner.skipBlanks = some after)

include skipped

theorem eatWord_beginning (there : after.Between front (token ++ left))
    (size : bytes token = word.utf8ByteSize) :
    scanner.eatWord word = some (if sameWord token word.toList && !(left.head?.any isNameChar) then
      (true, after.move word.utf8ByteSize) else (false, after)) := by
  have valid := isValid_between token left
  have long : ¬ (String.ofList (token ++ left)).utf8ByteSize < bytes token := by
    have whole := bytes_append token left
    rw [bytes] at whole
    omega
  have before := sliceTo?_between token left
  have behind := sliceFrom?_between token left
  rw [size] at valid long before behind
  simp only [eatWord, skipped, there.rest?, bind, Option.bind, pure, long, valid, before, behind,
    String.toList_ofList]
  cases sameWord token word.toList <;> cases left.head?.any isNameChar <;> rfl

theorem eatWord_inside (there : after.Between front left)
    (invalid : ¬ String.Pos.Raw.IsValid (String.ofList left) ⟨word.utf8ByteSize⟩) :
    scanner.eatWord word = some (false, after) := by
  simp only [eatWord, skipped, there.rest?, bind, Option.bind, pure, invalid]
  simp

end

theorem eatWord_finds {scanner : Scanner} {front rest : List Char}
    (stands : scanner.Between front rest) (word : String) :
    Finds (scanner.eatWord word) front rest
      (Reader.found rest (Token.word? word.toList rest)) := by
  obtain ⟨after, skipped, there⟩ := stands.skipBlanks
  have whole := (List.take_append_drop word.toList.length (trimStart rest)).symm
  by_cases same : sameWord ((trimStart rest).take word.toList.length) word.toList = true
  · have size := bytes_of_sameWord same
    rw [bytes_toList] at size
    have ate := eatWord_beginning skipped (whole ▸ there) size
    rw [Token.word?]
    split
    · rename_i accepted
      rw [if_pos accepted] at ate
      exact .token there whole size.symm ate
    · rename_i refused
      rw [if_neg refused] at ate
      exact .blanks there ate
  · have missing : Token.word? word.toList rest = none := by
      rw [Token.word?, if_neg]
      simp [same]
    rw [missing]
    refine .blanks there ?_
    by_cases valid : String.Pos.Raw.IsValid (String.ofList (trimStart rest)) ⟨word.utf8ByteSize⟩
    · obtain ⟨token, left, text, size⟩ := exists_of_isValid valid
      have other : sameWord token word.toList = false := by
        apply Bool.eq_false_iff.mpr
        intro same'
        rw [text, ← length_of_sameWord same', List.take_left] at same
        exact same same'
      rw [text] at there
      rw [eatWord_beginning skipped there size, other]
      rfl
    · exact eatWord_inside skipped there valid

theorem find?_indices (first : Nat) (s : List Char) :
    (indices first s).find? (!isNameChar ·.2) =
      (s.dropWhile isNameChar).head?.map (first + bytes (s.takeWhile isNameChar), ·) := by
  induction s generalizing first with
  | nil => rfl
  | cons c s ih =>
      rw [indices, List.find?_cons]
      by_cases named : isNameChar c = true
      · rw [List.takeWhile_cons_of_pos named, List.dropWhile_cons_of_pos named, bytes_cons]
        simp only [named, Bool.not_true, ih, Nat.add_assoc]
      · rw [List.takeWhile_cons_of_neg named, List.dropWhile_cons_of_neg named]
        simp [named]
        rfl

section

variable {scanner after : Scanner} {front tail : List Char} {c : Char}
  (skipped : scanner.skipBlanks = some after)

include skipped

theorem name_other (there : after.Between front tail)
    (other : ∀ c, tail.head? = some c → isNameStart c = false) :
    scanner.name = some (none, after) := by
  simp only [name, skipped, there.rest?, bind, Option.bind, pure, String.toList_ofList]
  cases tail with
  | nil => rfl
  | cons c tail => simp only [indices, other c rfl, Bool.false_eq_true, ↓reduceIte]

theorem name_start (there : after.Between front (c :: tail)) (start : isNameStart c = true) :
    scanner.name = some (some (String.ofList (c :: tail.takeWhile isNameChar)),
      after.move (bytes (c :: tail.takeWhile isNameChar))) := by
  have whole : c :: tail = (c :: tail.takeWhile isNameChar) ++ tail.dropWhile isNameChar := by
    rw [List.cons_append, List.takeWhile_append_dropWhile]
  have sliced := (whole ▸ there : after.Between front _).slice? rfl
  simp only [name, skipped, there.rest?, bind, Option.bind, pure, String.toList_ofList, indices,
    start, ↓reduceIte, find?_indices]
  cases ends : tail.dropWhile isNameChar with
  | nil =>
      -- The name goes on to the end of the source.
      have size : after.source.utf8ByteSize =
          after.position + bytes (c :: tail.takeWhile isNameChar) := by
        have source := there.source_eq
        rw [whole, ends, List.append_nil] at source
        rw [source, there.position_eq, ← bytes_append]
        rfl
      simp only [List.head?_nil, Option.map_none, size, sliced]
      rfl
  | cons d left =>
      have size : after.position + (0 + c.utf8Size + bytes (tail.takeWhile isNameChar)) =
          after.position + bytes (c :: tail.takeWhile isNameChar) := by
        rw [bytes_cons, Nat.zero_add]
      simp only [List.head?_cons, Option.map_some, size, sliced]
      rfl

end

theorem name_finds {scanner : Scanner} {front rest : List Char}
    (stands : scanner.Between front rest) :
    Finds scanner.name front rest (Reader.find .name rest) := by
  obtain ⟨after, skipped, there⟩ := stands.skipBlanks
  by_cases starts : ∃ c tail, trimStart rest = c :: tail ∧ isNameStart c = true
  · obtain ⟨c, tail, text, start⟩ := starts
    have found : Token.name? rest =
        some (c :: tail.takeWhile isNameChar, tail.dropWhile isNameChar) := by
      simp only [Token.name?, text, start, ↓reduceIte]
    have whole : trimStart rest = (c :: tail.takeWhile isNameChar) ++ tail.dropWhile isNameChar := by
      rw [text, List.cons_append, List.takeWhile_append_dropWhile]
    rw [Reader.find, found]
    exact .token there whole rfl (name_start skipped (text ▸ there) start)
  · have other (c : Char) (next : (trimStart rest).head? = some c) : isNameStart c = false := by
      obtain ⟨tail, text⟩ := List.head?_eq_some_iff.mp next
      exact Bool.eq_false_iff.mpr fun start => starts ⟨c, tail, text, start⟩
    have missing : Token.name? rest = none := by
      unfold Token.name?
      split
      · rfl
      · rename_i c tail text
        rw [other c (by rw [text]; rfl), if_neg Bool.false_ne_true]
    rw [Reader.find, missing]
    exact .blanks there (name_other skipped there other)

theorem bytes_pos {s : List Char} (filled : s ≠ []) : 0 < bytes s := by
  cases s with
  | nil => exact absurd rfl filled
  | cons c s =>
      have size := c.utf8Size_pos
      rw [bytes_cons]
      omega

theorem number_eq {scanner after : Scanner} {front digits left : List Char}
    (skipped : scanner.skipBlanks = some after) (there : after.Between front (digits ++ left))
    (passed : after.passDigits false = some (after.move (bytes digits))) :
    scanner.number = some (if digits = [] then none else some (Token.value digits),
      after.move (bytes digits)) := by
  have place : (after.move (bytes digits)).position = after.position + bytes digits := rfl
  have sliced := there.slice? place
  simp only [number, skipped, passed, bind, Option.bind, pure, sliced, String.toList_ofList]
  by_cases empty : digits = []
  · rw [if_pos empty, if_pos (by rw [empty]; rfl)]
  · have size := bytes_pos empty
    rw [if_neg empty, if_neg (by dsimp only [move]; omega)]

section

variable {scanner : Scanner} {front whole fraction rest : List Char}
  (digits : whole.all Decimal.isDigit = true)

include digits

theorem passDigits_whole (stands : scanner.Between front (whole ++ rest))
    (stops : ∀ c, rest.head? = some c → Token.isNumeric c = false) :
    scanner.passDigits false = some (scanner.move (bytes whole)) := by
  rw [stands.passDigits_digits digits]
  apply (stands.move rfl).passDigits_stop false
  intro c next
  have other := stops c next
  rw [Token.isNumeric, Bool.or_eq_false_iff, beq_eq_false_iff_ne] at other
  exact ⟨other.1, fun point => other.2 point.1⟩

theorem passDigits_pointed (places : fraction.all Decimal.isDigit = true)
    (stands : scanner.Between front (whole ++ '.' :: fraction ++ rest))
    (stops : ∀ c, rest.head? = some c → Decimal.isDigit c = false) :
    scanner.passDigits false = some (scanner.move (bytes (whole ++ '.' :: fraction))) := by
  rw [List.append_assoc] at stands
  have behind := stands.move rfl
  have point := behind.move_char
  have one : ('.' : Char).utf8Size = 1 := rfl
  rw [one] at point
  have stop := (point.move rfl).passDigits_stop true fun c next => ⟨stops c next, by simp⟩
  rw [stands.passDigits_digits digits, behind.passDigits_point, point.passDigits_digits places, stop]
  simp only [move, bytes_append, bytes_cons, one, Nat.add_assoc]

end

theorem number_finds {scanner : Scanner} {front rest : List Char}
    (stands : scanner.Between front rest) :
    Finds scanner.number front rest (Reader.find .number rest) := by
  obtain ⟨after, skipped, there⟩ := stands.skipBlanks
  obtain ⟨whole, fraction, left, digits, places, stops, text, found⟩ |
    ⟨whole, left, digits, stops, text, found⟩ := Token.digits?_cases rest
  · have behind := there
    rw [text] at behind
    have read := number_eq skipped behind (passDigits_pointed digits places behind stops)
    rw [if_neg (by simp)] at read
    rw [Reader.find, found]
    exact .token there text rfl read
  · have behind := there
    rw [text] at behind
    have read := number_eq skipped behind (passDigits_whole digits behind stops)
    rw [Reader.find, found]
    by_cases empty : whole = []
    · rw [if_pos empty] at read ⊢
      rw [empty] at read
      exact .blanks there read
    · rw [if_neg empty] at read ⊢
      exact .token there text rfl read

theorem Reader.run_finds (reader : Reader) {scanner : Scanner} {front rest : List Char}
    (stands : scanner.Between front rest) :
    Finds (reader.run scanner) front rest (reader.find rest) := by
  cases reader with
  | skipBlanks =>
      obtain ⟨after, skipped, there⟩ := stands.skipBlanks
      exact .blanks there (by rw [run, skipped]; rfl)
  | peek =>
      obtain ⟨after, peeked, there⟩ := stands.peek
      exact .blanks there peeked
  | atEnd =>
      obtain ⟨after, peeked, there⟩ := stands.peek
      have ends : (trimStart rest).head?.isNone = (trimStart rest).isEmpty := by
        cases trimStart rest <;> rfl
      refine .blanks there ?_
      simp only [run, Scanner.atEnd, peeked, bind, Option.bind, pure, ends]
      rfl
  | eat c => exact eat_finds stands c
  | eatText t => exact eatText_finds stands t
  | eatWord word => exact eatWord_finds stands word
  | name => exact name_finds stands
  | number => exact number_finds stands

/-! ### Runs -/

/-- What a scanner of a source comes to by reading, keeping its position and going back to positions
that were kept, for as long as no slice fails. -/
inductive Reached (source : String) : List Nat → Scanner → Prop
  | opened : Reached source [] (ofText source)
  | read {saved : List Nat} {scanner after : Scanner} {reader : Reader} {answer : reader.Answer}
      (earlier : Reached source saved scanner) (ran : reader.run scanner = some (answer, after)) :
      Reached source saved after
  | kept {saved : List Nat} {scanner : Scanner} (earlier : Reached source saved scanner) :
      Reached source (scanner.position :: saved) scanner
  | returned {saved : List Nat} {scanner : Scanner} {position : Nat}
      (earlier : Reached source saved scanner) (known : position ∈ saved) :
      Reached source saved (scanner.reset position)

/-- The scanner stands between two characters, and so it does at every position that was kept. -/
structure Placed (source : String) (saved : List Nat) (scanner : Scanner) : Prop where
  source_eq : scanner.source = source
  isValid : ∀ position ∈ scanner.position :: saved, String.Pos.Raw.IsValid source ⟨position⟩

theorem Placed.between {source : String} {saved : List Nat} {scanner : Scanner}
    (placed : Placed source saved scanner) : ∃ front rest, scanner.Between front rest := by
  apply exists_between
  rw [placed.source_eq]
  exact placed.isValid _ List.mem_cons_self

theorem Finds.source_eq {α : Type} {result : Option (α × Scanner)} {scanner after : Scanner} {a : α}
    {front rest : List Char} {found : α × List Char} (finds : Finds result front rest found)
    (stands : scanner.Between front rest) (ran : result = some (a, after)) :
    after.source = scanner.source ∧ String.Pos.Raw.IsValid after.source ⟨after.position⟩ := by
  obtain ⟨passed, other, answered, whole, there⟩ := finds
  rw [ran] at answered
  cases answered
  refine ⟨?_, there.isValid⟩
  rw [there.source_eq, stands.source_eq, whole, List.append_assoc]

theorem Reached.placed {source : String} {saved : List Nat} {scanner : Scanner}
    (reached : Reached source saved scanner) : Placed source saved scanner := by
  induction reached with
  | opened => exact ⟨rfl, List.forall_mem_cons.mpr ⟨String.Pos.Raw.isValid_zero, by simp⟩⟩
  | @read saved scanner after reader answer earlier ran ih =>
      obtain ⟨front, rest, stands⟩ := ih.between
      obtain ⟨same, valid⟩ := (reader.run_finds stands).source_eq stands ran
      rw [ih.source_eq] at same
      rw [same] at valid
      exact ⟨same, List.forall_mem_cons.mpr ⟨valid, (List.forall_mem_cons.mp ih.isValid).2⟩⟩
  | kept earlier ih =>
      refine ⟨ih.source_eq, List.forall_mem_cons.mpr ⟨?_, ih.isValid⟩⟩
      exact ih.isValid _ List.mem_cons_self
  | returned earlier known ih =>
      have saved := (List.forall_mem_cons.mp ih.isValid).2
      exact ⟨ih.source_eq, List.forall_mem_cons.mpr ⟨saved _ known, saved⟩⟩

/-- A reader passes all blanks, then the token it takes, and nothing more. It stands between two
characters before the token and behind it. -/
structure Reads (scanner : Scanner) (reader : Reader) (blanks token left : List Char)
    (answer : reader.Answer) (after : Scanner) : Prop where
  ran : reader.run scanner = some (answer, after)
  ahead : scanner.rest? = some (String.ofList (blanks ++ (token ++ left)))
  blank : Longest (fun s => s.all isBlank = true) (blanks ++ (token ++ left)) blanks
  taken : Takes (token ++ left) reader token answer
  source_eq : after.source = scanner.source
  moved : after.position = scanner.position + bytes blanks + bytes token
  before : String.Pos.Raw.IsValid scanner.source ⟨scanner.position + bytes blanks⟩
  behind : after.rest? = some (String.ofList left)

theorem Between.reads {scanner : Scanner} {front rest : List Char}
    (stands : scanner.Between front rest) (reader : Reader) :
    ∃ blanks token left answer after, Reads scanner reader blanks token left answer after := by
  obtain ⟨token, text, taken⟩ := reader.takes rest
  have whole : rest = rest.takeWhile isBlank ++ (token ++ (reader.find rest).2) := by
    rw [← text]
    exact List.takeWhile_append_dropWhile.symm
  obtain ⟨passed, after, ran, cut, there⟩ := reader.run_finds stands
  have same : passed = rest.takeWhile isBlank ++ token := by
    rw [← List.append_assoc] at whole
    exact List.append_cancel_right (cut.symm.trans whole)
  subst same
  refine ⟨rest.takeWhile isBlank, token, (reader.find rest).2, (reader.find rest).1, after, ran,
    ?_, ?_, ?_, ((reader.run_finds stands).source_eq stands ran).1, ?_, ?_, there.rest?⟩
  · rw [← whole, stands.rest?]
  · rw [← whole]
    exact longest_takeWhile isBlank rest
  · rw [← text]
    exact taken
  · rw [there.position_eq, stands.position_eq, bytes_append, bytes_append, Nat.add_assoc]
  · have beside := stands
    rw [whole] at beside
    exact (beside.move rfl).isValid

/-- However a scanner was used, it stands between two characters of its source, and so it does at
every position that was kept. No slice of the source fails: what remains can be shown, without
moving, and every reader passes the blanks and then the one token it takes. -/
theorem readers_pass_blanks_and_one_token {source : String} {saved : List Nat} {scanner : Scanner}
    (reached : Reached source saved scanner) :
    scanner.source = source ∧
    (∀ position ∈ scanner.position :: saved, String.Pos.Raw.IsValid source ⟨position⟩) ∧
    (∃ text, scanner.remaining = some text ∧ Trimmed text.toList ∧
      ∃ front back, front.all isBlank = true ∧ back.all isBlank = true ∧
        scanner.rest? = some (String.ofList (front ++ (text.toList ++ back)))) ∧
    ∀ reader, ∃ blanks token left answer after,
      Reads scanner reader blanks token left answer after := by
  have placed := reached.placed
  obtain ⟨front, rest, stands⟩ := placed.between
  refine ⟨placed.source_eq, placed.isValid, ⟨String.ofList (trim rest), ?_, ?_⟩, stands.reads⟩
  · simp only [remaining, stands.rest?, bind, Option.bind, pure, String.toList_ofList]
  · rw [String.toList_ofList, stands.rest?]
    obtain ⟨first, last, blank, blank', whole⟩ := exists_trim rest
    exact ⟨trimmed_trim rest, first, last, blank, blank', congrArg (some <| String.ofList ·) whole⟩

def wideCharacters : String := "\u2003é1.2."

/-- Behind the number the scanner goes back to it and reads it again. Inside the letter the source can
not be cut. -/
theorem number_read_again_behind_wide_characters :
    Reached wideCharacters [8, 5] ⟨wideCharacters, 5⟩ ∧
      sliceFrom? wideCharacters 5 = some "1.2." ∧ sliceFrom? wideCharacters 4 = none ∧
      (∀ position ∈ [5, 8, 5], String.Pos.Raw.IsValid wideCharacters ⟨position⟩) ∧
      ∃ blanks token left answer, Reads ⟨wideCharacters, 5⟩ .number blanks token left answer
        ⟨wideCharacters, 8⟩ := by
  have letter : Reader.run (.eat 'é') (ofText wideCharacters) = some (true, ⟨wideCharacters, 5⟩) := by
    change Scanner.eat 'é' _ = _
    decide +kernel
  obtain ⟨answer, number⟩ : ∃ answer, Reader.run .number ⟨wideCharacters, 5⟩ =
      some (answer, ⟨wideCharacters, 8⟩) := by
    have moved : (number ⟨wideCharacters, 5⟩).map (·.2) = some ⟨wideCharacters, 8⟩ := by
      decide +kernel
    obtain ⟨⟨answer, after⟩, ran, same⟩ := Option.map_eq_some_iff.mp moved
    cases same
    exact ⟨answer, ran⟩
  have again : Reached wideCharacters [8, 5] ⟨wideCharacters, 5⟩ :=
    ((Reached.opened.read letter).kept.read number).kept.returned (by simp)
  obtain ⟨-, valid, -, reads⟩ := readers_pass_blanks_and_one_token again
  obtain ⟨blanks, token, left, answer', after, read⟩ := reads .number
  have same := read.ran
  rw [number] at same
  cases same
  exact ⟨again, by decide +kernel, by decide +kernel, valid, blanks, token, left, answer, read⟩

end Easel.Scanner
