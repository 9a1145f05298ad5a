import Easel.Proofs.Statement.LoopPattern
import Easel.Proofs.Statement.Printing

/-! The forms that a loop, a `poke` and a `peek` can be written in. Whichever form it has, a statement
with the same parts is the same statement. -/

namespace Easel

open Text

/-- Separators, maybe none. -/
structure Spacing (separator : Char → Bool) where
  text : String
  only : text.toList.all separator = true

namespace Spacing

variable {separator : Char → Bool}

def none : Spacing separator := ⟨"", rfl⟩

@[simp]
theorem text_none : (none : Spacing separator).text = "" := rfl

theorem not_mem (spacing : Spacing separator) {c : Char} (other : separator c = false) :
    c ∉ spacing.text.toList := by
  intro member
  have separates := List.all_eq_true.mp spacing.only c member
  rw [other] at separates
  cases separates

end Spacing

structure Gap (separator : Char → Bool) extends Spacing separator where
  filled : text.toList ≠ []

namespace Gap

variable {separator : Char → Bool}

def around (front : Spacing separator) (c : Char) (separates : separator c = true)
    (back : Spacing separator) : Gap separator where
  text := front.text ++ String.singleton c ++ back.text
  only := by simp [front.only, separates, back.only]
  filled := by simp

@[simp]
theorem text_around (front : Spacing separator) (c : Char) (separates : separator c = true)
    (back : Spacing separator) : (around front c separates back).text.toList =
      front.text.toList ++ c :: back.text.toList := by
  simp [around]

instance : Coe (Gap separator) (Spacing separator) := ⟨Gap.toSpacing⟩

theorem exists_single {c : Char} (separates : separator c = true) :
    ∃ gap : Gap separator, gap.text.toList = [c] :=
  ⟨around .none c separates .none, text_around _ _ _ _⟩

theorem separator_of_head? (gap : Gap separator) {rest : List Char} {c : Char}
    (next : (gap.text.toList ++ rest).head? = some c) : separator c = true := by
  rw [List.head?_append_of_ne_nil _ gap.filled] at next
  exact List.all_eq_true.mp gap.only c (List.mem_of_head? next)

end Gap

structure Spelling (word : String) where
  text : String
  same : sameWord text.toList word.toList = true

namespace Statement

/-! ### Words and what is between them -/

section Words

variable {separator : Char → Bool} {word : List Char} (token : Token separator word)

include token

theorem fields_token (gap : Gap separator) (rest : List Char) :
    fields separator (word ++ (gap.text.toList ++ rest)) = word :: fields separator rest := by
  rw [fields_append_of_begins word fun _ => gap.separator_of_head?,
    fields_whole token.filled token.plain, fields_separators_append gap.only]
  rfl

theorem fields_token_end (spacing : Spacing separator) :
    fields separator (word ++ spacing.text.toList) = [word] := by
  rw [fields_append_separators word spacing.only]
  exact fields_whole token.filled token.plain

end Words

theorem lower_of_spelling {word : String} (spelling : Spelling word) :
    lower spelling.text.toList = lower word.toList := by
  have same := spelling.same
  rwa [sameWord, beq_iff_eq] at same

theorem read_of_spelling {word : String} {reader : List Char → Except Error Statement}
    (spelling : Spelling word) (listed : commands.lookup (lowercase word) = some reader)
    (text : String) : read spelling.text text = reader text.toList := by
  have same : lowercase spelling.text = lowercase word := by
    rw [lowercase, lowercase, lower_of_spelling spelling]
  rw [read, same, listed]

theorem comma_blanks (blanks : Spacing isBlank) : ∀ c ∈ blanks.text.toList, comma c = false := by
  intro c member
  rw [comma, beq_eq_false_iff_ne]
  rintro rfl
  exact blanks.not_mem rfl member

theorem sign_cellBreak : cellBreak '=' = false := rfl

/-! ### Pokes -/

/-- The parts of a `poke` are words. -/
structure PokeWords (p : Poke) : Prop where
  array : isName p.array.toList = true
  row : Token pokeBreak p.row.toList
  column : Token pokeBreak p.column.toList
  value : Token pokeBreak p.value.toList

section Pokes

variable {p : Poke} {right s : List Char} (gap₁ gap₂ gap₃ : Gap cellBreak)
  (spacing : Spacing cellBreak)

theorem readPoke_signed {left : List Char} (named : isName p.array.toList = true)
    (absent : '=' ∉ left)
    (found : cells left = [p.array.toList, p.row.toList, p.column.toList])
    (value : trim right = p.value.toList) (filled : p.value.toList ≠ []) :
    readPoke (left ++ '=' :: right) = .ok (poke p) := by
  have nonempty : p.value.toList.isEmpty = false := by simpa using filled
  unfold readPoke
  rw [cut?_append absent]
  simp only [value, nonempty, Bool.false_eq_true, ↓reduceIte, found, pure_bind, cell?,
    name_of_isName named, String.ofList_toList]
  rfl

theorem readPoke_plain (named : isName p.array.toList = true) (absent : '=' ∉ s)
    (found : cells s = [p.array.toList, p.row.toList, p.column.toList, p.value.toList]) :
    readPoke s = .ok (poke p) := by
  have uncut : cut? '=' s = none := by
    cases cut : cut? '=' s with
    | none => rfl
    | some parts =>
        obtain ⟨left, right⟩ := parts
        rw [cut?_eq_some cut] at absent
        exact absurd (by simp) absent
  unfold readPoke
  rw [uncut]
  simp only [found, List.getLast?_cons_cons, List.getLast?_singleton, List.dropLast, pure_bind,
    cell?, name_of_isName named, String.ofList_toList]
  rfl

theorem PokeWords.signed (words : PokeWords p) (value : trim right = p.value.toList) :
    readPoke (p.array.toList ++ (gap₁.text.toList ++ (p.row.toList ++ (gap₂.text.toList ++
      (p.column.toList ++ spacing.text.toList)))) ++ '=' :: right) = .ok (poke p) := by
  have array := token_poke.mp (token_of_isName words.array plain_pokeBreak)
  have row := token_poke.mp words.row
  have column := token_poke.mp words.column
  apply readPoke_signed words.array _ _ value words.value.filled
  · simp [array.2, row.2, column.2, gap₁.not_mem sign_cellBreak, gap₂.not_mem sign_cellBreak,
      spacing.not_mem sign_cellBreak]
  · change fields cellBreak _ = _
    rw [fields_token array.1, fields_token row.1, fields_token_end column.1]

theorem PokeWords.plain (words : PokeWords p) :
    readPoke (p.array.toList ++ (gap₁.text.toList ++ (p.row.toList ++ (gap₂.text.toList ++
      (p.column.toList ++ (gap₃.text.toList ++ p.value.toList)))))) = .ok (poke p) := by
  have array := token_poke.mp (token_of_isName words.array plain_pokeBreak)
  have row := token_poke.mp words.row
  have column := token_poke.mp words.column
  have value := token_poke.mp words.value
  apply readPoke_plain words.array
  · simp [array.2, row.2, column.2, value.2, gap₁.not_mem sign_cellBreak,
      gap₂.not_mem sign_cellBreak, gap₃.not_mem sign_cellBreak]
  · change fields cellBreak _ = _
    rw [fields_token array.1, fields_token row.1, fields_token column.1,
      fields_whole value.1.filled value.1.plain]

end Pokes

/-! ### Peeks -/

/-- The parts of a `peek` are words, and none of them is the keyword. -/
structure PeekWords (p : Peek) : Prop where
  target : isName p.target.toList = true
  array : isName p.array.toList = true
  row : Token pokeBreak p.row.toList
  column : Token pokeBreak p.column.toList
  others : ∀ word ∈ [p.target.toList, p.array.toList, p.row.toList, p.column.toList],
    sameWord word "peek".toList = false

section Peeks

variable {p : Peek} {s : List Char} (gap₁ gap₂ gap₃ : Gap cellBreak)
  (spacing₁ spacing₂ spacing₃ : Spacing cellBreak)

theorem peekWords_of_fields {words : List (List Char)} (found : fields cellBreak (parted s) = words)
    (others : ∀ word ∈ words, sameWord word "peek".toList = false) : peekWords s = words := by
  change (fields cellBreak (parted s)).filter _ = _
  rw [found, List.filter_eq_self]
  intro word member
  rw [others word member]
  rfl

theorem PeekWords.unsigned (words : PeekWords p) :
    ∀ word ∈ [p.target.toList, p.array.toList, p.row.toList, p.column.toList],
      (word != ['=']) = true := by
  have plain {word : List Char} (token : Token pokeBreak word) : (word != ['=']) = true := by
    rw [bne_iff_ne]
    rintro rfl
    exact (token_poke.mp token).2 List.mem_cons_self
  simp only [List.forall_mem_cons]
  exact ⟨plain (token_of_isName words.target plain_pokeBreak),
    plain (token_of_isName words.array plain_pokeBreak), plain words.row, plain words.column, nofun⟩

theorem readPeek_signed (words : PeekWords p) (found : fields cellBreak (parted s) =
    [p.target.toList, ['='], p.array.toList, p.row.toList, p.column.toList]) :
    readPeek s = .ok (peek p) := by
  have others : ∀ word ∈ [p.target.toList, ['='], p.array.toList, p.row.toList, p.column.toList],
      sameWord word "peek".toList = false := by
    have given := words.others
    rw [List.forall_mem_cons] at given
    rw [List.forall_mem_cons, List.forall_mem_cons]
    exact ⟨given.1, by decide, given.2⟩
  have other : (p.target.toList != ['=']) = true := words.unsigned _ List.mem_cons_self
  have taken : [p.target.toList, ['='], p.array.toList, p.row.toList, p.column.toList].takeWhile
      (· != ['=']) = [p.target.toList] := by
    simp [other]
  have dropped : [p.target.toList, ['='], p.array.toList, p.row.toList, p.column.toList].dropWhile
      (· != ['=']) = [['='], p.array.toList, p.row.toList, p.column.toList] := by
    simp [other]
  unfold readPeek
  simp only [peekWords_of_fields found others, taken, dropped, List.getLast?_singleton,
    Option.getD_some, pure_bind, cell?, name_of_isName words.target, name_of_isName words.array,
    String.ofList_toList]
  rfl

theorem readPeek_plain (words : PeekWords p) (found : fields cellBreak (parted s) =
    [p.target.toList, p.array.toList, p.row.toList, p.column.toList]) :
    readPeek s = .ok (peek p) := by
  have taken := List.takeWhile_eq_self_iff.mpr words.unsigned
  have dropped := List.dropWhile_eq_nil_iff.mpr words.unsigned
  unfold readPeek
  simp only [peekWords_of_fields found words.others, taken, dropped, pure_bind, cell?,
    name_of_isName words.target, name_of_isName words.array, String.ofList_toList]
  rfl

theorem parted_append (s t : List Char) : parted (s ++ t) = parted s ++ parted t :=
  List.flatMap_append

theorem parted_sign (s : List Char) : parted ('=' :: s) = ' ' :: '=' :: ' ' :: parted s := rfl

theorem parted_spacing : parted spacing₁.text.toList = spacing₁.text.toList :=
  parted_plain (spacing₁.not_mem sign_cellBreak)

theorem PeekWords.signed (words : PeekWords p) :
    readPeek (p.target.toList ++ (spacing₁.text.toList ++ ('=' :: (spacing₂.text.toList ++
      (p.array.toList ++ (gap₁.text.toList ++ (p.row.toList ++ (gap₂.text.toList ++
      (p.column.toList ++ spacing₃.text.toList))))))))) = .ok (peek p) := by
  have target := token_poke.mp (token_of_isName words.target plain_pokeBreak)
  have array := token_poke.mp (token_of_isName words.array plain_pokeBreak)
  have row := token_poke.mp words.row
  have column := token_poke.mp words.column
  have sign : Token cellBreak ['='] := by decide
  apply readPeek_signed words
  simp only [parted_append, parted_sign, parted_plain target.2, parted_plain array.2,
    parted_plain row.2, parted_plain column.2, parted_spacing]
  -- The blanks that are put around the `=` make a gap of whatever is there.
  have blank : cellBreak ' ' = true := rfl
  let before : Gap cellBreak := .around spacing₁ ' ' blank .none
  let behind : Gap cellBreak := .around .none ' ' blank spacing₂
  have apart (rest : List Char) : spacing₁.text.toList ++ ' ' :: '=' :: ' ' ::
      (spacing₂.text.toList ++ rest) =
      before.text.toList ++ (['='] ++ (behind.text.toList ++ rest)) := by
    simp [before, behind]
  rw [apart, fields_token target.1, fields_token sign, fields_token array.1, fields_token row.1,
    fields_token_end column.1]

theorem PeekWords.plain (words : PeekWords p) :
    readPeek (p.target.toList ++ (gap₁.text.toList ++ (p.array.toList ++ (gap₂.text.toList ++
      (p.row.toList ++ (gap₃.text.toList ++ p.column.toList)))))) = .ok (peek p) := by
  have target := token_poke.mp (token_of_isName words.target plain_pokeBreak)
  have array := token_poke.mp (token_of_isName words.array plain_pokeBreak)
  have row := token_poke.mp words.row
  have column := token_poke.mp words.column
  apply readPeek_plain words
  simp only [parted_append, parted_plain target.2, parted_plain array.2, parted_plain row.2,
    parted_plain column.2, parted_spacing]
  rw [fields_token target.1, fields_token array.1, fields_token row.1,
    fields_whole column.1.filled column.1.plain]

end Peeks

/-! ### Loops -/

theorem token_of_spelling {word : String} (spelling : Spelling word)
    (letters : (lower word.toList).all isNameStart = true) (filled : lower word.toList ≠ []) :
    Token itemBreak spelling.text.toList := by
  have same := lower_of_spelling spelling
  constructor
  · intro empty
    rw [empty] at same
    exact filled same.symm
  · intro c member
    have lowered : c.toLower ∈ lower word.toList := same ▸ List.mem_map_of_mem member
    have letter := isNameStart_of_toLower (List.all_eq_true.mp letters _ lowered)
    exact plain_itemBreak c (isNameChar_iff.mpr (.inl letter))

theorem isStep_of_spelling (spelling : Spelling "step") :
    ForHeader.isStep spelling.text.toList = true := by
  have same := lower_of_spelling spelling
  have plain : spelling.text.toList.map (fun c => if c == '\u017f' then 's' else c) =
      spelling.text.toList := by
    refine (List.map_congr_left fun c member => ?_).trans (List.map_id _)
    have lowered : c.toLower ∈ lower "step".toList := same ▸ List.mem_map_of_mem member
    have other : c ≠ '\u017f' := by
      rintro rfl
      revert lowered
      decide
    simp [other]
  rw [ForHeader.isStep, plain]
  exact spelling.same

theorem readFor_of_words {h : ForHeader} {s : List Char} (whole : ∀ c ∈ s, comma c = false)
    (found : ForHeader.ofWords? s = some h) : readFor s = .ok (forNext h) := by
  have filled : s.isEmpty = false := by
    cases s with
    | nil => cases found
    | cons c s => rfl
  unfold readFor
  rw [split_whole whole, List.map_singleton, List.filter_singleton]
  simp only [filled, Bool.false_eq_true, ↓reduceIte, found]
  cases (trim s).isEmpty <;> rfl

theorem readFor_of_parts {h : ForHeader} {s : List Char} (named : isName h.counter.toList = true)
    (filled : s ≠ []) (found : ((split comma s).map trim).filter (!·.isEmpty) =
      [h.counter.toList, h.start.toList, h.limit.toList, h.step.toList]) :
    readFor s = .ok (forNext h) := by
  have nonempty : s.isEmpty = false := by simpa using filled
  have counter := token_of_isName named fun _ => visible_of_isNameChar
  have single : words h.counter.toList = [] ++ [h.counter.toList] :=
    fields_whole counter.filled counter.plain
  unfold readFor
  simp only [nonempty, found, lastWord_of_words single, name_of_isName named, String.ofList_toList]
  rfl

def padded (front : Spacing isBlank) (word : String) (back : Spacing isBlank) : List Char :=
  front.text.toList ++ (word.toList ++ back.text.toList)

theorem token_padded {word : String} (token : Token itemBreak word.toList)
    (front back : Spacing isBlank) : Token comma (padded front word back) := by
  refine ⟨by simp [padded, token.filled], ?_⟩
  simp only [padded, List.forall_mem_append]
  exact ⟨comma_blanks front, (token_item.mp token).2.plain, comma_blanks back⟩

theorem trim_padded {word : String} (token : Token itemBreak word.toList)
    (front back : Spacing isBlank) : trim (padded front word back) = word.toList := by
  calc trim (padded front word back)
      = trim (word.toList ++ back.text.toList) := trim_blanks front.only _
    _ = trim word.toList := trim_append_blanks _ back.only
    _ = word.toList := (token.phrase blank_itemBreak).trimmed.trim_eq

section Loops

variable {h : ForHeader} (plain : PlainBounds h) (gap₁ gap₂ gap₃ gap₄ : Gap isBlank)
  (toWord : Spelling "to") (stepWord : Spelling "step")

def boundsForm (h : ForHeader) (gap₁ : Gap isBlank) (toWord : Spelling "to")
    (gap₂ gap₃ : Gap isBlank) (stepWord : Spelling "step") (gap₄ : Gap isBlank) : List Char :=
  gap₁.text.toList ++ (toWord.text.toList ++ (gap₂.text.toList ++ (h.limit.toList ++
    (gap₃.text.toList ++ (stepWord.text.toList ++ (gap₄.text.toList ++ h.step.toList))))))

include plain

theorem words_boundsForm : words (boundsForm h gap₁ toWord gap₂ gap₃ stepWord gap₄) =
    [toWord.text.toList, h.limit.toList, stepWord.text.toList, h.step.toList] := by
  have isTo := token_item.mp (token_of_spelling toWord (by decide) (by decide))
  have isStep := token_item.mp (token_of_spelling stepWord (by decide) (by decide))
  have limit := token_item.mp plain.limit
  have step := token_item.mp plain.step
  unfold boundsForm words
  rw [fields_separators_append gap₁.only, fields_token isTo.1, fields_token limit.1,
    fields_token isStep.1, fields_whole step.1.filled step.1.plain]

theorem startingAt?_boundsForm :
    ForHeader.startingAt? h.counter.toList
      (h.start.toList ++ boundsForm h gap₁ toWord gap₂ gap₃ stepWord gap₄) = some h := by
  have stops : ∀ c, (boundsForm h gap₁ toWord gap₂ gap₃ stepWord gap₄).head? = some c →
      ForHeader.isPlain c = false := by
    intro c next
    have blank := gap₁.separator_of_head? next
    simp [ForHeader.isPlain, blank]
  obtain ⟨taken, dropped⟩ := takeWhile_run (all_isPlain plain.start) stops
  have bounds : ForHeader.bounds? [toWord.text.toList, h.limit.toList, stepWord.text.toList,
      h.step.toList] = some (h.limit.toList, h.step.toList) := by
    have isTo : ForHeader.isTo toWord.text.toList = true := toWord.same
    rw [ForHeader.bounds?, isTo, isStep_of_spelling, all_isPlain plain.limit, all_isPlain plain.step]
    rfl
  unfold ForHeader.startingAt?
  rw [taken, dropped, words_boundsForm plain, bounds]
  split
  · rename_i empty
    exact absurd empty plain.start.filled
  · simp only [Option.map_some, String.ofList_toList]

theorem ofWords?_signed {back : List Char} (isLoopName : LoopName h.counter.toList)
    (blanks₁ blanks₂ : Spacing isBlank)
    (starts : ForHeader.startingAt? h.counter.toList (h.start.toList ++ back) = some h) :
    ForHeader.ofWords? (h.counter.toList ++ (blanks₁.text.toList ++ '=' :: (blanks₂.text.toList ++
      (h.start.toList ++ back)))) = some h := by
  have stops : ∀ c, (blanks₁.text.toList ++ '=' :: (blanks₂.text.toList ++
      (h.start.toList ++ back))).head? = some c → ForHeader.isLetterOrDigit c = false := by
    intro c next
    rw [List.head?_append] at next
    cases first : blanks₁.text.toList.head? with
    | none =>
        rw [first] at next
        cases next
        rfl
    | some d =>
        rw [first] at next
        cases next
        have blank := List.all_eq_true.mp blanks₁.only c (List.mem_of_head? first)
        rw [Bool.eq_false_iff]
        intro letter
        simpa [ForHeader.isPlain, blank] using ForHeader.isPlain_of_letter letter
  have begins : ∀ c, (h.start.toList ++ back).head? = some c → isBlank c = false := by
    intro c next
    rw [List.head?_append_of_ne_nil _ plain.start.filled] at next
    exact (token_item.mp plain.start).1.plain c (List.mem_of_head? next)
  obtain ⟨taken, dropped⟩ := takeWhile_run isLoopName.inside stops
  have sign : trimStart (blanks₁.text.toList ++ '=' :: (blanks₂.text.toList ++
      (h.start.toList ++ back))) = '=' :: (blanks₂.text.toList ++ (h.start.toList ++ back)) :=
    (trimStart_blanks blanks₁.only _).trans (trimStart_cons rfl _)
  have start : trimStart (blanks₂.text.toList ++ (h.start.toList ++ back)) =
      h.start.toList ++ back :=
    (trimStart_blanks blanks₂.only _).trans (trimStart_eq_self begins)
  unfold ForHeader.ofWords?
  rw [taken, dropped]
  simp only [isLoopName.begins, sign, start, starts]
  rfl

theorem readFor_keywordForm (named : isName h.counter.toList = true)
    (blanks₁ blanks₂ : Spacing isBlank) :
    readFor (h.counter.toList ++ (blanks₁.text.toList ++ '=' :: (blanks₂.text.toList ++
      (h.start.toList ++ boundsForm h gap₁ toWord gap₂ gap₃ stepWord gap₄)))) =
      .ok (forNext h) := by
  have isLoopName := loopName_of_isName named
  have token {s : List Char} (isToken : Token itemBreak s) : ∀ c ∈ s, comma c = false :=
    (token_item.mp isToken).2.plain
  apply readFor_of_words
  · simp only [boundsForm, List.forall_mem_append, List.forall_mem_cons]
    exact ⟨token isLoopName.token, comma_blanks blanks₁, rfl, comma_blanks blanks₂, token plain.start,
      comma_blanks gap₁, token (token_of_spelling toWord (by decide) (by decide)), comma_blanks gap₂,
      token plain.limit, comma_blanks gap₃,
      token (token_of_spelling stepWord (by decide) (by decide)), comma_blanks gap₄, token plain.step⟩
  · exact ofWords?_signed plain isLoopName blanks₁ blanks₂
      (startingAt?_boundsForm plain gap₁ gap₂ gap₃ gap₄ toWord stepWord)

theorem readFor_commaForm (named : isName h.counter.toList = true)
    (blanks₀ blanks₁ blanks₂ blanks₃ blanks₄ blanks₅ blanks₆ blanks₇ : Spacing isBlank) :
    readFor ([','].intercalate [padded blanks₀ h.counter blanks₁, padded blanks₂ h.start blanks₃,
      padded blanks₄ h.limit blanks₅, padded blanks₆ h.step blanks₇]) = .ok (forNext h) := by
  have counter := token_of_isName named plain_itemBreak
  apply readFor_of_parts named
  · simp [List.intercalate]
  rw [split_listed (List.cons_ne_nil _ _)]
  · simp only [List.map_cons, List.map_nil, trim_padded counter, trim_padded plain.start,
      trim_padded plain.limit, trim_padded plain.step]
    simp [counter.filled, plain.start.filled, plain.limit.filled,
      plain.step.filled]
  · simp only [List.forall_mem_cons]
    exact ⟨token_padded counter _ _, token_padded plain.start _ _, token_padded plain.limit _ _,
      token_padded plain.step _ _, nofun⟩

end Loops

/-! ### All forms -/

/-- Whatever form it is written in, a statement is read as its parts, which in a loop may look like the
words between them. A loop with words is read by the match that its pattern prefers. -/
theorem surface_forms_agree :
    (∀ (keyword : Spelling "for") (h : ForHeader), isName h.counter.toList = true → PlainBounds h →
      (∀ (blanks₁ blanks₂ : Spacing isBlank) (gap₁ gap₂ gap₃ gap₄ : Gap isBlank)
        (toWord : Spelling "to") (stepWord : Spelling "step"),
        read keyword.text (h.counter ++ blanks₁.text ++ "=" ++ blanks₂.text ++ h.start ++
          gap₁.text ++ toWord.text ++ gap₂.text ++ h.limit ++
          gap₃.text ++ stepWord.text ++ gap₄.text ++ h.step) = .ok (forNext h)) ∧
      (∀ blanks₁ blanks₂ blanks₃ blanks₄ blanks₅ blanks₆ : Spacing isBlank,
        read keyword.text (h.counter ++ blanks₁.text ++ "," ++ blanks₂.text ++ h.start ++
          blanks₃.text ++ "," ++ blanks₄.text ++ h.limit ++
          blanks₅.text ++ "," ++ blanks₆.text ++ h.step) = .ok (forNext h))) ∧
    (∀ s, ForHeader.ofWords? s = ForHeader.matched? s) ∧
    (∀ (keyword : Spelling "poke") (p : Poke), PokeWords p → ∀ text ∈
      [p.array ++ " " ++ p.row ++ " " ++ p.column ++ " = " ++ p.value,
        p.array ++ "(" ++ p.row ++ "," ++ p.column ++ ") = " ++ p.value,
        p.array ++ "," ++ p.row ++ "," ++ p.column ++ "," ++ p.value,
        p.array ++ " " ++ p.row ++ " " ++ p.column ++ " " ++ p.value],
      read keyword.text text = .ok (poke p)) ∧
    ∀ (keyword : Spelling "peek") (p : Peek), PeekWords p → ∀ text ∈
      [p.target ++ " = " ++ p.array ++ " " ++ p.row ++ " " ++ p.column,
        p.target ++ "=" ++ p.array ++ "(" ++ p.row ++ "," ++ p.column ++ ")",
        p.target ++ "," ++ p.array ++ "," ++ p.row ++ "," ++ p.column,
        p.target ++ " " ++ p.array ++ " " ++ p.row ++ " " ++ p.column],
      read keyword.text text = .ok (peek p) := by
  have closes : cellBreak ')' = true := rfl
  obtain ⟨space, isSpace⟩ := Gap.exists_single (show cellBreak ' ' = true from rfl)
  obtain ⟨listing, isListing⟩ := Gap.exists_single (show cellBreak ',' = true from rfl)
  obtain ⟨opening, isOpening⟩ := Gap.exists_single (show cellBreak '(' = true from rfl)
  obtain ⟨closing, isClosing⟩ := Gap.exists_single closes
  refine ⟨?loops, ForHeader.ofWords?_eq_matched?, ?pokes, ?peeks⟩
  case loops =>
    intro keyword h named plain
    constructor
    · intro blanks₁ blanks₂ gap₁ gap₂ gap₃ gap₄ toWord stepWord
      rw [read_of_spelling keyword rfl]
      have form := readFor_keywordForm plain gap₁ gap₂ gap₃ gap₄ toWord stepWord named blanks₁ blanks₂
      simpa [boundsForm] using form
    · intro blanks₁ blanks₂ blanks₃ blanks₄ blanks₅ blanks₆
      rw [read_of_spelling keyword rfl]
      have form := readFor_commaForm plain named .none blanks₁ blanks₂ blanks₃ blanks₄ blanks₅
        blanks₆ .none
      simpa [padded, List.intercalate] using form
  case pokes =>
    intro keyword p words
    have value : trim (' ' :: p.value.toList) = p.value.toList :=
      trim_space ((token_poke.mp words.value).1.phrase blank_cellBreak)
    simp only [List.forall_mem_cons, read_of_spelling keyword rfl]
    refine ⟨?_, ?_, ?_, ?_, nofun⟩
    · simpa [isSpace] using words.signed space space space value
    · simpa [isOpening, isListing, isSpace] using words.signed opening listing
        (Gap.around .none ')' closes space) value
    · simpa [isListing] using words.plain listing listing listing
    · simpa [isSpace] using words.plain space space space
  case peeks =>
    intro keyword p words
    simp only [List.forall_mem_cons, read_of_spelling keyword rfl]
    refine ⟨?_, ?_, ?_, ?_, nofun⟩
    · simpa [isSpace] using words.signed space space space space .none
    · simpa [isOpening, isListing, isClosing] using words.signed opening listing .none .none closing
    · simpa [isListing] using words.plain listing listing listing
    · simpa [isSpace] using words.plain space space space

theorem surface_forms_agree_on_keywords :
    read "FOR" "i\t==to  TO step sTeP\tto" = .ok (forNext ⟨"i", "=to", "step", "to"⟩) ∧
    read "for" "i ,\t=to,step  , to" = .ok (forNext ⟨"i", "=to", "step", "to"⟩) ∧
    read "Poke" "to(step,for) = peek" = .ok (poke ⟨"to", "step", "for", "peek"⟩) ∧
    read "pEEk" "to=step(for,poke)" = .ok (peek ⟨"to", "step", "for", "poke"⟩) := by
  have plain : PlainBounds ⟨"i", "=to", "step", "to"⟩ := ⟨by decide, by decide, by decide⟩
  have pokes : PokeWords ⟨"to", "step", "for", "peek"⟩ :=
    ⟨by decide, by decide, by decide, by decide⟩
  have peeks : PeekWords ⟨"to", "step", "for", "poke"⟩ :=
    ⟨by decide, by decide, by decide, by decide, by decide⟩
  let tab : Gap isBlank := ⟨⟨"\t", by decide⟩, by decide⟩
  let space : Gap isBlank := ⟨⟨" ", by decide⟩, by decide⟩
  let spaces : Gap isBlank := ⟨⟨"  ", by decide⟩, by decide⟩
  obtain ⟨loops, -, poked, peeked⟩ := surface_forms_agree
  refine ⟨?_, ?_, poked ⟨"Poke", by decide⟩ _ pokes _ (by simp),
    peeked ⟨"pEEk", by decide⟩ _ peeks _ (by simp)⟩
  · exact (loops ⟨"FOR", by decide⟩ _ (by decide) plain).1 tab .none spaces space space tab
      ⟨"TO", by decide⟩ ⟨"sTeP", by decide⟩
  · exact (loops ⟨"for", by decide⟩ _ (by decide) plain).2 space tab .none .none spaces space

end Statement

end Easel
