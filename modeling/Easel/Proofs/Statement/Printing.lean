import Easel.Proofs.Source.Assignments
import Easel.Proofs.Statement.Fields

/-! Statements and their text. However a statement was written, it is printed in one form, and that
form is read as the same statement again. -/

namespace Easel

open Text

theorem Line.statement_of_command {word : String} {back : List Char}
    {reader : List Char → Except Error Statement} {statement : Statement} (number : Nat)
    (listed : Statement.commands.lookup (lowercase word) = some reader)
    (letters : word.toList.all Char.isAlpha = true)
    (stops : ∀ c, back.head? = some c → c.isAlpha = false) (trimmed : Trimmed (word.toList ++ back))
    (read : reader (trim back) = .ok statement) :
    (Line.ofText number (word.toList ++ back)).statement = .ok statement := by
  obtain ⟨taken, dropped⟩ := takeWhile_run letters stops
  rw [Line.statement, Line.keyword, Line.parameters, Line.ofText, trimmed.trim_eq,
    String.toList_ofList, taken, dropped, String.ofList_toList, Statement.read, listed]
  dsimp only
  rw [String.toList_ofList, read]
  rfl

theorem phrase_of_letters {word : String} (letters : word.toList.all Char.isAlpha = true)
    (filled : word.toList ≠ []) : Phrase word.toList := by
  refine ⟨filled, trimmed_of_visible fun c member => visible_of_isNameStart ?_⟩
  simp [isNameStart, List.all_eq_true.mp letters c member]

theorem Line.reads_text {statement : Statement} {reader : List Char → Except Error Statement}
    (number : Nat) (word : String) {row : List Char}
    (text : statement.text.toList = word.toList ++ ' ' :: row)
    (listed : Statement.commands.lookup (lowercase word) = some reader)
    (letters : word.toList.all Char.isAlpha = true) (filled : word.toList ≠ [])
    (phrase : Phrase row) (read : reader row = .ok statement) :
    (Line.ofText number statement.text.toList).statement = .ok statement := by
  rw [text]
  apply statement_of_command number listed letters
  · rintro c ⟨⟩
    rfl
  · exact ((phrase_of_letters letters filled).around phrase [' ']).trimmed
  · rw [trim_space phrase]
    exact read

theorem Line.reads_word {statement : Statement} {reader : List Char → Except Error Statement}
    (number : Nat) (word : String) (text : statement.text.toList = word.toList)
    (listed : Statement.commands.lookup (lowercase word) = some reader)
    (letters : word.toList.all Char.isAlpha = true) (filled : word.toList ≠ [])
    (read : reader [] = .ok statement) :
    (Line.ofText number statement.text.toList).statement = .ok statement := by
  have trimmed : Trimmed (word.toList ++ []) := by
    rw [List.append_nil]
    exact (phrase_of_letters letters filled).trimmed
  rw [text, ← List.append_nil word.toList]
  exact statement_of_command number listed letters (by rintro c ⟨⟩) trimmed read

namespace Statement

theorem name_of_isName {given : String} (named : isName given.toList = true) :
    name given.toList = .ok given := by
  rw [name, if_pos named, String.ofList_toList]

/-! ### One reader after another -/

theorem readDeclaration_printed {d : Declaration} (fits : (declare d).Fits) (single : d.extra = []) :
    readDeclaration d.kind (d.name.toList ++ ([' '] ++ '=' :: ' ' :: d.expression.toList)) =
      .ok (declare d) := by
  obtain ⟨-, named, phrase⟩ := fits
  have assignment : Source.Assignment (d.name.toList ++ ([' '] ++ '=' :: ' ' :: d.expression.toList))
      d.name [' '] (' ' :: d.expression.toList) :=
    ⟨rfl, named, rfl, nofun, by rw [trim_space phrase]; exact phrase.filled⟩
  rw [assignment.readDeclaration, trim_space phrase, String.ofList_toList, ← single]

theorem readArray_printed {a : ArrayDeclaration} (fits : (array a).Fits) :
    readArray (spaced a.kind.keyword.toList
      (a.name.toList :: a.rows.toList :: (a.columns.map String.toList).toList)) = .ok (array a) := by
  obtain ⟨kind, given, rows, columns⟩ := a
  obtain ⟨kinds, named, isRows, isColumns⟩ := fits
  dsimp only at kinds named isRows isColumns ⊢
  have word : Token cellBreak kind.keyword.toList := by
    apply token_of_isName ?_ plain_cellBreak
    rcases kinds with rfl | rfl <;> rfl
  have isName := token_of_isName named plain_cellBreak
  have known : Kind.ofKeyword? (String.ofList kind.keyword.toList) = some kind := by
    rw [String.ofList_toList]
    rcases kinds with rfl | rfl <;> rfl
  have found : cells (spaced kind.keyword.toList
      (given.toList :: rows.toList :: (columns.map String.toList).toList)) =
      kind.keyword.toList :: given.toList :: rows.toList ::
        (columns.map String.toList).toList := by
    apply fields_spaced rfl word
    simp only [List.forall_mem_cons, Option.mem_toList, Option.map_eq_some_iff]
    refine ⟨isName, isRows, ?_⟩
    rintro _ ⟨text, listed, rfl⟩
    exact isColumns text listed
  unfold readArray
  rw [found]
  simp only [known]
  rcases kinds with rfl | rfl <;> cases columns <;>
    simp [name_of_isName named, String.ofList_toList]

theorem readPoke_printed {p : Poke} (fits : (poke p).Fits) :
    readPoke (spaced p.array.toList [p.row.toList, p.column.toList] ++
      ([' '] ++ '=' :: ' ' :: p.value.toList)) = .ok (poke p) := by
  obtain ⟨named, isRow, isColumn, phrase⟩ := fits
  have tokens : ∀ word ∈ [p.row.toList, p.column.toList], Token pokeBreak word := by
    simp only [List.forall_mem_cons]
    exact ⟨isRow, isColumn, nofun⟩
  have isName := token_of_isName named plain_pokeBreak
  have absent : '=' ∉ spaced p.array.toList [p.row.toList, p.column.toList] ++ [' '] := by
    rw [List.mem_append]
    rintro (member | member)
    · rcases mem_spaced member with blank | ⟨word, listed, inside⟩
      · cases blank
      · cases (List.forall_mem_cons.mpr ⟨isName, tokens⟩ word listed).plain '=' inside
    · cases List.mem_singleton.mp member
  have found : cells (spaced p.array.toList [p.row.toList, p.column.toList] ++ [' ']) =
      [p.array.toList, p.row.toList, p.column.toList] := by
    have spaces : [' '].all (fun c => isBlank c || c == ',' || c == '(' || c == ')') = true := rfl
    rw [cells, fields_append_separators _ spaces]
    exact fields_spaced rfl (token_poke.mp isName).1 fun word member =>
      (token_poke.mp (tokens word member)).1
  have filled : p.value.toList.isEmpty = false := by
    simpa using phrase.filled
  rw [← List.append_assoc]
  unfold readPoke
  rw [cut?_append absent]
  simp only [trim_space phrase, filled, Bool.false_eq_true, ↓reduceIte, found, pure_bind, cell?,
    name_of_isName named, String.ofList_toList]
  rfl

theorem parted_plain {word : List Char} (absent : '=' ∉ word) : parted word = word := by
  induction word with
  | nil => rfl
  | cons c word ih =>
      rw [List.mem_cons, not_or] at absent
      have step : parted (c :: word) = c :: parted word := by
        simp [parted, Ne.symm absent.1]
      rw [step, ih absent.2]

theorem fields_parted {first : List Char} {rest : List (List Char)} (isFirst : PeekWord first)
    (all : ∀ word ∈ rest, PeekWord word) :
    fields cellBreak (parted (spaced first rest)) = first :: rest := by
  have alone {word : List Char} (isWord : PeekWord word) :
      fields cellBreak (parted word) = [word] := by
    rcases isWord.alone with rfl | absent
    · rfl
    · rw [parted_plain absent]
      exact fields_whole isWord.token.filled isWord.token.plain
  induction rest generalizing first with
  | nil =>
      rw [spaced, List.flatMap_nil, List.append_nil]
      exact alone isFirst
  | cons second rest ih =>
      rw [List.forall_mem_cons] at all
      have apart : parted (spaced first (second :: rest)) =
          parted first ++ ' ' :: parted (spaced second rest) := by
        rw [spaced_cons, parted, List.flatMap_append]
        rfl
      rw [apart, fields_append_separator rfl, alone isFirst, ih all.1 all.2]
      rfl

theorem readPeek_printed {p : Peek} (fits : (peek p).Fits) :
    readPeek (spaced p.target.toList [['='], p.array.toList, p.row.toList, p.column.toList]) =
      .ok (peek p) := by
  obtain ⟨named, named', isTarget, isArray, isRow, isColumn⟩ := fits
  have sign : PeekWord ['='] := ⟨⟨nofun, by simp; rfl⟩, .inl rfl, by decide⟩
  have all : ∀ word ∈ [p.target.toList, ['='], p.array.toList, p.row.toList, p.column.toList],
      PeekWord word := by
    simp only [List.forall_mem_cons]
    exact ⟨isTarget, sign, isArray, isRow, isColumn, nofun⟩
  have words : peekWords (spaced p.target.toList
      [['='], p.array.toList, p.row.toList, p.column.toList]) =
      [p.target.toList, ['='], p.array.toList, p.row.toList, p.column.toList] := by
    have parts := fields_parted isTarget (List.forall_mem_cons.mp all).2
    change (fields cellBreak (parted _)).filter _ = _
    rw [parts, List.filter_eq_self]
    intro word member
    rw [(all word member).other]
    rfl
  have other : (p.target.toList != ['=']) = true := by
    rw [bne_iff_ne]
    intro same
    rw [same] at named
    cases named
  have taken : [p.target.toList, ['='], p.array.toList, p.row.toList, p.column.toList].takeWhile
      (· != ['=']) = [p.target.toList] := by
    exact (List.takeWhile_cons_of_pos (p := fun word => word != ['=']) other).trans rfl
  have dropped : [p.target.toList, ['='], p.array.toList, p.row.toList, p.column.toList].dropWhile
      (· != ['=']) = [['='], p.array.toList, p.row.toList, p.column.toList] := by
    exact (List.dropWhile_cons_of_pos (p := fun word => word != ['=']) other).trans rfl
  unfold readPeek
  simp only [words, taken, dropped, List.getLast?_singleton, Option.getD_some, pure_bind, cell?,
    name_of_isName named, name_of_isName named', String.ofList_toList]
  rfl

/-! ### Loops -/

def boundsText (h : ForHeader) : List Char :=
  ' ' :: spaced "to".toList [h.limit.toList, "step".toList, h.step.toList]

def headerText (h : ForHeader) : List Char :=
  h.counter.toList ++ ' ' :: '=' :: ' ' :: (h.start.toList ++ boundsText h)

structure PlainBounds (h : ForHeader) : Prop where
  start : Token itemBreak h.start.toList
  limit : Token itemBreak h.limit.toList
  step : Token itemBreak h.step.toList

theorem LoopName.token {s : List Char} (isLoopName : LoopName s) : Token itemBreak s := by
  refine ⟨?_, fun c member => ?_⟩
  · rintro rfl
    cases isLoopName.begins
  · have letter := List.all_eq_true.mp isLoopName.inside c member
    simp only [ForHeader.isLetterOrDigit, ForHeader.isLetter, Bool.or_eq_true, beq_iff_eq] at letter
    rcases letter with ((start | rfl) | rfl) | digit
    · exact plain_itemBreak c (isNameChar_iff.mpr (.inl start))
    · rfl
    · rfl
    · exact plain_itemBreak c (isNameChar_iff.mpr (.inr digit))

theorem all_isPlain {s : List Char} (token : Token itemBreak s) :
    s.all ForHeader.isPlain = true := by
  rw [List.all_eq_true]
  intro c member
  have plain := token.plain c member
  rw [itemBreak, Bool.or_eq_false_iff, beq_eq_false_iff_ne] at plain
  rw [ForHeader.isPlain, plain.1, Bool.not_false, Bool.true_and, bne_iff_ne]
  exact plain.2

theorem token_keyword {word : String} (letters : word.toList.all isNameChar = true)
    (filled : word.toList ≠ []) : Token itemBreak word.toList :=
  ⟨filled, fun c member => plain_itemBreak c (List.all_eq_true.mp letters c member)⟩

namespace PlainBounds

variable {h : ForHeader} (plain : PlainBounds h)

include plain

theorem tokens : ∀ word ∈ ["to".toList, h.limit.toList, "step".toList, h.step.toList],
    Token itemBreak word := by
  simp only [List.forall_mem_cons]
  exact ⟨token_keyword (by decide) (by decide), plain.limit, token_keyword (by decide) (by decide),
    plain.step, nofun⟩

theorem words_boundsText :
    words (boundsText h) = ["to".toList, h.limit.toList, "step".toList, h.step.toList] := by
  have tokens := List.forall_mem_cons.mp plain.tokens
  have behind := fields_append_separator (show isBlank ' ' = true from rfl) []
    (spaced "to".toList [h.limit.toList, "step".toList, h.step.toList])
  refine behind.trans ?_
  exact fields_spaced rfl (token_item.mp tokens.1).1 fun word member =>
    (token_item.mp (tokens.2 word member)).1

theorem startingAt? :
    ForHeader.startingAt? h.counter.toList (h.start.toList ++ boundsText h) = some h := by
  have stops : ∀ c, (boundsText h).head? = some c → ForHeader.isPlain c = false := by
    rintro c ⟨⟩
    rfl
  obtain ⟨taken, dropped⟩ := takeWhile_run (all_isPlain plain.start) stops
  have bounds : ForHeader.bounds? ["to".toList, h.limit.toList, "step".toList, h.step.toList] =
      some (h.limit.toList, h.step.toList) := by
    have fits : (ForHeader.isTo "to".toList && h.limit.toList.all ForHeader.isPlain &&
        ForHeader.isStep "step".toList && h.step.toList.all ForHeader.isPlain) = true := by
      rw [all_isPlain plain.limit, all_isPlain plain.step]
      decide
    rw [ForHeader.bounds?, if_pos fits]
  unfold ForHeader.startingAt?
  rw [taken, dropped, plain.words_boundsText, bounds]
  split
  · rename_i empty
    exact absurd empty plain.start.filled
  · simp only [Option.map_some, String.ofList_toList]

theorem phrase_start : Phrase (h.start.toList ++ boundsText h) := by
  have phrases : ∀ word ∈ ["to".toList, h.limit.toList, "step".toList, h.step.toList],
      Phrase word := fun word member => (plain.tokens word member).phrase blank_itemBreak
  have inner := List.forall_mem_cons.mp phrases
  exact (plain.start.phrase blank_itemBreak).around (phrase_spaced inner.1 inner.2) [' ']

theorem phrase (isLoopName : LoopName h.counter.toList) : Phrase (headerText h) :=
  (isLoopName.token.phrase blank_itemBreak).around plain.phrase_start [' ', '=', ' ']

theorem no_comma (isLoopName : LoopName h.counter.toList) :
    ∀ c ∈ headerText h, comma c = false := by
  have plainWord {s : List Char} (token : Token itemBreak s) : ∀ c ∈ s, comma c = false :=
    (token_item.mp token).2.plain
  simp only [headerText, boundsText, List.forall_mem_append, List.forall_mem_cons]
  refine ⟨plainWord isLoopName.token, rfl, rfl, rfl, plainWord plain.start, rfl, ?_⟩
  intro c member
  rcases mem_spaced member with rfl | ⟨word, listed, inside⟩
  · rfl
  · exact plainWord (plain.tokens word listed) c inside

theorem ofWords? (isLoopName : LoopName h.counter.toList) :
    ForHeader.ofWords? (headerText h) = some h := by
  have stops : ∀ c, (' ' :: '=' :: ' ' :: (h.start.toList ++ boundsText h)).head? = some c →
      ForHeader.isLetterOrDigit c = false := by
    rintro c ⟨⟩
    rfl
  obtain ⟨taken, dropped⟩ := takeWhile_run isLoopName.inside stops
  have sign : trimStart (' ' :: '=' :: ' ' :: (h.start.toList ++ boundsText h)) =
      '=' :: ' ' :: (h.start.toList ++ boundsText h) := rfl
  have start : trimStart (' ' :: (h.start.toList ++ boundsText h)) =
      h.start.toList ++ boundsText h :=
    (trimStart_blanks (show [' '].all isBlank = true from rfl) _).trans
      (trimStart_eq_self plain.phrase_start.trimmed.begins)
  unfold ForHeader.ofWords? headerText
  rw [taken, dropped]
  simp only [isLoopName.begins, sign, start, plain.startingAt?]
  rfl

end PlainBounds

theorem readFor_printed {h : ForHeader} (isLoopName : LoopName h.counter.toList)
    (plain : PlainBounds h) : readFor (headerText h) = .ok (forNext h) := by
  have phrase := plain.phrase isLoopName
  have parts : ((split comma (headerText h)).map trim).filter (!·.isEmpty) = [headerText h] := by
    rw [split_whole (plain.no_comma isLoopName), List.map_singleton, phrase.trimmed.trim_eq]
    exact List.filter_cons_of_pos (by simpa using phrase.filled)
  have filled : (headerText h).isEmpty = false := by
    simpa using phrase.filled
  unfold readFor
  simp only [filled, Bool.false_eq_true, ↓reduceIte, parts, plain.ofWords? isLoopName]
  rfl

/-! ### Calls and drawings -/

theorem readCall_printed {given : String} {arguments : List String}
    (fits : (call given arguments).Fits) :
    readCall (spaced given.toList (arguments.map String.toList)) = .ok (call given arguments) := by
  obtain ⟨named, tokens⟩ := fits
  have isName := token_of_isName named plain_itemBreak
  have found : items (spaced given.toList (arguments.map String.toList)) =
      given.toList :: arguments.map String.toList := by
    apply fields_spaced rfl isName
    rw [List.forall_mem_map]
    exact tokens
  have texts : (arguments.map String.toList).map String.ofList = arguments := by
    simp [Function.comp_def]
  unfold readCall
  rw [found]
  simp only [name_of_isName named, texts]
  rfl

theorem split_listed {pieces : List (List Char)} (filled : pieces ≠ [])
    (tokens : ∀ piece ∈ pieces, Token comma piece) :
    split comma ([','].intercalate pieces) = pieces := by
  rw [split_eq_splitOnP]
  apply List.splitOn_intercalate ',' ?_ filled
  intro piece member inside
  cases (tokens piece member).plain ',' inside

theorem readDrawing_printed {drawing : Drawing} {arguments : List String}
    (fits : (draw drawing arguments).Fits) (legal : (draw drawing arguments).Legal) :
    readDrawing drawing ([','].intercalate (arguments.map String.toList)) =
      .ok (draw drawing arguments) := by
  have texts : (arguments.map String.toList).map String.ofList = arguments := by
    simp [Function.comp_def]
  have each : ∀ argument ∈ arguments.map String.toList, Phrase argument ∧ Token comma argument := by
    rw [List.forall_mem_map]
    exact fits
  have parts : (if ([','].intercalate (arguments.map String.toList)).isEmpty then []
      else (split comma ([','].intercalate (arguments.map String.toList))).map trim) =
      arguments.map String.toList := by
    generalize arguments.map String.toList = pieces at each
    cases pieces with
    | nil => rfl
    | cons piece pieces =>
        have cut : split comma ([','].intercalate (piece :: pieces)) = piece :: pieces :=
          split_listed (List.cons_ne_nil _ _) fun piece member => (each piece member).2
        have filled : ([','].intercalate (piece :: pieces)).isEmpty = false := by
          rw [List.isEmpty_eq_false_iff]
          intro empty
          rw [empty] at cut
          cases cut
          exact (each [] List.mem_cons_self).1.filled rfl
        rw [filled, cut]
        exact map_trim fun piece member => (each piece member).1
  have filled : (arguments.map String.toList).any (·.isEmpty) = false := by
    rw [List.any_eq_false]
    intro argument member
    simpa using (each argument member).1.filled
  obtain ⟨least, most⟩ : drawing.arity.1 ≤ arguments.length ∧ arguments.length ≤ drawing.arity.2 :=
    legal
  have count : (decide ((arguments.map String.toList).length < drawing.arity.1) ||
      decide (drawing.arity.2 < (arguments.map String.toList).length)) = false := by
    simp [Nat.not_lt.mpr least, Nat.not_lt.mpr most]
  unfold readDrawing
  simp only [parts, filled, count, texts]
  rfl

/-! ### Methods -/

def parameterText (p : Parameter) : List Char := spaced p.kind.toList [p.name.toList]

def parametersText (parameters : List Parameter) : List Char :=
  [','].intercalate (parameters.map fun p => ' ' :: parameterText p)

theorem phrase_parameterText {p : Parameter} (isKind : Token itemBreak p.kind.toList)
    (named : isName p.name.toList = true) : Phrase (parameterText p) := by
  apply phrase_spaced (isKind.phrase blank_itemBreak)
  rw [List.forall_mem_singleton]
  exact phrase_of_isName named

theorem token_parameterText {p : Parameter} (isKind : Token itemBreak p.kind.toList)
    (named : isName p.name.toList = true) : Token comma (parameterText p) := by
  refine ⟨(phrase_parameterText isKind named).filled, fun c member => ?_⟩
  rcases mem_spaced member with rfl | ⟨word, listed, inside⟩
  · rfl
  · have tokens : ∀ word ∈ [p.kind.toList, p.name.toList], Token itemBreak word := by
      rw [List.forall_mem_cons, List.forall_mem_singleton]
      exact ⟨isKind, token_of_isName named plain_itemBreak⟩
    exact (token_item.mp (tokens word listed)).2.plain c inside

theorem readParameter_printed {earlier : List Parameter} {p : Parameter}
    (isKind : Token itemBreak p.kind.toList) (named : isName p.name.toList = true)
    (other : p.name ∉ earlier.map (·.name)) :
    readParameter earlier (parameterText p) = .ok p := by
  have found : words (parameterText p) = [p.kind.toList, p.name.toList] := by
    apply fields_spaced rfl (token_item.mp isKind).1
    rw [List.forall_mem_singleton]
    exact token_of_isName named fun c => visible_of_isNameChar
  have absent : earlier.any (·.name == p.name) = false := by
    rw [List.any_eq_false]
    intro q member same
    exact other (List.mem_map.mpr ⟨q, member, beq_iff_eq.mp same⟩)
  have read : name p.name.toList = .ok p.name := name_of_isName named
  unfold readParameter
  rw [found]
  simp only [read, String.ofList_toList]
  change (if earlier.any (·.name == p.name) then _ else _) = _
  rw [absent]
  rfl

theorem foldlM_parameters {earlier more : List Parameter}
    (fit : ∀ p ∈ more, Token itemBreak p.kind.toList ∧ isName p.name.toList = true)
    (distinct : ((earlier ++ more).map (·.name)).Nodup) :
    (more.map parameterText).foldlM
      (fun earlier part => do return earlier ++ [← readParameter earlier part]) earlier =
        .ok (earlier ++ more) := by
  induction more generalizing earlier with
  | nil => exact congrArg Except.ok (List.append_nil earlier).symm
  | cons p more ih =>
      rw [List.forall_mem_cons] at fit
      have other : p.name ∉ earlier.map (·.name) := by
        intro member
        rw [List.map_append, List.nodup_append] at distinct
        exact distinct.2.2 _ member _ List.mem_cons_self rfl
      have longer : ((earlier ++ [p] ++ more).map (·.name)).Nodup := by
        simpa using distinct
      have again := ih fit.2 longer
      rw [List.append_assoc] at again
      rw [List.map_cons, List.foldlM_cons, readParameter_printed fit.1.1 fit.1.2 other]
      exact again

theorem readParameters_printed {parameters : List Parameter}
    (fit : ∀ p ∈ parameters, Token itemBreak p.kind.toList ∧ isName p.name.toList = true)
    (distinct : (parameters.map (·.name)).Nodup) :
    readParameters (parametersText parameters) = .ok parameters := by
  have parts : ((split comma (parametersText parameters)).map trim).filter (!·.isEmpty) =
      parameters.map parameterText := by
    by_cases none : parameters = []
    · rw [none]
      rfl
    · have phrases : ∀ p ∈ parameters, Phrase (parameterText p) := fun p member =>
        phrase_parameterText (fit p member).1 (fit p member).2
      have tokens : ∀ piece ∈ parameters.map (fun p => ' ' :: parameterText p),
          Token comma piece := by
        rw [List.forall_mem_map]
        intro p member
        refine ⟨List.cons_ne_nil _ _, List.forall_mem_cons.mpr ⟨rfl, fun c inside => ?_⟩⟩
        exact (token_parameterText (fit p member).1 (fit p member).2).plain c inside
      have bare : (parameters.map fun p => ' ' :: parameterText p).map trim =
          parameters.map parameterText := by
        rw [List.map_map]
        exact List.map_congr_left fun p member => trim_space (phrases p member)
      rw [parametersText, split_listed (by simpa using none) tokens, bare, List.filter_eq_self,
        List.forall_mem_map]
      intro p member
      simpa using (phrases p member).filled
  unfold readParameters
  rw [parts]
  exact foldlM_parameters fit distinct

theorem readMethod_printed {m : Signature} (fits : (method m).Fits) (legal : (method m).Legal) :
    readMethod (m.returns.keyword.toList ++ ([' '] ++ (m.name.toList ++
      parametersText m.parameters))) = .ok (method m) := by
  obtain ⟨scalar, named, fit⟩ := fits
  have ends : ∀ c, (parametersText m.parameters).head? = some c → isBlank c = true := by
    cases m.parameters with
    | nil => nofun
    | cons p rest =>
        cases rest with
        | nil =>
            rintro c ⟨⟩
            rfl
        | cons q rest =>
            rintro c ⟨⟩
            rfl
  have isKind : Token isBlank m.returns.keyword.toList := by
    apply token_of_isName ?_ fun c => visible_of_isNameChar
    cases m.returns <;> rfl
  have isName : Token isBlank m.name.toList := token_of_isName named fun c => visible_of_isNameChar
  have first : IsWord isBlank [] m.returns.keyword.toList
      ([' '] ++ (m.name.toList ++ parametersText m.parameters)) :=
    ⟨isKind.filled, isKind.plain, nofun, by rintro c ⟨⟩; rfl⟩
  have second : IsWord isBlank [' '] m.name.toList (parametersText m.parameters) :=
    ⟨isName.filled, isName.plain, by rintro c ⟨⟩; rfl, ends⟩
  have found : words (m.returns.keyword.toList ++ ([' '] ++ (m.name.toList ++
      parametersText m.parameters))) =
      m.returns.keyword.toList :: m.name.toList :: words (parametersText m.parameters) := by
    have outer := first.fields_eq
    rw [second.fields_eq] at outer
    exact outer
  have known : Kind.ofKeyword? (String.ofList m.returns.keyword.toList) = some m.returns := by
    rw [String.ofList_toList]
    cases m.returns <;> rfl
  have behind : behindWord (behindWord (m.returns.keyword.toList ++ ([' '] ++ (m.name.toList ++
      parametersText m.parameters)))) = parametersText m.parameters := by
    have outer := behindWord_eq (show [].all isBlank = true from rfl) first
    rw [List.nil_append] at outer
    rw [outer, behindWord_eq rfl second]
  unfold readMethod
  rw [found]
  simp only [known, behind, name_of_isName named, readParameters_printed fit legal]
  obtain ⟨given, returns, parameters⟩ := m
  cases returns with
  | array => exact absurd rfl scalar
  | _ => rfl

theorem space_joined {pieces : List (List Char)} (filled : pieces ≠ []) :
    ' ' :: [',', ' '].intercalate pieces = [','].intercalate (pieces.map (' ' :: ·)) := by
  obtain ⟨first, rest, rfl⟩ := List.exists_cons_of_ne_nil filled
  induction rest generalizing first with
  | nil => simp
  | cons second rest ih =>
      have later := ih second (List.cons_ne_nil _ _)
      rw [List.map_cons] at later
      rw [List.intercalate_cons_cons, List.map_cons, List.map_cons, List.intercalate_cons_cons, ← later]
      simp

/-! ### The text of a statement -/

/-- The statement can be told from its text: there are no names in a declaration that have no value,
and no blanks in the bounds of a loop. -/
def Legible : Statement → Prop
  | declare d => d.extra = []
  | forNext h => ∀ c ∈ h.start.toList ++ h.limit.toList ++ h.step.toList, isBlank c = false
  | _ => True

variable (number : Nat)

attribute [local simp] text

theorem reads_declare {d : Declaration} (fits : (declare d).Fits) (single : d.extra = []) :
    (Line.ofText number (declare d).text.toList).statement = .ok (declare d) := by
  have printed : (declare d).text.toList = d.kind.keyword.toList ++
      ' ' :: (d.name.toList ++ ([' '] ++ '=' :: ' ' :: d.expression.toList)) := by
    simp [toString, single]
  have phrase := (phrase_of_isName fits.2.1).around fits.2.2 [' ', '=', ' ']
  have listed : commands.lookup (lowercase d.kind.keyword) = some (readDeclaration d.kind) := by
    cases kind : d.kind with
    | array => exact absurd kind fits.1
    | _ => rfl
  have letters : d.kind.keyword.toList.all Char.isAlpha = true := by
    cases d.kind <;> decide
  have filled : d.kind.keyword.toList ≠ [] := by
    cases d.kind <;> decide
  exact Line.reads_text number d.kind.keyword printed listed letters filled phrase
    (readDeclaration_printed fits single)

theorem reads_array {a : ArrayDeclaration} (fits : (array a).Fits) :
    (Line.ofText number (array a).text.toList).statement = .ok (array a) := by
  have printed : (array a).text.toList = "array".toList ++ ' ' :: spaced a.kind.keyword.toList
      (a.name.toList :: a.rows.toList :: (a.columns.map String.toList).toList) := by
    cases columns : a.columns <;> simp [toString, spaced, columns]
  have read := readArray_printed fits
  obtain ⟨kinds, named, rows, columns⟩ := fits
  have phrase : Phrase (spaced a.kind.keyword.toList
      (a.name.toList :: a.rows.toList :: (a.columns.map String.toList).toList)) := by
    apply phrase_spaced
    · apply phrase_of_isName
      rcases kinds with kind | kind <;> rw [kind] <;> rfl
    · simp only [List.forall_mem_cons, Option.mem_toList, Option.map_eq_some_iff]
      refine ⟨phrase_of_isName named, rows.phrase blank_cellBreak, ?_⟩
      rintro _ ⟨text, listed, rfl⟩
      exact (columns text listed).phrase blank_cellBreak
  exact Line.reads_text number "array" printed rfl (by decide) (by decide) phrase read

theorem reads_poke {p : Poke} (fits : (poke p).Fits) :
    (Line.ofText number (poke p).text.toList).statement = .ok (poke p) := by
  have read := readPoke_printed fits
  obtain ⟨named, row, column, value⟩ := fits
  have front : Phrase (spaced p.array.toList [p.row.toList, p.column.toList]) := by
    apply phrase_spaced (phrase_of_isName named)
    rw [List.forall_mem_cons, List.forall_mem_singleton]
    exact ⟨row.phrase blank_pokeBreak, column.phrase blank_pokeBreak⟩
  have phrase := front.around value [' ', '=', ' ']
  exact Line.reads_text number "poke" (by simp [toString, spaced]) rfl (by decide) (by decide)
    phrase read

theorem reads_peek {p : Peek} (fits : (peek p).Fits) :
    (Line.ofText number (peek p).text.toList).statement = .ok (peek p) := by
  have read := readPeek_printed fits
  obtain ⟨-, -, isTarget, isArray, isRow, isColumn⟩ := fits
  have word {s : List Char} (isWord : PeekWord s) : Phrase s := isWord.token.phrase blank_cellBreak
  have phrase : Phrase (spaced p.target.toList
      [['='], p.array.toList, p.row.toList, p.column.toList]) := by
    apply phrase_spaced (word isTarget)
    simp only [List.forall_mem_cons]
    refine ⟨⟨nofun, ?_⟩, word isArray, word isRow, word isColumn, nofun⟩
    exact trimmed_of_visible (List.forall_mem_singleton.mpr rfl)
  exact Line.reads_text number "peek" (by simp [toString, spaced]) rfl (by decide) (by decide)
    phrase read

theorem reads_forNext {h : ForHeader} (fits : (forNext h).Fits) (legible : (forNext h).Legible) :
    (Line.ofText number (forNext h).text.toList).statement = .ok (forNext h) := by
  obtain ⟨isLoopName, isStart, isLimit, isStep⟩ := fits
  have visible : (∀ c ∈ h.start.toList, isBlank c = false) ∧
      (∀ c ∈ h.limit.toList, isBlank c = false) ∧ ∀ c ∈ h.step.toList, isBlank c = false := by
    simpa only [Legible, List.forall_mem_append, and_assoc] using legible
  have token {s : List Char} (token : Token comma s) (visible : ∀ c ∈ s, isBlank c = false) :
      Token itemBreak s := token_item.mpr ⟨⟨token.filled, visible⟩, token⟩
  have plain : PlainBounds h :=
    ⟨token isStart visible.1, token isLimit visible.2.1, token isStep visible.2.2⟩
  exact Line.reads_text number "for" (by simp [toString, headerText, boundsText, spaced]) rfl
    (by decide) (by decide) (plain.phrase isLoopName) (readFor_printed isLoopName plain)

theorem reads_endOf {block : Block} (legal : (endOf block).Legal) :
    (Line.ofText number (endOf block).text.toList).statement = .ok (endOf block) := by
  have read : readEnd block.keyword.toList = .ok (endOf block) := by
    cases block with
    | elseBlock => exact absurd rfl legal
    | _ => rfl
  have phrase : Phrase block.keyword.toList := by
    apply phrase_of_isName
    cases block <;> rfl
  exact Line.reads_text number "end" (by simp [toString]) rfl (by decide) (by decide) phrase read

theorem parametersText_eq {parameters : List Parameter} (filled : parameters ≠ []) :
    parametersText parameters = ' ' :: [',', ' '].intercalate (parameters.map parameterText) := by
  rw [space_joined (by simpa using filled), List.map_map]
  rfl

theorem text_method (m : Signature) : (method m).text.toList =
    "method".toList ++ ' ' :: (m.returns.keyword.toList ++
      ([' '] ++ (m.name.toList ++ parametersText m.parameters))) := by
  have texts : (m.parameters.map fun p => s!"{p.kind} {p.name}").map String.toList =
      m.parameters.map parameterText := by
    rw [List.map_map]
    exact List.map_congr_left fun p _ => by simp [parameterText, spaced, toString]
  by_cases none : m.parameters = []
  · simp [toString, none, parametersText]
  · rw [parametersText_eq none, ← texts]
    simp only [text]
    rw [if_neg (by simpa using none)]
    simp [toString]

theorem reads_method {m : Signature} (fits : (method m).Fits) (legal : (method m).Legal) :
    (Line.ofText number (method m).text.toList).statement = .ok (method m) := by
  have read := readMethod_printed fits legal
  obtain ⟨scalar, named, fit⟩ := fits
  have word : Phrase m.returns.keyword.toList := by
    apply phrase_of_isName
    cases m.returns <;> rfl
  have isName := phrase_of_isName named
  have behind : Phrase (m.name.toList ++ parametersText m.parameters) := by
    cases parameters : m.parameters with
    | nil =>
        rw [parametersText, List.map_nil, List.intercalate_nil, List.append_nil]
        exact isName
    | cons p rest =>
        rw [parameters, List.forall_mem_cons] at fit
        rw [parametersText_eq (List.cons_ne_nil p rest)]
        refine isName.around (phrase_joined [',', ' '] ?_ ?_) [' ']
        · exact phrase_parameterText fit.1.1 fit.1.2
        · rw [List.forall_mem_map]
          exact fun q member => phrase_parameterText (fit.2 q member).1 (fit.2 q member).2
  exact Line.reads_text number "method" (text_method m) rfl (by decide) (by decide)
    (word.around behind [' ']) read

theorem reads_call {given : String} {arguments : List String}
    (fits : (call given arguments).Fits) :
    (Line.ofText number (call given arguments).text.toList).statement =
      .ok (call given arguments) := by
  have phrase : Phrase (spaced given.toList (arguments.map String.toList)) := by
    apply phrase_spaced (phrase_of_isName fits.1)
    rw [List.forall_mem_map]
    exact fun argument member => (fits.2 argument member).phrase blank_itemBreak
  refine Line.reads_text number "call" ?_ rfl (by decide) (by decide) phrase (readCall_printed fits)
  simp [toString, spaced, List.flatMap_map]

theorem reads_draw {drawing : Drawing} {arguments : List String}
    (fits : (draw drawing arguments).Fits) (legal : (draw drawing arguments).Legal) :
    (Line.ofText number (draw drawing arguments).text.toList).statement =
      .ok (draw drawing arguments) := by
  have listed : commands.lookup (lowercase drawing.keyword) = some (readDrawing drawing) := by
    cases drawing <;> rfl
  have letters : drawing.keyword.toList.all Char.isAlpha = true := by
    cases drawing <;> decide
  have filled : drawing.keyword.toList ≠ [] := by
    cases drawing <;> decide
  have read := readDrawing_printed fits legal
  cases arguments with
  | nil =>
      exact Line.reads_word number drawing.keyword (by simp [toString]) listed letters filled
        read
  | cons argument rest =>
      have phrases : ∀ text ∈ (argument :: rest).map String.toList, Phrase text := by
        rw [List.forall_mem_map]
        exact fun text member => (fits text member).1
      rw [List.map_cons, List.forall_mem_cons] at phrases
      apply Line.reads_text number drawing.keyword ?_ listed letters filled
        (phrase_joined [','] phrases.1 phrases.2) read
      simp [toString]

theorem readCondition_printed {condition : String} (phrase : Phrase condition.toList)
    (word : String) : readCondition word condition.toList = .ok condition := by
  rw [readCondition, if_neg (by simpa using phrase.filled), String.ofList_toList]

theorem reads_text {statement : Statement} (fits : statement.Fits) (legal : statement.Legal)
    (legible : statement.Legible) :
    (Line.ofText number statement.text.toList).statement = .ok statement := by
  cases statement with
  | declare d => exact reads_declare number fits legible
  | array a => exact reads_array number fits
  | poke p => exact reads_poke number fits
  | peek p => exact reads_peek number fits
  | ifThen condition =>
      apply Line.reads_text number "if" (by simp [toString]) rfl (by decide) (by decide) fits
      exact congrArg (ifThen <$> ·) (readCondition_printed fits "IF")
  | otherwise =>
      exact Line.reads_word number "else" rfl rfl (by decide) (by decide) rfl
  | whileDo condition =>
      apply Line.reads_text number "while" (by simp [toString]) rfl (by decide) (by decide) fits
      exact congrArg (whileDo <$> ·) (readCondition_printed fits "WHILE")
  | forNext h => exact reads_forNext number fits legible
  | endOf block => exact reads_endOf number legal
  | method m => exact reads_method number fits legal
  | call given arguments => exact reads_call number fits
  | draw drawing arguments => exact reads_draw number fits legal
  | write expression =>
      apply Line.reads_text number "write" (by simp [toString]) rfl (by decide) (by decide) fits
      rw [readWrite, if_neg (by simpa using fits.filled), String.ofList_toList]

/-- However a statement was written, its text says the same, unless it declares names without a value
or has blanks in the bounds of a loop. -/
theorem statement_of_text (number number' : Nat) (s : List Char) (statement : Statement)
    (said : (Line.ofText number s).statement = .ok statement) (legible : statement.Legible) :
    (Line.ofText number' statement.text.toList).statement = .ok statement := by
  have fits := Line.fits_of_statement said
  have legal := (Line.statement_settles _).gives statement said
  exact reads_text number' fits legal legible

theorem statement_of_text_scattered :
    (Line.ofText 1 "  PEEK X=a(=,2) ".toList).statement = .ok (peek ⟨"X", "a", "=", "2"⟩) ∧
    (Line.ofText 9 (peek ⟨"X", "a", "=", "2"⟩).text.toList).statement =
      .ok (peek ⟨"X", "a", "=", "2"⟩) ∧
    (Line.ofText 1 "For i1 TO\t3 step x(2)".toList).statement =
      .ok (forNext ⟨"i", "1", "3", "x(2)"⟩) ∧
    (forNext ⟨"i", "1", "3", "x(2)"⟩).Legible ∧
    (Line.ofText 9 (forNext ⟨"i", "1", "3", "x(2)"⟩).text.toList).statement =
      .ok (forNext ⟨"i", "1", "3", "x(2)"⟩) := by
  have peeks : (Line.ofText 1 "  PEEK X=a(=,2) ".toList).statement =
      .ok (peek ⟨"X", "a", "=", "2"⟩) := by decide +kernel
  have loops : (Line.ofText 1 "For i1 TO\t3 step x(2)".toList).statement =
      .ok (forNext ⟨"i", "1", "3", "x(2)"⟩) := by decide +kernel
  have legible : (forNext ⟨"i", "1", "3", "x(2)"⟩).Legible := by
    intro c member
    have visible : ("1".toList ++ "3".toList ++ "x(2)".toList).all (!isBlank ·) = true := by decide
    simpa using List.all_eq_true.mp visible c member
  exact ⟨peeks, statement_of_text 1 9 _ _ peeks trivial, loops, legible,
    statement_of_text 1 9 _ _ loops legible⟩

end Statement

end Easel
