import Easel.Proofs.Source.Assignments
import Easel.Proofs.Source.Declarations

/-! Preparing a prepared source. An assignment that got its kind is a declaration for the second
pass, but it declares nothing that was not declared with the same kind before, so the kinds are a
fixed point. Breaks and blanks are stable too, and only a byte order mark that stood behind blanks is
found by the second pass and not by the first. -/

namespace Easel

theorem Text.isAlpha_of_toLower {c : Char} (alpha : c.toLower.isAlpha = true) :
    c.isAlpha = true := by
  unfold Char.toLower at alpha
  split at alpha
  · rename_i upper
    have capital : c.isUpper = true := decide_eq_true upper
    have sorts : c.isAlpha = (c.isUpper || c.isLower) := rfl
    rw [sorts, capital, Bool.true_or]
  · exact alpha

theorem Kind.isCommand_of_keyword {word : String} {kind : Kind}
    (names : Kind.ofKeyword? word = some kind) : Statement.isCommand word = true := by
  rw [Statement.isCommand, Kind.ofKeyword?_eq_some.mp names]
  cases kind <;> rfl

namespace Source

open Text

variable {line : Line} {name : String} {kind : Kind} {table first kinds : Kinds}

/-! ### Lines that assign without a kind -/

theorem assigned_eq_some (trimmed : Trimmed line.text.toList)
    (assigned : assigned? line = some name) :
    Statement.isCommand line.keyword = false ∧ isName name.toList = true ∧ ∃ back,
      line.text.toList = name.toList ++ back ∧ IsWord isBreak [] name.toList back := by
  unfold assigned? at assigned
  split at assigned
  · cases assigned
  · rename_i bare
    rw [Bool.or_eq_true, not_or, Bool.not_eq_true, Bool.not_eq_true] at bare
    split at assigned
    · rename_i left right cut
      split at assigned
      · rename_i single
        cases assigned
        rw [Bool.and_eq_true] at single
        obtain ⟨front, blanks, margin, blank, whole⟩ := exists_trim left
        have text := cut?_eq_some cut
        have begins : front = [] := by
          cases front with
          | nil => rfl
          | cons c front =>
              have visible := trimmed.begins c (by rw [text, whole]; rfl)
              simp [visible] at margin
        have named := isNameChar_of_isName single.2
        simp only [String.toList_ofList]
        refine ⟨bare.2, single.2, blanks ++ '=' :: right, ?_, ?_, ?_, by simp, ?_⟩
        · rw [text]
          conv => lhs; rw [whole, begins]
          simp
        · intro empty
          simp [empty, isName] at single
        · exact fun c member => not_break_of_isNameChar (named c member)
        · intro c next
          cases blanks with
          | nil =>
              cases next
              rfl
          | cons d blanks =>
              cases next
              simp [isBreak, List.all_eq_true.mp blank c List.mem_cons_self]
      · cases assigned
    · cases assigned

theorem not_kind_of_assigned {back : List Char} (other : Statement.isCommand line.keyword = false)
    (text : line.text.toList = name.toList ++ back) (isWord : IsWord isBreak [] name.toList back)
    (kind : Kind) : sameWord name.toList kind.keyword.toList = false := by
  cases same : sameWord name.toList kind.keyword.toList with
  | false => rfl
  | true =>
      have lowered : lower name.toList = kind.keyword.toList := by
        rw [beq_iff_eq.mp same]
        cases kind <;> decide
      have letters : name.toList.all Char.isAlpha = true := by
        have all : (lower name.toList).all Char.isAlpha = true := by
          rw [lowered]
          cases kind <;> decide
        rw [lower, List.all_map, List.all_eq_true] at all
        exact List.all_eq_true.mpr fun c member => isAlpha_of_toLower (all c member)
      have stops : ∀ c, back.head? = some c → c.isAlpha = false := by
        intro c next
        cases alpha : c.isAlpha with
        | false => rfl
        | true =>
            have start : isNameStart c = true := by simp [isNameStart, alpha]
            have plain := not_break_of_isNameChar (isNameChar_iff.mpr (.inl start))
            rw [isWord.before c next] at plain
            cases plain
      have names : Kind.ofKeyword? line.keyword = some kind := by
        rw [Kind.ofKeyword?_eq_some, Line.keyword, text, (takeWhile_run letters stops).1, lowercase,
          String.toList_ofList, lowered, String.ofList_toList]
      rw [Kind.isCommand_of_keyword names] at other
      cases other

theorem keyword_behind_kind {row : List Char} (trimmed : Trimmed row)
    (text : line.text.toList = kind.keyword.toList ++ ' ' :: row) :
    line.keyword = kind.keyword ∧ line.parameters.toList = row := by
  have letters : kind.keyword.toList.all Char.isAlpha = true := by cases kind <;> decide
  have stops : ∀ c, (' ' :: row).head? = some c → c.isAlpha = false := by simp
  obtain ⟨taken, dropped⟩ := takeWhile_run letters stops
  have bare : trim (' ' :: row) = row :=
    (trim_blanks (show [' '].all isBlank = true from rfl) row).trans trimmed.trim_eq
  constructor
  · rw [Line.keyword, text, taken, String.ofList_toList]
  · rw [Line.parameters, text, dropped, String.toList_ofList, bare]

/-! ### The kinds of a prepared source -/

namespace Kinds

theorem ofLine_other (other : Statement.isCommand line.keyword = false) (kinds : Kinds) :
    kinds.ofLine line = kinds := by
  have noKind : Kind.ofKeyword? line.keyword = none := by
    cases names : Kind.ofKeyword? line.keyword with
    | none => rfl
    | some kind =>
        rw [Kind.isCommand_of_keyword names] at other
        cases other
  have noMethod : sameWord line.keyword.toList "method".toList = false := by
    cases same : sameWord line.keyword.toList "method".toList with
    | false => rfl
    | true =>
        have lowered : lowercase line.keyword = "method" := by
          rw [lowercase, beq_iff_eq.mp same]
          decide
        rw [Statement.isCommand, lowered] at other
        cases other
  rw [ofLine, noKind]
  dsimp only
  rw [noMethod]
  rfl

theorem ofLine_behind_kind {row back : List Char} (trimmed : Trimmed row)
    (text : line.text.toList = kind.keyword.toList ++ ' ' :: row)
    (begins : row = name.toList ++ back) (isWord : IsWord isBreak [] name.toList back)
    (other : sameWord name.toList kind.keyword.toList = false) (kinds : Kinds) :
    kinds.ofLine line = if kind = .array then kinds else kinds.insert name kind := by
  obtain ⟨keyword, parameters⟩ := keyword_behind_kind trimmed text
  have known : Kind.ofKeyword? kind.keyword = some kind := by cases kind <;> rfl
  have found : (fields isBreak row).find? (!sameWord · kind.keyword.toList) =
      some name.toList := by
    have words := isWord.fields_eq
    rw [List.nil_append] at words
    rw [begins, words]
    exact List.find?_cons_of_pos (by simp [other])
  have declares : kinds.ofDeclaration kind.keyword kind row = kinds.insert name kind := by
    unfold isBreak at found
    rw [ofDeclaration, found]
    simp
  rw [ofLine, keyword, parameters, known]
  cases kind with
  | array => rfl
  | int | real | boolean =>
      rw [if_neg (by decide)]
      exact declares

/-- Every name is as in the first table or as in the last one. -/
def Between (first last kinds : Kinds) : Prop :=
  ∀ name : String, kinds[name]? = first[name]? ∨ kinds[name]? = last[name]?

namespace Between

variable (between : Between first table kinds)

include between

theorem insert (name : String) (kind : Kind) :
    Between (first.insert name kind) table (kinds.insert name kind) := by
  intro other
  rw [getElem?_insert, getElem?_insert]
  split
  · exact .inl rfl
  · exact between other

theorem learn (known : table[name]? = some kind) :
    Between first table (kinds.insert name kind) := by
  intro other
  rw [getElem?_insert]
  split
  · rename_i same
    rw [← same, known]
    exact .inr rfl
  · exact between other

theorem ofParameter (s : List Char) :
    Between (first.ofParameter s) table (kinds.ofParameter s) := by
  unfold Kinds.ofParameter
  split
  · split
    · exact between.insert _ _
    · exact between
  · exact between

theorem ofParameters (pieces : List (List Char)) :
    Between (pieces.foldl Kinds.ofParameter first) table
      (pieces.foldl Kinds.ofParameter kinds) := by
  induction pieces generalizing first kinds with
  | nil => exact between
  | cons piece pieces ih => exact ih (between.ofParameter piece)

theorem ofMethod (s : List Char) : Between (first.ofMethod s) table (kinds.ofMethod s) := by
  unfold Kinds.ofMethod
  split
  · rename_i returns name rest two
    cases Kind.ofKeyword? (String.ofList returns) with
    | none =>
        dsimp only
        split
        · exact between.ofParameters _
        · exact between
    | some kind =>
        have named := between.insert (String.ofList name) kind
        dsimp only
        split
        · exact named.ofParameters _
        · exact named
  · exact between

theorem ofLine (line : Line) : Between (first.ofLine line) table (kinds.ofLine line) := by
  unfold Kinds.ofLine
  split
  · exact between
  · unfold Kinds.ofDeclaration
    split
    · exact between.insert _ _
    · exact between
  · split
    · exact between.ofMethod _
    · exact between

end Between

end Kinds

def annotated (table : Kinds) (line : Line) : Line := ⟨line.number, annotateLine table line⟩

theorem text_annotated (found : (assigned? line).bind (table[·]?) = some kind) :
    (annotated table line).text.toList = kind.keyword.toList ++ ' ' :: line.text.toList :=
  toList_annotateLine found

theorem annotated_eq_self (unknown : (assigned? line).bind (table[·]?) = none) :
    annotated table line = line := by
  rw [annotated, annotateLine, unknown]

/-- A line adds the same to the kinds before and after it is given on, but for what is in the last
table anyway. -/
theorem Kinds.Between.annotated (between : Between first table kinds)
    (trimmed : Trimmed line.text.toList) :
    Between (first.ofLine line) table (kinds.ofLine (annotated table line)) := by
  cases found : (assigned? line).bind (table[·]?) with
  | none =>
      rw [annotated_eq_self found]
      exact between.ofLine line
  | some kind =>
      obtain ⟨name, assigned, known⟩ := Option.bind_eq_some_iff.mp found
      obtain ⟨other, -, back, begins, isWord⟩ := assigned_eq_some trimmed assigned
      have noKind := not_kind_of_assigned other begins isWord kind
      rw [ofLine_other other, ofLine_behind_kind trimmed (text_annotated found) begins isWord noKind]
      split
      · exact between
      · exact between.learn known

theorem Kinds.Between.ofLines {lines : List Line} (between : Between first table kinds)
    (trimmed : ∀ line ∈ lines, Trimmed line.text.toList) :
    Between (lines.foldl Kinds.ofLine first) table
      ((lines.map (Source.annotated table)).foldl Kinds.ofLine kinds) := by
  induction lines generalizing first kinds with
  | nil => exact between
  | cons line lines ih =>
      rw [List.forall_mem_cons] at trimmed
      rw [List.map_cons, List.foldl_cons, List.foldl_cons]
      exact ih (between.annotated trimmed.1) trimmed.2

theorem all_prepare_eq (source : String) : Line.all (prepare source) =
    (plainLines source).map (annotated (Kinds.ofLines (plainLines source))) := all_prepare source

theorem ofLines_prepare (source : String) :
    Kinds.ofLines (Line.all (prepare source)) = Kinds.ofLines (plainLines source) := by
  have begins : Kinds.Between ∅ (Kinds.ofLines (plainLines source)) ∅ := fun _ => .inl rfl
  have between := begins.ofLines fun line (member : line ∈ plainLines source) =>
    (text_of_mem member).1
  rw [← all_prepare_eq] at between
  apply Std.ExtTreeMap.ext_getElem?
  intro name
  -- Once all lines are read, both tables in between are the last one.
  rcases between name with same | same <;> exact same

theorem annotateLine_annotated (table : Kinds) (trimmed : Trimmed line.text.toList) :
    annotateLine table (annotated table line) = annotateLine table line := by
  cases found : (assigned? line).bind (table[·]?) with
  | none => rw [annotated_eq_self found]
  | some kind =>
      have keyword : (annotated table line).keyword = kind.keyword :=
        (keyword_behind_kind trimmed (text_annotated found)).1
      have command : Statement.isCommand kind.keyword = true := by cases kind <;> rfl
      have nothing : assigned? (annotated table line) = none := by
        rw [assigned?, keyword, command, Bool.or_true]
        rfl
      rw [annotateLine, nothing]
      rfl

theorem annotate_prepare (source : String) : annotate (prepare source) = prepare source := by
  have again : (Line.all (prepare source)).map
      (annotateLine (Kinds.ofLines (Line.all (prepare source)))) =
      (plainLines source).map (annotateLine (Kinds.ofLines (plainLines source))) := by
    rw [ofLines_prepare, all_prepare_eq, List.map_map]
    apply List.map_congr_left
    intro line member
    exact annotateLine_annotated _ (text_of_mem member).1
  calc annotate (prepare source)
    _ = "\n".intercalate ((Line.all (prepare source)).map
        (annotateLine (Kinds.ofLines (Line.all (prepare source))))) := rfl
    _ = "\n".intercalate ((plainLines source).map
        (annotateLine (Kinds.ofLines (plainLines source)))) := by rw [again]
    _ = prepare source := rfl

/-! ### Breaks, blanks and marks -/

theorem Passes.count {row text : List Char} (passes : Passes row text) {c : Char}
    (letter : c.isAlpha = false) (space : c ≠ ' ') : text.count c = row.count c := by
  rcases passes with rfl | ⟨-, kind, rfl⟩
  · rfl
  · have absent : kind.keyword.toList.count c = 0 := by
      apply List.count_eq_zero.mpr
      intro member
      have letters : kind.keyword.toList.all Char.isAlpha = true := by cases kind <;> decide
      rw [List.all_eq_true.mp letters c member] at letter
      cases letter
    rw [List.count_append, absent, List.count_cons_of_ne (Ne.symm space), Nat.zero_add]

variable {source : String}

theorem count_prepare {c : Char} (visible : isBlank c = false) (letter : c.isAlpha = false) :
    (prepare source).toList.count c = (normalize source).toList.count c := by
  have space : c ≠ ' ' := by
    rintro rfl
    cases visible
  have each : ∀ line ∈ plainLines source,
      ((annotated (Kinds.ofLines (plainLines source)) line).text.toList).count c =
        line.text.toList.count c :=
    fun line _ => (passes_annotateLine _ line).count letter space
  calc (prepare source).toList.count c
    _ = ((Line.all (prepare source)).map (·.text.toList)).flatten.count c := by
        rw [texts_all, count_lines visible]
    _ = ((plainLines source).map (·.text.toList)).flatten.count c := by
        rw [all_prepare_eq, List.map_map, List.count_flatten, List.count_flatten, List.map_map,
          List.map_map]
        exact congrArg List.sum (List.map_congr_left each)
    _ = (normalize source).toList.count c := by rw [texts_all, count_lines visible]

theorem toList_normalize (source : String) : (normalize source).toList =
    trim ((unifyBreaks source.toList).dropWhile (· == byteOrderMark)) := String.toList_ofList

theorem trimmed_normalize (source : String) : Trimmed (normalize source).toList := by
  rw [toList_normalize]
  exact trimmed_trim _

theorem no_return_normalize (source : String) : '\r' ∉ (normalize source).toList := by
  rw [toList_normalize]
  intro member
  obtain ⟨front, back, -, -, whole⟩ :=
    exists_trim ((unifyBreaks source.toList).dropWhile (· == byteOrderMark))
  apply not_mem_unifyBreaks source.toList
  apply List.dropWhile_subset (· == byteOrderMark)
  rw [whole]
  simp [member]

theorem toList_prepare (source : String) : (prepare source).toList =
    ['\n'].intercalate ((plainLines source).map fun line =>
      (annotateLine (Kinds.ofLines (plainLines source)) line).toList) := by
  rw [prepare, annotate, String.toList_intercalate, List.map_map]
  rfl

theorem text_subset (member : line ∈ Line.all source) : line.text.toList ⊆ source.toList := by
  have listed : line.text.toList ∈ (lines source.toList).map trim := by
    rw [← texts_all]
    exact List.mem_map_of_mem member
  obtain ⟨piece, inside, same⟩ := List.mem_map.mp listed
  obtain ⟨front, back, -, -, whole⟩ := exists_trim piece
  intro c letter
  apply (mem_split (mem_lines inside)).1
  rw [whole, same]
  simp [letter]

theorem no_return_prepare (source : String) : '\r' ∉ (prepare source).toList := by
  intro member
  have inLines : '\r' ∈ (lines (prepare source).toList).flatten := by
    rw [flatten_lines, ← List.count_pos_iff, count_split rfl, List.count_pos_iff]
    exact member
  rw [lines_prepare] at inLines
  obtain ⟨text, listed, inside⟩ := List.mem_flatten.mp inLines
  obtain ⟨line, member, rfl⟩ := List.mem_map.mp listed
  have same := (passes_annotateLine (Kinds.ofLines (plainLines source)) line).count
    (show '\r'.isAlpha = false from rfl) (by decide)
  rw [← List.count_pos_iff, same, List.count_pos_iff] at inside
  exact no_return_normalize source (text_subset member inside)

theorem head?_of_first (begins : (plainLines source).head? = some line) :
    line.text.toList ≠ [] ∧ line.text.toList.head? = (normalize source).toList.head? := by
  have texts := congrArg List.head? (texts_all (normalize source))
  rw [List.head?_map, begins] at texts
  have trimmed := trimmed_normalize source
  cases whole : (normalize source).toList with
  | nil =>
      rw [whole] at texts
      cases texts
  | cons c tail =>
      have visible := trimmed.begins c (by rw [whole]; rfl)
      rw [lines_eq_split_of_visible (by simp [whole]) trimmed.ends] at texts
      obtain ⟨rest, pieces⟩ := split_first isFeed (normalize source).toList
      rw [pieces, whole, List.takeWhile_cons_of_pos (by simp [isFeed_of_visible visible])] at texts
      have first : line.text.toList = trim (c :: tail.takeWhile (!isFeed ·)) := Option.some.inj texts
      rw [first, head?_trim visible]
      exact ⟨trim_ne_nil List.mem_cons_self visible, rfl⟩

theorem trimmed_prepare (source : String) : Trimmed (prepare source).toList := by
  have passes := passes_annotateLine (Kinds.ofLines (plainLines source))
  rw [toList_prepare]
  constructor
  · intro c next
    cases lines : plainLines source with
    | nil => simp [lines] at next
    | cons line rest =>
        have begins : (plainLines source).head? = some line := by rw [lines]; rfl
        have member : line ∈ plainLines source := List.mem_of_head? begins
        rw [lines, List.map_cons, ← lines,
          head?_joined ((passes line).filled (head?_of_first begins).1)] at next
        exact ((passes line).trimmed (text_of_mem member).1).begins c next
  · intro c next
    rcases List.eq_nil_or_concat (plainLines source) with lines | ⟨front, line, lines⟩
    · simp [lines] at next
    · rw [List.concat_eq_append] at lines
      have last : (plainLines source).getLast? = some line := by rw [lines, List.getLast?_concat]
      have member : line ∈ plainLines source := List.mem_of_getLast? last
      rw [lines, List.map_append, List.map_singleton, ← lines,
        getLast?_joined ((passes line).filled (text_of_last last))] at next
      exact ((passes line).trimmed (text_of_mem member).1).ends c next

theorem annotateLine_marked (table : Kinds) (trimmed : Trimmed line.text.toList)
    (marked : line.text.toList.head? = some byteOrderMark) :
    annotateLine table line = line.text := by
  have nothing : assigned? line = none := by
    cases assigned : assigned? line with
    | none => rfl
    | some name =>
        obtain ⟨-, named, back, begins, isWord⟩ := assigned_eq_some trimmed assigned
        rw [begins, List.head?_append_of_ne_nil _ isWord.filled] at marked
        cases isNameChar_of_isName named byteOrderMark (List.mem_of_head? marked)
  rw [annotateLine, nothing]
  rfl

theorem marked_prepare : (prepare source).toList.head? = some byteOrderMark ↔
    (normalize source).toList.head? = some byteOrderMark := by
  rw [toList_prepare]
  cases lines : plainLines source with
  | nil =>
      have empty : (normalize source).toList = [] := by
        by_contra filled
        have none : Text.lines (normalize source).toList = [] := by
          simpa [plainLines, Line.all] using lines
        rw [lines_eq_split_of_visible filled (trimmed_normalize source).ends] at none
        exact split_ne_nil _ _ none
      simp [empty]
  | cons line rest =>
      have begins : (plainLines source).head? = some line := by rw [lines]; rfl
      have trimmed := (text_of_mem (List.mem_of_head? begins)).1
      have passes := passes_annotateLine (Kinds.ofLines (plainLines source)) line
      obtain ⟨filled, same⟩ := head?_of_first begins
      rw [List.map_cons, ← lines, head?_joined (passes.filled filled), ← same]
      constructor
      · intro marked
        rcases passes with plain | ⟨-, kind, text⟩
        · rw [plain] at marked
          exact marked
        · rw [text] at marked
          cases kind <;> cases marked
      · intro marked
        rw [annotateLine_marked _ trimmed marked]
        exact marked

theorem normalize_prepare (unmarked : (prepare source).toList.head? ≠ some byteOrderMark) :
    normalize (prepare source) = prepare source := by
  have kept : (prepare source).toList.dropWhile (· == byteOrderMark) = (prepare source).toList := by
    cases whole : (prepare source).toList with
    | nil => rfl
    | cons c tail =>
        apply List.dropWhile_cons_of_neg
        intro mark
        apply unmarked
        rw [whole, beq_iff_eq.mp mark]
        rfl
  rw [normalize, unifyBreaks_eq_self (no_return_prepare source), kept, (trimmed_prepare source).trim_eq,
    String.ofList_toList]

/-- Preparing a source for a second time changes nothing, just if there is no byte order mark in front
of it once breaks are made alike and the blanks are dropped. -/
theorem prepare_idempotent (source : String) : prepare (prepare source) = prepare source ↔
    (normalize source).toList.head? ≠ some byteOrderMark := by
  constructor
  · intro same marked
    -- The second pass drops the mark, and puts none in its place.
    have count : (prepare (prepare source)).toList.count byteOrderMark =
        (normalize (prepare source)).toList.count byteOrderMark := count_prepare rfl rfl
    obtain ⟨tail, whole⟩ := List.head?_eq_some_iff.mp (marked_prepare.mpr marked)
    rw [same, toList_normalize, count_trim rfl, unifyBreaks_eq_self (no_return_prepare source), whole,
      List.dropWhile_cons_of_pos (by simp), List.count_cons_self] at count
    have fewer : (tail.dropWhile (· == byteOrderMark)).count byteOrderMark ≤
        tail.count byteOrderMark := (List.dropWhile_sublist _).count_le _
    omega
  · intro unmarked
    calc prepare (prepare source)
      _ = annotate (normalize (prepare source)) := rfl
      _ = annotate (prepare source) := by rw [normalize_prepare (mt marked_prepare.mp unmarked)]
      _ = prepare source := annotate_prepare source

-- A mark behind a blank is found by the second pass only.
example : prepare " \ufeffx" = "\ufeffx" ∧ prepare "\ufeffx" = "x" := by decide +kernel

end Source

end Easel
