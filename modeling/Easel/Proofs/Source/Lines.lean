import Easel.Source
import Easel.Proofs.Text.Splitting

/-! The lines of a source file, and which of them are left when the source is prepared. -/

namespace Easel.Source

open Text

/-! ### Lines of a file -/

/-- The lines of a file. A line ends at a line feed, at a carriage return, or at the two together. -/
def breakLines : List Char → List (List Char)
  | [] => [[]]
  | '\r' :: '\n' :: s => [] :: breakLines s
  | '\r' :: s => [] :: breakLines s
  | '\n' :: s => [] :: breakLines s
  | c :: s => (breakLines s).modifyHead (c :: ·)

/-- The lines as they are read: byte order marks at the beginning of the file and blanks around the
lines do not count. -/
def fileLines (source : String) : List (List Char) :=
  (breakLines (source.toList.dropWhile (· == byteOrderMark))).map trim

def emptyLines (source : String) : Nat := ((fileLines source).takeWhile List.isEmpty).length

variable {s : List Char} {c : Char}

theorem unifyBreaks_other (other : c ≠ '\r') (s : List Char) :
    unifyBreaks (c :: s) = c :: unifyBreaks s := by
  unfold unifyBreaks
  rw [List.foldr_cons, beq_eq_false_iff_ne.mpr other]
  rfl

theorem unifyBreaks_return (s : List Char) : unifyBreaks ('\r' :: s) =
    if s.head? = some '\n' then unifyBreaks s else '\n' :: unifyBreaks s := by
  cases s with
  | nil => rfl
  | cons d s =>
      unfold unifyBreaks
      rw [List.foldr_cons, List.foldr_cons]
      by_cases again : d = '\r'
      · subst again
        rfl
      · rw [beq_eq_false_iff_ne.mpr again]
        by_cases feed : d = '\n'
        · subst feed
          rfl
        · rw [if_neg (by simpa using feed), beq_eq_false_iff_ne.mpr feed]
          rfl

theorem unifyBreaks_eq_self {s : List Char} (plain : '\r' ∉ s) : unifyBreaks s = s := by
  induction s with
  | nil => rfl
  | cons c s ih =>
      rw [List.mem_cons, not_or] at plain
      rw [unifyBreaks_other (Ne.symm plain.1), ih plain.2]

theorem not_mem_unifyBreaks (s : List Char) : '\r' ∉ unifyBreaks s := by
  induction s with
  | nil => exact List.not_mem_nil
  | cons c s ih =>
      by_cases back : c = '\r'
      · subst back
        rw [unifyBreaks_return]
        split
        · exact ih
        · simpa using ih
      · rw [unifyBreaks_other back, List.mem_cons, not_or]
        exact ⟨Ne.symm back, ih⟩

theorem split_unifyBreaks (s : List Char) : split isFeed (unifyBreaks s) = breakLines s := by
  fun_induction breakLines s with
  | case1 => rfl
  | case2 s ih =>
      rw [unifyBreaks_return, List.head?_cons, if_pos rfl, unifyBreaks_other (by decide),
        split_separator rfl, ih]
  | case3 s other ih =>
      have noFeed : s.head? ≠ some '\n' := by
        intro next
        obtain ⟨tail, rfl⟩ := List.head?_eq_some_iff.mp next
        exact other tail rfl
      rw [unifyBreaks_return, if_neg noFeed, split_separator rfl, ih]
  | case4 s ih => rw [unifyBreaks_other (by decide), split_separator rfl, ih]
  | case5 c s _ noReturn noFeed ih =>
      have plain : isFeed c = false := beq_eq_false_iff_ne.mpr noFeed
      rw [unifyBreaks_other noReturn, split_other plain, ih]

theorem unifyBreaks_dropMarks (s : List Char) :
    (unifyBreaks s).dropWhile (· == byteOrderMark) =
      unifyBreaks (s.dropWhile (· == byteOrderMark)) := by
  induction s with
  | nil => rfl
  | cons c s ih =>
      by_cases mark : c = byteOrderMark
      · subst mark
        rw [unifyBreaks_other (by decide), List.dropWhile_cons_of_pos (by decide),
          List.dropWhile_cons_of_pos (by decide), ih]
      · rw [List.dropWhile_cons_of_neg (l := s) (by simpa using mark)]
        by_cases back : c = '\r'
        · subst back
          rw [unifyBreaks_return]
          split
          · rename_i next
            obtain ⟨tail, rfl⟩ := List.head?_eq_some_iff.mp next
            rw [unifyBreaks_other (by decide)]
            exact List.dropWhile_cons_of_neg (by decide)
          · exact List.dropWhile_cons_of_neg (by decide)
        · rw [unifyBreaks_other back]
          exact List.dropWhile_cons_of_neg (by simpa using mark)

/-- The lines that are left are those of the file without the empty ones around. -/
theorem lines_normalize (source : String) : (lines (normalize source).toList).map trim =
    ((fileLines source).dropWhile List.isEmpty).rdropWhile List.isEmpty := by
  rw [normalize, String.toList_ofList, lines_trim, unifyBreaks_dropMarks, rows, split_unifyBreaks]
  rfl

/-! ### Prepared lines -/

/-- A line as it is given on: as it stands, or with a kind in front. -/
def Passes (row line : List Char) : Prop :=
  line = row ∨ row ≠ [] ∧ ∃ kind : Kind, line = kind.keyword.toList ++ ' ' :: row

theorem passes_annotateLine (kinds : Kinds) (line : Line) :
    Passes line.text.toList (annotateLine kinds line).toList := by
  unfold annotateLine
  cases found : (assigned? line).bind (kinds[·]?) with
  | none => exact .inl rfl
  | some kind =>
      refine .inr ⟨?_, kind, ?_⟩
      · intro empty
        obtain ⟨name, assigned, -⟩ := Option.bind_eq_some_iff.mp found
        have blank : line.isBlank = true := by rw [Line.isBlank, empty]
        rw [assigned?, blank] at assigned
        cases assigned
      · simp [toString]

namespace Passes

variable {row line : List Char} (passes : Passes row line)

include passes

theorem trimmed (trimmed : Trimmed row) : Trimmed line := by
  rcases passes with rfl | ⟨filled, kind, rfl⟩
  · exact trimmed
  · constructor
    · intro c next
      rw [List.head?_append] at next
      cases kind <;> cases next <;> decide
    · intro c last
      apply trimmed.ends c
      rw [List.getLast?_append, List.getLast?_cons, List.getLast?_eq_some_getLast filled] at last
      rw [List.getLast?_eq_some_getLast filled]
      exact last

theorem no_feed (whole : '\n' ∉ row) : '\n' ∉ line := by
  rcases passes with rfl | ⟨-, kind, rfl⟩
  · exact whole
  · have noFeed : '\n' ∉ kind.keyword.toList := by cases kind <;> decide
    simp [noFeed, whole]

theorem filled (filled : row ≠ []) : line ≠ [] := by
  rcases passes with rfl | ⟨-, kind, rfl⟩
  · exact filled
  · simp

end Passes

theorem texts_all (source : String) :
    (Line.all source).map (·.text.toList) = (lines source.toList).map trim := by
  unfold Line.all
  apply List.ext_getElem?
  intro k
  rw [List.getElem?_map, List.getElem?_mapIdx, List.getElem?_map, Option.map_map]
  refine congrArg (Option.map · _) (funext fun s => ?_)
  exact String.toList_ofList

theorem number_of_all {source : String} {k : Nat} {line : Line}
    (found : (Line.all source)[k]? = some line) : line.number = k + 1 := by
  rw [Line.all, List.getElem?_mapIdx] at found
  obtain ⟨s, -, rfl⟩ := Option.map_eq_some_iff.mp found
  rfl

theorem text_of_mem {source : String} {line : Line} (member : line ∈ Line.all source) :
    Trimmed line.text.toList ∧ '\n' ∉ line.text.toList := by
  have listed : line.text.toList ∈ (lines source.toList).map trim := by
    rw [← texts_all]
    exact List.mem_map_of_mem member
  obtain ⟨piece, inside, same⟩ := List.mem_map.mp listed
  rw [← same]
  refine ⟨trimmed_trim piece, ?_⟩
  intro feed
  obtain ⟨front, back, -, -, whole⟩ := exists_trim piece
  have member : '\n' ∈ piece := by
    rw [whole]
    simp [feed]
  have plain := (mem_split (mem_lines inside)).2 _ member
  cases plain

/-- The lines of a source before the bare assignments in it get their kinds. -/
abbrev plainLines (source : String) : List Line := Line.all (normalize source)

theorem texts_plainLines (source : String) : (plainLines source).map (·.text.toList) =
    ((fileLines source).dropWhile List.isEmpty).rdropWhile List.isEmpty := by
  rw [texts_all, lines_normalize]

theorem text_of_last {source : String} {line : Line}
    (last : (plainLines source).getLast? = some line) : line.text.toList ≠ [] := by
  have texts : ((plainLines source).map (·.text.toList)).getLast? = some line.text.toList := by
    rw [List.getLast?_map, last]
    rfl
  rw [texts_plainLines] at texts
  obtain ⟨some, same⟩ := List.mem_getLast?_eq_getLast texts
  rw [same]
  intro empty
  exact List.rdropWhile_last_not List.isEmpty _ some (List.isEmpty_iff.mpr empty)

theorem lines_prepare (source : String) : lines (prepare source).toList =
    (plainLines source).map fun line =>
      (annotateLine (Kinds.ofLines (plainLines source)) line).toList := by
  rw [prepare, annotate, String.toList_intercalate, List.map_map]
  apply lines_intercalate
  · intro piece member
    obtain ⟨line, listed, rfl⟩ := List.mem_map.mp member
    exact (passes_annotateLine _ line).no_feed (text_of_mem listed).2
  · intro last
    rw [List.getLast?_map] at last
    obtain ⟨line, last, empty⟩ := Option.map_eq_some_iff.mp last
    exact (passes_annotateLine _ line).filled (text_of_last last) empty

theorem all_prepare (source : String) : Line.all (prepare source) =
    (plainLines source).map fun line =>
      ⟨line.number, annotateLine (Kinds.ofLines (plainLines source)) line⟩ := by
  unfold Line.all
  rw [lines_prepare]
  apply List.ext_getElem?
  intro k
  rw [List.getElem?_mapIdx, List.getElem?_map, List.getElem?_map, Option.map_map]
  cases found : (plainLines source)[k]? with
  | none => rfl
  | some line =>
      have trimmed := (passes_annotateLine (Kinds.ofLines (plainLines source)) line).trimmed
        (text_of_mem (List.mem_of_getElem? found)).1
      rw [Option.map_some, Option.map_some, number_of_all found]
      simp only [Function.comp, Line.ofText]
      rw [trimmed.trim_eq, String.ofList_toList]

/-! ### Which line is which -/

theorem fileLines_eq (source : String) : ∃ back : List (List Char), (∀ row ∈ back, row = []) ∧
    fileLines source = (fileLines source).takeWhile List.isEmpty ++
      ((plainLines source).map (·.text.toList) ++ back) := by
  refine ⟨((fileLines source).dropWhile List.isEmpty).rtakeWhile List.isEmpty, ?_, ?_⟩
  · intro row member
    exact List.isEmpty_iff.mp (List.mem_rtakeWhile_imp member)
  · rw [texts_plainLines, List.rdropWhile_append_rtakeWhile, List.takeWhile_append_dropWhile]

variable {source : String} {k : Nat}

theorem fileLines_of_plainLines {line : Line} (found : (plainLines source)[k]? = some line) :
    (fileLines source)[emptyLines source + k]? = some line.text.toList := by
  obtain ⟨back, -, file⟩ := fileLines_eq source
  have inside : k < ((plainLines source).map (·.text.toList)).length := by
    rw [List.length_map]
    exact (List.getElem?_eq_some_iff.mp found).1
  rw [file, emptyLines, List.getElem?_append_right (Nat.le_add_right _ _),
    Nat.add_sub_cancel_left, List.getElem?_append_left inside, List.getElem?_map, found]
  rfl

theorem plainLines_of_fileLines {row later : List Char} {i : Nat}
    (found : (fileLines source)[emptyLines source + k]? = some row)
    (text : (fileLines source)[i]? = some later) (filled : later ≠ [])
    (above : emptyLines source + k ≤ i) :
    ∃ line, (plainLines source)[k]? = some line ∧ line.text.toList = row := by
  obtain ⟨back, empty, file⟩ := fileLines_eq source
  have inside : k < (plainLines source).length := by
    by_contra outside
    rw [file, List.getElem?_append_right (by rw [emptyLines] at above; omega),
      List.getElem?_append_right (by rw [List.length_map, ← emptyLines]; omega)] at text
    exact filled (empty later (List.mem_of_getElem? text))
  obtain ⟨line, same⟩ : ∃ line, (plainLines source)[k]? = some line :=
    ⟨_, List.getElem?_eq_getElem inside⟩
  refine ⟨line, same, ?_⟩
  rw [fileLines_of_plainLines same] at found
  exact Option.some.inj found

end Easel.Source
