import Easel.Proofs.Text.Trimming

/-! Text cut into pieces at separators, and into lines. -/

namespace Easel.Text

variable {separator : Char → Bool} {s t piece : List Char} {c : Char}

theorem split_eq_splitOnP (separator : Char → Bool) (s : List Char) :
    split separator s = s.splitOnP separator := by
  induction s with
  | nil => rfl
  | cons c s ih =>
      rw [List.splitOnP_cons_eq_if_modifyHead, ← ih]
      cases pieces : split separator s with
      | nil =>
          rw [ih] at pieces
          exact absurd pieces (List.splitOnP_ne_nil separator s)
      | cons piece rest =>
          have folded : List.foldr _ [[]] s = piece :: rest := pieces
          rw [split, List.foldr_cons, folded]
          rfl

theorem split_ne_nil (separator : Char → Bool) (s : List Char) : split separator s ≠ [] := by
  rw [split_eq_splitOnP]
  exact List.splitOnP_ne_nil separator s

theorem split_append_separator (cuts : separator c = true) (s t : List Char) :
    split separator (s ++ c :: t) = split separator s ++ split separator t := by
  simp only [split_eq_splitOnP]
  exact List.splitOnP_append_cons s t cuts

theorem split_separator (cuts : separator c = true) (s : List Char) :
    split separator (c :: s) = [] :: split separator s := split_append_separator cuts [] s

theorem split_other (plain : separator c = false) (s : List Char) :
    split separator (c :: s) = (split separator s).modifyHead (c :: ·) := by
  simp only [split_eq_splitOnP, List.splitOnP_cons_eq_if_modifyHead, plain, Bool.false_eq_true,
    ↓reduceIte]

theorem split_whole (plain : ∀ c ∈ s, separator c = false) : split separator s = [s] := by
  rw [split_eq_splitOnP]
  exact List.splitOnP_eq_singleton plain

theorem separates_of_dropWhile (next : (s.dropWhile (!separator ·)).head? = some c) :
    separator c = true := by
  have stops := List.head?_dropWhile_not (!separator ·) s
  rw [next] at stops
  simpa using stops

theorem split_first (separator : Char → Bool) (s : List Char) :
    ∃ rest, split separator s = s.takeWhile (!separator ·) :: rest := by
  induction s with
  | nil => exact ⟨[], rfl⟩
  | cons c s ih =>
      cases cuts : separator c with
      | true =>
          refine ⟨split separator s, ?_⟩
          rw [split_separator cuts, List.takeWhile_cons_of_neg (by simp [cuts])]
      | false =>
          obtain ⟨rest, found⟩ := ih
          refine ⟨rest, ?_⟩
          rw [split_other cuts, found, List.takeWhile_cons_of_pos (by simp [cuts])]
          rfl

/-- Where two texts meet, the last piece of the one and the first piece of the other make one. -/
theorem split_append (separator : Char → Bool) (s t : List Char) :
    ∃ front last first back, split separator s = front ++ [last] ∧
      split separator t = first :: back ∧
        split separator (s ++ t) = front ++ (last ++ first) :: back := by
  induction s with
  | nil =>
      obtain ⟨first, back, found⟩ := List.exists_cons_of_ne_nil (split_ne_nil separator t)
      exact ⟨[], [], first, back, rfl, found, found⟩
  | cons c s ih =>
      obtain ⟨front, last, first, back, left, right, both⟩ := ih
      cases cuts : separator c with
      | true =>
          refine ⟨[] :: front, last, first, back, ?_, right, ?_⟩
          · rw [split_separator cuts, left]
            rfl
          · rw [List.cons_append, split_separator cuts, both]
            rfl
      | false =>
          cases front with
          | nil =>
              refine ⟨[], c :: last, first, back, ?_, right, ?_⟩
              · rw [split_other cuts, left]
                rfl
              · rw [List.cons_append, split_other cuts, both]
                rfl
          | cons head front =>
              refine ⟨(c :: head) :: front, last, first, back, ?_, right, ?_⟩
              · rw [split_other cuts, left]
                rfl
              · rw [List.cons_append, split_other cuts, both]
                rfl

theorem split_append_plain (plain : ∀ c ∈ s, separator c = false) (t : List Char) :
    split separator (s ++ t) = (split separator t).modifyHead (s ++ ·) := by
  obtain ⟨front, last, first, back, left, right, both⟩ := split_append separator s t
  rw [split_whole plain] at left
  obtain ⟨rfl, rfl⟩ : front = [] ∧ last = s := by
    cases front with
    | nil => exact ⟨rfl, (List.singleton_inj.mp left).symm⟩
    | cons head front => simp at left
  rw [both, right]
  rfl

theorem split_concat (s : List Char) (plain : separator c = false) :
    ∃ front last, split separator (s ++ [c]) = front ++ [last ++ [c]] := by
  obtain ⟨front, last, first, back, -, right, both⟩ := split_append separator s [c]
  have single : split separator [c] = [[c]] := split_whole (by simpa using plain)
  rw [single] at right
  cases right
  exact ⟨front, last, both⟩

theorem mem_split (member : piece ∈ split separator s) :
    piece ⊆ s ∧ ∀ c ∈ piece, separator c = false := by
  induction s generalizing piece with
  | nil =>
      cases List.mem_singleton.mp member
      exact ⟨List.nil_subset _, nofun⟩
  | cons c s ih =>
      cases cuts : separator c with
      | true =>
          rw [split_separator cuts] at member
          rcases List.mem_cons.mp member with rfl | member
          · exact ⟨List.nil_subset _, nofun⟩
          · obtain ⟨subset, plain⟩ := ih member
            exact ⟨List.subset_cons_of_subset c subset, plain⟩
      | false =>
          obtain ⟨first, back, found⟩ := List.exists_cons_of_ne_nil (split_ne_nil separator s)
          rw [split_other cuts, found, List.modifyHead_cons] at member
          rw [found] at ih
          rcases List.mem_cons.mp member with rfl | member
          · obtain ⟨subset, plain⟩ := ih List.mem_cons_self
            exact ⟨List.cons_subset_cons c subset, List.forall_mem_cons.mpr ⟨cuts, plain⟩⟩
          · obtain ⟨subset, plain⟩ := ih (List.mem_cons_of_mem first member)
            exact ⟨List.subset_cons_of_subset c subset, plain⟩

/-! ### Lines -/

def isFeed (c : Char) : Bool := c == '\n'

def rows (s : List Char) : List (List Char) := (split isFeed s).map trim

theorem rows_cons_blank (blank : isBlank c = true) (s : List Char) :
    rows (c :: s) = if isFeed c then [] :: rows s else rows s := by
  have alone : [c].all isBlank = true := by simpa using blank
  cases cuts : isFeed c with
  | true =>
      rw [rows, split_separator cuts]
      rfl
  | false =>
      obtain ⟨first, back, found⟩ := List.exists_cons_of_ne_nil (split_ne_nil isFeed s)
      have dropped : trim (c :: first) = trim first := trim_blanks alone first
      rw [rows, rows, split_other cuts, found, List.modifyHead_cons, List.map_cons, dropped]
      rfl

theorem rows_concat_blank (s : List Char) (blank : isBlank c = true) :
    rows (s ++ [c]) = if isFeed c then rows s ++ [[]] else rows s := by
  have alone : [c].all isBlank = true := by simpa using blank
  cases cuts : isFeed c with
  | true =>
      rw [rows, split_append_separator cuts, List.map_append]
      rfl
  | false =>
      obtain ⟨front, last, first, back, left, right, both⟩ := split_append isFeed s [c]
      have single : split isFeed [c] = [[c]] := split_whole (by simpa using cuts)
      rw [single] at right
      cases right
      have dropped : trim (last ++ [c]) = trim last := trim_append_blanks last alone
      rw [rows, rows, both, left, List.map_append, List.map_append, List.map_cons, dropped]
      rfl

theorem rows_trimStart (s : List Char) :
    (rows (trimStart s)).dropWhile List.isEmpty = (rows s).dropWhile List.isEmpty := by
  induction s with
  | nil => rfl
  | cons c s ih =>
      cases blank : isBlank c with
      | false => rw [trimStart_cons blank]
      | true =>
          have passed : trimStart (c :: s) = trimStart s := List.dropWhile_cons_of_pos blank
          rw [passed, ih, rows_cons_blank blank]
          split <;> rfl

theorem rows_trimEnd (s : List Char) :
    (rows (trimEnd s)).rdropWhile List.isEmpty = (rows s).rdropWhile List.isEmpty := by
  induction s using List.reverseRecOn with
  | nil => rfl
  | append_singleton s c ih =>
      cases blank : isBlank c with
      | false =>
          rw [trimEnd_eq_self]
          intro d last
          rw [List.getLast?_concat] at last
          cases last
          exact blank
      | true =>
          have alone : [c].all isBlank = true := by simpa using blank
          rw [trimEnd_blanks s alone, ih, rows_concat_blank s blank]
          split
          · exact (List.rdropWhile_concat_pos _ _ _ rfl).symm
          · rfl

theorem trim_ne_nil (inside : c ∈ s) (visible : isBlank c = false) : trim s ≠ [] := by
  intro empty
  rw [List.all_eq_true.mp (all_blank_of_trim empty) c inside] at visible
  cases visible

theorem isFeed_of_visible (visible : isBlank c = false) : isFeed c = false := by
  rw [isFeed, beq_eq_false_iff_ne]
  rintro rfl
  cases visible

theorem rows_begin (filled : s ≠ []) (begins : ∀ c, s.head? = some c → isBlank c = false) :
    (rows s).dropWhile List.isEmpty = rows s := by
  obtain ⟨c, tail, rfl⟩ := List.exists_cons_of_ne_nil filled
  have visible := begins c rfl
  obtain ⟨first, back, found⟩ := List.exists_cons_of_ne_nil (split_ne_nil isFeed tail)
  have row : trim (c :: first) ≠ [] := trim_ne_nil List.mem_cons_self visible
  rw [rows, split_other (isFeed_of_visible visible), found, List.modifyHead_cons, List.map_cons]
  exact List.dropWhile_cons_of_neg (by simpa using row)

theorem split_end (filled : s ≠ []) (ends : ∀ c, s.getLast? = some c → isBlank c = false) :
    ∃ front last, split isFeed s = front ++ [last] ∧ trim last ≠ [] := by
  obtain ⟨front, c, whole⟩ := (List.eq_nil_or_concat s).resolve_left filled
  rw [List.concat_eq_append] at whole
  subst whole
  have visible := ends c List.getLast?_concat
  obtain ⟨pieces, last, found⟩ := split_concat front (isFeed_of_visible visible)
  exact ⟨pieces, last ++ [c], found, trim_ne_nil (by simp) visible⟩

theorem rows_end (filled : s ≠ []) (ends : ∀ c, s.getLast? = some c → isBlank c = false) :
    (rows s).rdropWhile List.isEmpty = rows s := by
  obtain ⟨front, last, found, row⟩ := split_end filled ends
  rw [rows, found, List.map_append]
  exact List.rdropWhile_concat_neg _ _ _ (by simpa using row)

theorem lines_eq_split (ends : (split isFeed s).getLast? ≠ some []) : lines s = split isFeed s := by
  change (if (split isFeed s).getLast? == some [] then (split isFeed s).dropLast
    else split isFeed s) = _
  rw [if_neg]
  simpa using ends

theorem mem_lines (member : piece ∈ lines s) : piece ∈ split isFeed s := by
  change piece ∈ if (split isFeed s).getLast? == some [] then (split isFeed s).dropLast
    else split isFeed s at member
  split at member
  · exact List.dropLast_subset _ member
  · exact member

theorem lines_eq_split_of_visible (filled : s ≠ [])
    (ends : ∀ c, s.getLast? = some c → isBlank c = false) : lines s = split isFeed s := by
  obtain ⟨front, last, found, row⟩ := split_end filled ends
  apply lines_eq_split
  rw [found, List.getLast?_concat]
  rintro ⟨⟩
  exact row rfl

/-- Dropping the blanks around a text drops the empty rows around it, and no others. -/
theorem lines_trim (s : List Char) : (lines (trim s)).map trim =
    ((rows s).dropWhile List.isEmpty).rdropWhile List.isEmpty := by
  rw [← rows_trimStart]
  by_cases empty : trimStart s = []
  · rw [trim, empty]
    rfl
  · have filled : trim s ≠ [] := by
      intro nothing
      have blank : trimStart s = [] :=
        List.dropWhile_eq_nil_iff.mpr (List.all_eq_true.mp (all_blank_of_trim nothing))
      exact empty blank
    have ends := (trimmed_trim s).ends
    rw [rows_begin empty fun c => isBlank_of_head?_trimStart, ← rows_trimEnd, ← trim,
      rows_end filled ends, lines_eq_split_of_visible filled ends]
    rfl

theorem lines_intercalate {pieces : List (List Char)} (whole : ∀ piece ∈ pieces, '\n' ∉ piece)
    (ends : pieces.getLast? ≠ some []) : lines (['\n'].intercalate pieces) = pieces := by
  by_cases filled : pieces = []
  · rw [filled]
    rfl
  · have pieces_eq : split isFeed (['\n'].intercalate pieces) = pieces := by
      rw [split_eq_splitOnP]
      exact List.splitOn_intercalate '\n' whole filled
    rw [lines_eq_split, pieces_eq]
    rw [pieces_eq]
    exact ends

theorem count_split (plain : separator c = false) (s : List Char) :
    (split separator s).flatten.count c = s.count c := by
  induction s with
  | nil => rfl
  | cons d s ih =>
      cases cuts : separator d with
      | true =>
          have other : d ≠ c := by
            rintro rfl
            rw [plain] at cuts
            cases cuts
          rw [split_separator cuts, List.flatten_cons, List.nil_append, ih,
            List.count_cons_of_ne other]
      | false =>
          obtain ⟨first, rest, found⟩ := List.exists_cons_of_ne_nil (split_ne_nil separator s)
          rw [found] at ih
          rw [split_other cuts, found, List.modifyHead_cons, List.flatten_cons, List.cons_append,
            List.count_cons, List.count_cons, ← ih, List.flatten_cons]

theorem flatten_lines (s : List Char) : (lines s).flatten = (split isFeed s).flatten := by
  change (if (split isFeed s).getLast? == some [] then (split isFeed s).dropLast
    else split isFeed s).flatten = _
  split
  · rename_i last
    rw [← List.dropLast_append_getLast? [] (beq_iff_eq.mp last)]
    simp
  · rfl

theorem count_lines (visible : isBlank c = false) (s : List Char) :
    ((lines s).map trim).flatten.count c = s.count c := by
  have trims : List.count c ∘ trim = List.count c := funext (count_trim visible)
  calc ((lines s).map trim).flatten.count c
    _ = (lines s).flatten.count c := by simp only [List.count_flatten, List.map_map, trims]
    _ = (split isFeed s).flatten.count c := by rw [flatten_lines]
    _ = s.count c := count_split (isFeed_of_visible visible) s

theorem head?_joined {first : List Char} (filled : first ≠ []) (between : List Char)
    (rest : List (List Char)) : (between.intercalate (first :: rest)).head? = first.head? := by
  cases rest with
  | nil => simp
  | cons second rest =>
      rw [List.intercalate_cons_cons, List.append_assoc, List.head?_append_of_ne_nil _ filled]

theorem getLast?_joined {last : List Char} (filled : last ≠ []) (between : List Char)
    (front : List (List Char)) :
    (between.intercalate (front ++ [last])).getLast? = last.getLast? := by
  induction front with
  | nil => simp
  | cons first front ih =>
      obtain ⟨second, rest, found⟩ : ∃ second rest, front ++ [last] = second :: rest :=
        List.exists_cons_of_ne_nil (by simp)
      rw [found] at ih
      have joined : between.intercalate (second :: rest) ≠ [] := by
        intro empty
        rw [empty, List.getLast?_eq_some_getLast filled] at ih
        cases ih
      rw [List.cons_append, found, List.intercalate_cons_cons,
        List.getLast?_append_of_ne_nil _ joined, ih]

end Easel.Text
