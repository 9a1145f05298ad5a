import Easel.Proofs.Text.Characters
import Easel.Proofs.Text.Splitting

/-! Words: the pieces between separators that are not empty. -/

namespace Easel.Text

variable {separator : Char → Bool} {s t front word back : List Char} {c : Char}

theorem fields_append_separator (cuts : separator c = true) (s t : List Char) :
    fields separator (s ++ c :: t) = fields separator s ++ fields separator t := by
  rw [fields, split_append_separator cuts, List.filter_append]
  rfl

theorem fields_append_of_ends (ends : ∀ c, s.getLast? = some c → separator c = true)
    (t : List Char) : fields separator (s ++ t) = fields separator s ++ fields separator t := by
  rcases List.eq_nil_or_concat s with rfl | ⟨front, c, whole⟩
  · rfl
  · rw [List.concat_eq_append] at whole
    subst whole
    have cuts := ends c List.getLast?_concat
    rw [List.append_assoc, List.singleton_append, fields_append_separator cuts,
      fields_append_separator cuts]
    exact congrArg (· ++ _) (List.append_nil _).symm

theorem fields_append_of_begins (s : List Char)
    (begins : ∀ c, t.head? = some c → separator c = true) :
    fields separator (s ++ t) = fields separator s ++ fields separator t := by
  cases t with
  | nil => exact (congrArg (fields separator) (List.append_nil s)).trans (List.append_nil _).symm
  | cons c t =>
      have cuts := begins c rfl
      rw [fields_append_separator cuts]
      exact congrArg (_ ++ ·) (fields_append_separator cuts [] t).symm

theorem fields_separators (separators : s.all separator = true) : fields separator s = [] := by
  induction s with
  | nil => rfl
  | cons c s ih =>
      rw [List.all_cons, Bool.and_eq_true] at separators
      exact (fields_append_separator separators.1 [] s).trans (ih separators.2)

theorem fields_separators_append (separators : s.all separator = true) (t : List Char) :
    fields separator (s ++ t) = fields separator t := by
  have ends : ∀ c, s.getLast? = some c → separator c = true := fun c last =>
    List.all_eq_true.mp separators c (List.mem_of_getLast? last)
  rw [fields_append_of_ends ends, fields_separators separators]
  rfl

theorem fields_append_separators (s : List Char) (separators : t.all separator = true) :
    fields separator (s ++ t) = fields separator s := by
  have begins : ∀ c, t.head? = some c → separator c = true := fun c next =>
    List.all_eq_true.mp separators c (List.mem_of_head? next)
  rw [fields_append_of_begins s begins, fields_separators separators, List.append_nil]

theorem fields_whole (filled : s ≠ []) (plain : ∀ c ∈ s, separator c = false) :
    fields separator s = [s] := by
  rw [fields, split_whole plain]
  exact List.filter_cons_of_pos (by simpa using filled)

theorem flatten_fields (separator : Char → Bool) (s : List Char) :
    (fields separator s).flatten = s.filter (!separator ·) := by
  rw [fields, List.flatten_filter_not_isEmpty]
  induction s with
  | nil => rfl
  | cons c s ih =>
      cases cuts : separator c with
      | true =>
          rw [split_separator cuts, List.filter_cons_of_neg (by simp [cuts])]
          exact ih
      | false =>
          obtain ⟨first, rest, found⟩ := List.exists_cons_of_ne_nil (split_ne_nil separator s)
          rw [found] at ih
          rw [split_other cuts, found, List.filter_cons_of_pos (by simp [cuts]), ← ih]
          rfl

theorem separators_of_fields (none : fields separator s = []) : s.all separator = true := by
  have plain := flatten_fields separator s
  rw [none] at plain
  simpa using List.filter_eq_nil_iff.mp plain.symm

theorem exists_field (inside : c ∈ s) (plain : separator c = false) :
    ∃ word ∈ fields separator s, c ∈ word := by
  rw [← List.mem_flatten, flatten_fields]
  exact List.mem_filter.mpr ⟨inside, by simp [plain]⟩

theorem fields_congr {other : Char → Bool} (same : ∀ c ∈ s, separator c = other c) :
    fields separator s = fields other s := by
  rw [fields, fields, split_eq_splitOnP, split_eq_splitOnP]
  refine congrArg (List.filter _) ?_
  induction s with
  | nil => rfl
  | cons c s ih =>
      rw [List.forall_mem_cons] at same
      rw [List.splitOnP_cons_eq_if_modifyHead, List.splitOnP_cons_eq_if_modifyHead, same.1,
        ih same.2]

/-- A word, with a separator or an end of the text on either side. -/
structure IsWord (separator : Char → Bool) (front word back : List Char) : Prop where
  filled : word ≠ []
  plain : ∀ c ∈ word, separator c = false
  behind : ∀ c, front.getLast? = some c → separator c = true
  before : ∀ c, back.head? = some c → separator c = true

theorem IsWord.fields_eq (isWord : IsWord separator front word back) :
    fields separator (front ++ (word ++ back)) =
      fields separator front ++ word :: fields separator back := by
  rw [fields_append_of_ends isWord.behind, fields_append_of_begins word isWord.before,
    fields_whole isWord.filled isWord.plain]
  rfl

theorem IsWord.cons (isWord : IsWord separator front word back) (cuts : separator c = true) :
    IsWord separator (c :: front) word back := by
  refine { isWord with behind := ?_ }
  intro d last
  rw [List.getLast?_cons] at last
  cases inner : front.getLast? with
  | none =>
      rw [inner] at last
      cases last
      exact cuts
  | some e =>
      rw [inner] at last
      cases last
      exact isWord.behind _ inner

theorem IsWord.gap {first gap : List Char} (isWord : IsWord separator gap word back)
    (isFirst : IsWord separator front first (gap ++ (word ++ back))) : gap ≠ [] := by
  rintro rfl
  obtain ⟨c, letters, rfl⟩ := List.exists_cons_of_ne_nil isWord.filled
  have stops := isFirst.before c rfl
  rw [isWord.plain c List.mem_cons_self] at stops
  cases stops

theorem IsWord.append (isWord : IsWord separator back word t) (filled : back ≠ [])
    (front : List Char) : IsWord separator (front ++ back) word t := by
  refine { isWord with behind := ?_ }
  rw [List.getLast?_append_of_ne_nil front filled]
  exact isWord.behind

theorem IsWord.shorten {more : List Char} (isWord : IsWord separator front word (back ++ more)) :
    IsWord separator front word back := by
  refine { isWord with before := fun c next => isWord.before c ?_ }
  rw [List.head?_append, next]
  rfl

theorem exists_first_word (plain : separator c = false) (s : List Char) :
    ∃ word back, c :: s = word ++ back ∧ IsWord separator [] word back ∧ back.length ≤ s.length := by
  have run : ∀ d ∈ s.takeWhile (!separator ·), separator d = false := by
    intro d member
    simpa using List.mem_takeWhile_imp member
  refine ⟨c :: s.takeWhile (!separator ·), s.dropWhile (!separator ·), ?_,
    ⟨List.cons_ne_nil _ _, List.forall_mem_cons.mpr ⟨plain, run⟩, nofun,
      fun _ => separates_of_dropWhile⟩, (List.dropWhile_sublist _).length_le⟩
  rw [List.cons_append, List.takeWhile_append_dropWhile]

theorem exists_word {before after : List (List Char)}
    (found : fields separator s = before ++ word :: after) :
    ∃ front back, s = front ++ (word ++ back) ∧ IsWord separator front word back ∧
      fields separator front = before ∧ fields separator back = after := by
  induction length : s.length using Nat.strongRecOn generalizing s before with
  | ind n ih =>
      subst length
      cases s with
      | nil => simp [fields, split] at found
      | cons c tail =>
          cases cuts : separator c with
          | true =>
              have passed := fields_append_separator cuts [] tail
              obtain ⟨front, back, rfl, isWord, words, rest⟩ :=
                ih tail.length (Nat.lt_succ_self _) (passed.symm.trans found) rfl
              refine ⟨c :: front, back, rfl, isWord.cons cuts, ?_, rest⟩
              exact (fields_append_separator cuts [] front).trans words
          | false =>
              obtain ⟨first, rest, whole, isFirst, shorter⟩ := exists_first_word cuts tail
              have words := isFirst.fields_eq
              rw [List.nil_append, ← whole, found] at words
              rw [whole]
              cases before with
              | nil =>
                  obtain ⟨rfl, rfl⟩ := List.cons.inj words
                  exact ⟨[], rest, rfl, isFirst, rfl, rfl⟩
              | cons head before =>
                  obtain ⟨rfl, others⟩ := List.cons.inj words
                  obtain ⟨front, back, rfl, isWord, rfl, rfl⟩ :=
                    ih rest.length (Nat.lt_succ_of_le shorter) others.symm rfl
                  exact ⟨head ++ front, back, (List.append_assoc _ _ _).symm,
                    isWord.append (isWord.gap isFirst) head, isFirst.shorten.fields_eq, rfl⟩

theorem words_trim (s : List Char) : words (trim s) = words s := by
  obtain ⟨front, back, blank, blank', whole⟩ := exists_trim s
  conv => rhs; rw [whole]
  unfold words
  rw [fields_separators_append blank, fields_append_separators _ blank']

theorem lastWord_of_words {before : List (List Char)} (found : words s = before ++ [word]) :
    lastWord s = word := by
  rw [lastWord, found, List.getLast?_concat]
  rfl

/-! ### The first place -/

theorem cut?_append (absent : c ∉ s) (t : List Char) : cut? c (s ++ c :: t) = some (s, t) := by
  have inside : s.all (· != c) = true := by
    simp only [List.all_eq_true, bne_iff_ne]
    rintro d member rfl
    exact absent member
  have stops : ∀ d, (c :: t).head? = some d → (d != c) = false := by
    rintro d ⟨⟩
    simp
  obtain ⟨taken, dropped⟩ := takeWhile_run inside stops
  rw [cut?, dropped, taken]

theorem cut?_eq_some {left right : List Char} (found : cut? c s = some (left, right)) :
    s = left ++ c :: right := by
  unfold cut? at found
  split at found
  · cases found
  · rename_i d after dropped
    cases found
    have stops := List.head?_dropWhile_not (· != c) s
    rw [dropped] at stops
    have same : d = c := by simpa using stops
    subst same
    rw [← dropped, List.takeWhile_append_dropWhile]

theorem not_mem_of_cut {left right : List Char} (found : cut? c s = some (left, right)) :
    c ∉ left := by
  unfold cut? at found
  split at found
  · cases found
  · cases found
    intro member
    simpa using List.mem_takeWhile_imp member

theorem not_mem_of_uncut (uncut : cut? c s = none) : c ∉ s := by
  unfold cut? at uncut
  split at uncut
  · rename_i dropped
    intro member
    simpa using List.dropWhile_eq_nil_iff.mp dropped c member
  · cases uncut

theorem occurs_behind_blanks {blanks before rest : List Char} (blank : blanks.all isBlank = true)
    (begins : ∀ c, word.head? = some c → isBlank c = false) (filled : word ≠ [])
    (same : blanks ++ t = before ++ (word ++ rest)) :
    ∃ between, before = blanks ++ between ∧ t = between ++ (word ++ rest) := by
  rcases List.append_eq_append_iff.mp same with ⟨between, rfl, rfl⟩ | ⟨excess, rfl, inside⟩
  · exact ⟨between, rfl, rfl⟩
  · cases excess with
    | nil => exact ⟨[], by simp, inside.symm⟩
    | cons c excess =>
        obtain ⟨d, letters, rfl⟩ := List.exists_cons_of_ne_nil filled
        obtain ⟨rfl, -⟩ := List.cons.inj inside
        have visible := begins d rfl
        simp [visible] at blank

theorem dropBeginning?_eq_some {rest : List Char} :
    dropBeginning? t s = some rest ↔ s = t ++ rest := by
  induction t generalizing s with
  | nil => simp [dropBeginning?]
  | cons c t ih =>
      cases s with
      | nil => simp [dropBeginning?]
      | cons d s =>
          rw [dropBeginning?]
          split
          · rename_i same
            subst same
            simp [ih]
          · rename_i other
            simp [Ne.symm other]

/-- Where a text occurs, it is found there or further in front. -/
theorem behind?_of_occurs (other t later : List Char) :
    ∃ before rest, behind? t (other ++ (t ++ later)) = some rest ∧
      other ++ (t ++ later) = before ++ (t ++ rest) ∧ before.length ≤ other.length := by
  induction other with
  | nil =>
      have here : dropBeginning? t (t ++ later) = some later := dropBeginning?_eq_some.mpr rfl
      refine ⟨[], later, ?_, rfl, Nat.le_refl 0⟩
      rw [List.nil_append]
      generalize t ++ later = s at here
      cases s with
      | nil => exact here
      | cons c s => rw [behind?, here]
  | cons c other ih =>
      rw [List.cons_append, behind?]
      split
      · rename_i rest here
        have whole := dropBeginning?_eq_some.mp here
        exact ⟨[], rest, rfl, whole, Nat.zero_le _⟩
      · obtain ⟨before, rest, found, same, shorter⟩ := ih
        exact ⟨c :: before, rest, found, congrArg (c :: ·) same, Nat.succ_le_succ shorter⟩

end Easel.Text
