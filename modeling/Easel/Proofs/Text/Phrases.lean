import Easel.Proofs.Text.Words

/-! Single words and phrases, and texts that are put together from them. -/

namespace Easel.Text

/-- Text that is one piece between separators. -/
structure Token (separator : Char → Bool) (s : List Char) : Prop where
  filled : s ≠ []
  plain : ∀ c ∈ s, separator c = false

instance (separator : Char → Bool) (s : List Char) : Decidable (Token separator s) :=
  decidable_of_iff (s ≠ [] ∧ s.all (!separator ·) = true)
    ⟨fun h => ⟨h.1, by simpa using h.2⟩, fun h => ⟨h.filled, by simpa using h.plain⟩⟩

/-- Text with no blanks around it, and not empty. -/
structure Phrase (s : List Char) : Prop where
  filled : s ≠ []
  trimmed : Trimmed s

variable {separator : Char → Bool} {s t first word : List Char} {rest : List (List Char)}

theorem token_of_mem_fields (member : word ∈ fields separator s) : Token separator word := by
  obtain ⟨piece, filled⟩ := List.mem_filter.mp member
  exact ⟨by simpa using filled, (mem_split piece).2⟩

theorem mem_of_mem_fields (member : word ∈ fields separator s) : word ⊆ s :=
  (mem_split (List.mem_of_mem_filter member)).1

theorem phrase_trim (filled : trim s ≠ []) : Phrase (trim s) := ⟨filled, trimmed_trim s⟩

theorem mem_of_mem_trim {c : Char} (member : c ∈ trim s) : c ∈ s := by
  obtain ⟨front, back, -, -, whole⟩ := exists_trim s
  rw [whole]
  simp [member]

theorem Token.mono {other : Char → Bool} (token : Token separator s)
    (fewer : ∀ c, separator c = false → other c = false) : Token other s :=
  ⟨token.filled, fun c member => fewer c (token.plain c member)⟩

theorem Token.phrase (token : Token separator s)
    (blanks : ∀ c, isBlank c = true → separator c = true) : Phrase s := by
  refine ⟨token.filled, trimmed_of_visible fun c member => ?_⟩
  cases blank : isBlank c with
  | false => rfl
  | true =>
      have plain := token.plain c member
      rw [blanks c blank] at plain
      cases plain

theorem token_of_isName (named : isName s = true)
    (plain : ∀ c, isNameChar c = true → separator c = false) : Token separator s := by
  refine ⟨?_, fun c member => plain c (isNameChar_of_isName named c member)⟩
  rintro rfl
  cases named

/-! ### Words side by side -/

theorem Phrase.around (front : Phrase s) (back : Phrase t) (between : List Char) :
    Phrase (s ++ (between ++ t)) := by
  refine ⟨by simp [front.filled], fun c next => ?_, fun c last => ?_⟩
  · rw [List.head?_append_of_ne_nil s front.filled] at next
    exact front.trimmed.begins c next
  · rw [← List.append_assoc, List.getLast?_append_of_ne_nil _ back.filled] at last
    exact back.trimmed.ends c last

theorem phrase_of_isName (named : isName s = true) : Phrase s :=
  (token_of_isName named fun _ => visible_of_isNameChar).phrase fun _ blank => blank

theorem trim_space (phrase : Phrase s) : trim (' ' :: s) = s :=
  (trim_blanks (show [' '].all isBlank = true from rfl) s).trans phrase.trimmed.trim_eq

theorem map_trim {pieces : List (List Char)} (phrases : ∀ piece ∈ pieces, Phrase piece) :
    pieces.map trim = pieces := by
  have same : pieces.map trim = pieces.map id :=
    List.map_congr_left fun piece member => (phrases piece member).trimmed.trim_eq
  rw [same, List.map_id]

def spaced (first : List Char) (rest : List (List Char)) : List Char :=
  first ++ rest.flatMap (' ' :: ·)

theorem spaced_cons (first second : List Char) (rest : List (List Char)) :
    spaced first (second :: rest) = first ++ ' ' :: spaced second rest := by
  simp [spaced]

theorem fields_spaced (cuts : separator ' ' = true) (token : Token separator first)
    (tokens : ∀ word ∈ rest, Token separator word) :
    fields separator (spaced first rest) = first :: rest := by
  induction rest generalizing first with
  | nil =>
      rw [spaced, List.flatMap_nil, List.append_nil]
      exact fields_whole token.filled token.plain
  | cons second rest ih =>
      rw [List.forall_mem_cons] at tokens
      rw [spaced_cons, fields_append_separator cuts, ih tokens.1 tokens.2,
        fields_whole token.filled token.plain]
      rfl

theorem phrase_spaced (phrase : Phrase first) (phrases : ∀ word ∈ rest, Phrase word) :
    Phrase (spaced first rest) := by
  induction rest generalizing first with
  | nil =>
      rw [spaced, List.flatMap_nil, List.append_nil]
      exact phrase
  | cons second rest ih =>
      rw [List.forall_mem_cons] at phrases
      rw [spaced_cons]
      exact phrase.around (ih phrases.1 phrases.2) [' ']

theorem phrase_joined (between : List Char) (phrase : Phrase first)
    (phrases : ∀ word ∈ rest, Phrase word) : Phrase (between.intercalate (first :: rest)) := by
  induction rest generalizing first with
  | nil =>
      rw [List.intercalate_singleton]
      exact phrase
  | cons second rest ih =>
      rw [List.forall_mem_cons] at phrases
      rw [List.intercalate_cons_cons, List.append_assoc]
      exact phrase.around (ih phrases.1 phrases.2) between

theorem mem_spaced {c : Char} (member : c ∈ spaced first rest) :
    c = ' ' ∨ ∃ word ∈ first :: rest, c ∈ word := by
  simp only [spaced, List.mem_append, List.mem_flatMap, List.mem_cons] at member
  rcases member with inside | ⟨word, listed, rfl | inside⟩
  · exact .inr ⟨first, List.mem_cons_self, inside⟩
  · exact .inl rfl
  · exact .inr ⟨word, List.mem_cons_of_mem _ listed, inside⟩

end Easel.Text
