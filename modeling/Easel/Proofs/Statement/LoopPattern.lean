import Easel.Proofs.Statement.Fields
import Easel.Proofs.Text.Patterns

/-! The keyword form of a loop header as a pattern. Of all the ways to match a text, the header that
is read from its words is the one that is tried first. -/

namespace Easel.ForHeader

open Text Pattern

inductive Part where
  | counter
  | start
  | limit
  | step
  deriving DecidableEq

/-- A letter without its case. The long s and the kelvin sign are letters like any other. -/
def fold (c : Char) : Char :=
  if c = '\u017f' then 's' else if c = '\u212a' then 'k' else c.toLower

def bound (part : Part) (keyword : String) : Pattern Part :=
  followed (run isBlank) (followed (word fold keyword.toList)
    (followed (run isBlank) (group part (run isPlain))))

def fromStep : Pattern Part := followed (maybe (bound .step "step")) (many isBlank)

def fromLimit : Pattern Part := followed (maybe (bound .limit "to")) fromStep

def fromStart : Pattern Part := followed (group .start (run isPlain)) fromLimit

def fromSign : Pattern Part :=
  followed (many isBlank) (followed (maybe (followed (one (· == '=')) (many isBlank))) fromStart)

/-- A name, maybe `=`, the start, maybe `to` and the limit, maybe `step` and the step. -/
def signature : Pattern Part :=
  followed (group .counter (followed (one isLetter) (many isLetterOrDigit))) fromSign

def ofGroups (groups : List (Part × List Char)) : ForHeader :=
  let part (name : Part) (missing : List Char) := String.ofList ((groups.lookup name).getD missing)
  ⟨part .counter [], part .start ['0'], part .limit ['0'], part .step ['1']⟩

def finish (rest : List Char) (groups : List (Part × List Char)) : Option ForHeader :=
  if rest.isEmpty then some (ofGroups groups) else none

/-- The header that the pattern finds first. -/
def matched? (s : List Char) : Option ForHeader := signature.search s [] finish

/-! ### Keywords -/

theorem map_eq_congr {f g : Char → Char} {letters : List Char}
    (same : ∀ letter ∈ letters, ∀ c, f c = letter ↔ g c = letter) (s : List Char) :
    s.map f = letters ↔ s.map g = letters := by
  induction letters generalizing s with
  | nil => simp
  | cons letter letters ih =>
      rw [List.forall_mem_cons] at same
      simp only [List.map_eq_cons_iff, same.1, ih same.2]

theorem fold_eq_iff {c letter : Char} (other : letter ≠ 'k' ∧ letter ≠ '\u212a') :
    fold c = letter ↔ (if c == '\u017f' then 's' else c).toLower = letter := by
  by_cases long : c = '\u017f'
  · subst long
    exact Iff.rfl
  · by_cases kelvin : c = '\u212a'
    · subst kelvin
      exact iff_of_false other.1.symm other.2.symm
    · simp [fold, long, kelvin]

theorem isStep_iff {s : List Char} : isStep s = true ↔ s.map fold = "step".toList := by
  have letters : ∀ letter ∈ "step".toList, ∀ c, fold c = letter ↔
      (Char.toLower ∘ fun c => if c == '\u017f' then 's' else c) c = letter := by
    intro letter member c
    have others : ("step".toList.all fun letter => letter != 'k' && letter != '\u212a') = true := by
      decide
    exact fold_eq_iff (by simpa using List.all_eq_true.mp others letter member)
  rw [map_eq_congr letters, isStep, sameWord, beq_iff_eq, lower, List.map_map]
  rfl

theorem isTo_iff {s : List Char} : isTo s = true ↔ s.map fold = "to".toList := by
  have letters : ∀ letter ∈ "to".toList, ∀ c, fold c = letter ↔ c.toLower = letter := by
    intro letter member c
    have all : ("to".toList.all fun letter => letter != 's' && letter != '\u017f' &&
        (letter != 'k' && letter != '\u212a')) = true := by decide
    have others : (letter ≠ 's' ∧ letter ≠ '\u017f') ∧ letter ≠ 'k' ∧ letter ≠ '\u212a' := by
      simpa using List.all_eq_true.mp all letter member
    rw [fold_eq_iff others.2]
    by_cases long : c = '\u017f'
    · subst long
      exact iff_of_false others.1.1.symm others.1.2.symm
    · simp [long]
  rw [map_eq_congr letters, isTo, sameWord, beq_iff_eq]
  rfl

theorem visible_of_fold {c : Char} (start : isNameStart (fold c) = true) : isBlank c = false := by
  unfold fold at start
  split at start
  · rename_i long
    subst long
    decide
  · split at start
    · rename_i kelvin
      subst kelvin
      decide
    · exact visible_of_isNameStart (isNameStart_of_toLower start)

structure IsKeyword (keyword : String) : Prop where
  filled : keyword.toList ≠ []
  letters : keyword.toList.all isNameStart = true

theorem IsKeyword.not_mem {keyword : String} (isKeyword : IsKeyword keyword) {c : Char}
    (blank : isBlank c = true) : fold c ∉ keyword.toList := by
  intro member
  rw [visible_of_fold (List.all_eq_true.mp isKeyword.letters _ member)] at blank
  cases blank

/-! ### Words and blanks -/

/-- Nothing follows unless there is a blank first. -/
def Stops (next : List Char → List (Part × List Char) → Option ForHeader) : Prop :=
  ∀ c rest groups, isBlank c = false → next (c :: rest) groups = none

section Search

variable {next : List Char → List (Part × List Char) → Option ForHeader}
  {groups : List (Part × List Char)} {part : Part} {keyword : String} {s w r : List Char}

theorem search_blanks : (many isBlank).search s groups finish = finish (trimStart s) groups :=
  search_many fun _ _ _ _ => rfl

theorem search_bound_visible {c : Char} (visible : isBlank c = false) :
    (bound part keyword).search (c :: s) groups next = none := by
  simp [bound, run, search, visible]

theorem stops_fromStep : Stops fun rest groups => fromStep.search rest groups finish := by
  intro c rest groups visible
  change ((bound .step "step").search (c :: rest) groups _).or
    ((many isBlank).search (c :: rest) groups finish) = none
  rw [search_bound_visible visible, search_blanks, trimStart_cons visible]
  rfl

theorem stops_fromLimit : Stops fun rest groups => fromLimit.search rest groups finish := by
  intro c rest groups visible
  change ((bound .limit "to").search (c :: rest) groups _).or
    (fromStep.search (c :: rest) groups finish) = none
  rw [search_bound_visible visible]
  exact stops_fromStep c rest groups visible

theorem eq_of_take {n : Nat} (isWord : IsWord isBlank [] w r)
    (visible : ∀ c ∈ (w ++ r).take n, isBlank c = false)
    (blank : ((w ++ r).drop n).head?.any isBlank = true) : n = w.length := by
  rcases Nat.lt_trichotomy n w.length with less | same | more
  · rw [List.drop_append_of_le_length (Nat.le_of_lt less), List.head?_append,
      List.head?_drop, List.getElem?_eq_getElem less] at blank
    have plain := isWord.plain w[n] (List.getElem_mem less)
    simp [plain] at blank
  · exact same
  · cases r with
    | nil => simp [List.drop_eq_nil_of_le (Nat.le_of_lt more)] at blank
    | cons c r =>
        have inside : c ∈ (w ++ c :: r).take n := by
          rw [List.take_append, List.mem_append]
          right
          obtain ⟨k, rfl⟩ := Nat.exists_eq_add_of_lt more
          have count : w.length + k + 1 - w.length = k + 1 := by omega
          rw [count]
          exact List.mem_cons_self
        have cuts := isWord.before c rfl
        rw [visible c inside] at cuts
        cases cuts

theorem search_keyword (isKeyword : IsKeyword keyword) (isWord : IsWord isBlank [] w r)
    (barred : ∀ c rest groups, isBlank c = true → next (c :: rest) groups = none)
    (empty : ∀ groups, next [] groups = none) :
    (followed (word fold keyword.toList) (run isBlank)).search (w ++ r) groups next =
      if w.map fold = keyword.toList then next (trimStart r) groups else none := by
  change (word fold keyword.toList).search (w ++ r) groups _ = _
  rw [search_word, search_run barred]
  by_cases spelled : w.map fold = keyword.toList
  · have length : keyword.toList.length = w.length := by rw [← spelled, List.length_map]
    rw [length, List.take_left, List.drop_left, if_pos spelled, if_pos spelled]
    cases r with
    | nil => exact (empty groups).symm
    | cons c r =>
        rw [List.head?_cons, Option.any_some, if_pos (isWord.before c rfl)]
        rfl
  · rw [if_neg spelled]
    split
    · rename_i same
      split
      · rename_i blank
        have visible : ∀ c ∈ (w ++ r).take keyword.toList.length, isBlank c = false := by
          intro c member
          cases cuts : isBlank c with
          | false => rfl
          | true => exact absurd (same ▸ List.mem_map_of_mem member) (isKeyword.not_mem cuts)
        rw [eq_of_take isWord visible blank, List.take_left] at same
        exact absurd same spelled
      · rfl
    · rfl

theorem search_value (stops : Stops next) (isWord : IsWord isBlank [] w r) :
    (group part (run isPlain)).search (w ++ r) groups next =
      if w.all isPlain then next r (groups ++ [(part, w)]) else none := by
  have plain {c : Char} (inside : isPlain c = true) : isBlank c = false := by
    simpa using (Bool.and_eq_true_iff.mp inside).1
  rw [search_group_run fun c rest groups inside => stops c rest groups (plain inside)]
  by_cases inside : w.all isPlain = true
  · have ends : ∀ c, r.head? = some c → isPlain c = false := by
      intro c begins
      simp [isPlain, isWord.before c begins]
    obtain ⟨taken, dropped⟩ := takeWhile_run inside ends
    obtain ⟨c, w, rfl⟩ := List.exists_cons_of_ne_nil isWord.filled
    have first : isPlain c = true := List.all_eq_true.mp inside c List.mem_cons_self
    rw [taken, dropped, if_pos inside, List.cons_append, List.head?_cons, Option.any_some,
      if_pos first]
  · rw [if_neg inside]
    split
    · obtain ⟨c, rest, left⟩ : ∃ c rest, w.dropWhile isPlain = c :: rest := by
        apply List.exists_cons_of_ne_nil
        intro empty
        exact inside (List.all_eq_true.mpr (List.dropWhile_eq_nil_iff.mp empty))
      have member : c ∈ w := List.dropWhile_subset isPlain (left ▸ List.mem_cons_self)
      rw [List.dropWhile_append, left, List.isEmpty_cons, if_neg Bool.false_ne_true]
      exact stops c _ _ (isWord.plain c member)
    · rfl

theorem search_value_empty : (group part (run isPlain)).search [] groups next = none := rfl

theorem exists_first (s : List Char) : words s = [] ∧ trimStart s = [] ∨
    ∃ w r, trimStart s = w ++ r ∧ IsWord isBlank [] w r ∧ words s = w :: words r := by
  have same : words (trimStart s) = words s := by
    conv => rhs; rw [← List.takeWhile_append_dropWhile (p := isBlank) (l := s)]
    exact (fields_separators_append List.all_takeWhile _).symm
  cases front : trimStart s with
  | nil =>
      rw [front] at same
      exact .inl ⟨same.symm, rfl⟩
  | cons c rest =>
      have visible := isBlank_of_head?_trimStart (s := s) (c := c) (by rw [front]; rfl)
      obtain ⟨w, r, whole, isWord, -⟩ := exists_first_word visible rest
      refine .inr ⟨w, r, whole, isWord, ?_⟩
      rw [← same, front, whole]
      exact isWord.fields_eq

def Blank (s : List Char) : Prop := ∀ c, s.head? = some c → isBlank c = true

theorem search_bound_blanks (isKeyword : IsKeyword keyword) :
    (bound part keyword).search s groups next = if s.head?.any isBlank then
      (followed (word fold keyword.toList) (followed (run isBlank) (group part (run isPlain)))).search
        (trimStart s) groups next
      else none := by
  apply search_followed_run
  intro c rest groups cuts
  obtain ⟨letter, letters, spelled⟩ := List.exists_cons_of_ne_nil isKeyword.filled
  have other : fold c ≠ letter := by
    rintro rfl
    exact isKeyword.not_mem cuts (spelled ▸ List.mem_cons_self)
  rw [spelled]
  simp [word, search, other]

theorem search_bound_empty (isKeyword : IsKeyword keyword) (empty : trimStart s = []) :
    (bound part keyword).search s groups next = none := by
  obtain ⟨letter, letters, spelled⟩ := List.exists_cons_of_ne_nil isKeyword.filled
  rw [search_bound_blanks isKeyword, empty, spelled]
  simp [word, search]

theorem search_bound_word (isKeyword : IsKeyword keyword) (blank : Blank s)
    (first : trimStart s = w ++ r) (isWord : IsWord isBlank [] w r) :
    (bound part keyword).search s groups next = if w.map fold = keyword.toList then
      (group part (run isPlain)).search (trimStart r) groups next else none := by
  have begins : s.head?.any isBlank = true := by
    cases s with
    | nil =>
        obtain ⟨empty, -⟩ := List.append_eq_nil_iff.mp first.symm
        exact absurd empty isWord.filled
    | cons c rest => exact blank c rfl
  rw [search_bound_blanks isKeyword, if_pos begins, first]
  exact search_keyword isKeyword isWord
    (fun c rest groups cuts => by simp [run, search, isPlain, cuts]) fun groups => search_value_empty

theorem search_bound_short (isKeyword : IsKeyword keyword) (blank : Blank s)
    (short : (words s).length < 2) : (bound part keyword).search s groups next = none := by
  rcases exists_first s with ⟨-, empty⟩ | ⟨w, r, first, isWord, listed⟩
  · exact search_bound_empty isKeyword empty
  · rw [search_bound_word isKeyword blank first isWord]
    rcases exists_first r with ⟨-, empty⟩ | ⟨b, rest, -, -, more⟩
    · rw [empty, search_value_empty, ite_self]
    · rw [listed, more] at short
      exact absurd short (by simp)

theorem search_bound_two (isKeyword : IsKeyword keyword) (stops : Stops next) (blank : Blank s)
    {b : List Char} {others : List (List Char)} (found : words s = w :: b :: others) :
    ∃ rest, words rest = others ∧ Blank rest ∧ (bound part keyword).search s groups next =
      if w.map fold = keyword.toList ∧ b.all isPlain = true then
        next rest (groups ++ [(part, b)]) else none := by
  rcases exists_first s with ⟨empty, -⟩ | ⟨w', r, first, isWord, listed⟩
  · rw [found] at empty
    cases empty
  · rw [found] at listed
    obtain ⟨rfl, second⟩ := List.cons.inj listed
    rcases exists_first r with ⟨empty, -⟩ | ⟨b', rest, behind, isSecond, listed⟩
    · rw [empty] at second
      cases second
    · rw [← second] at listed
      obtain ⟨rfl, others⟩ := List.cons.inj listed
      refine ⟨rest, others.symm, isSecond.before, ?_⟩
      rw [search_bound_word isKeyword blank first isWord, behind, search_value stops isSecond]
      by_cases spelled : w.map fold = keyword.toList <;> simp [spelled]

/-! ### The groups behind the start -/

theorem isKeyword_to : IsKeyword "to" := ⟨by decide, by decide⟩

theorem isKeyword_step : IsKeyword "step" := ⟨by decide, by decide⟩

/-- The groups that the words behind the limit fill. -/
def stepGroups : List (List Char) → Option (List (Part × List Char))
  | [] => some []
  | [w, b] => if isStep w && b.all isPlain then some [(.step, b)] else none
  | _ => none

def boundGroups (ws : List (List Char)) : Option (List (Part × List Char)) :=
  (match ws with
    | w :: b :: rest =>
      if isTo w && b.all isPlain then (stepGroups rest).map ((Part.limit, b) :: ·) else none
    | _ => none).or (stepGroups ws)

theorem finish_trimStart (s : List Char) (groups : List (Part × List Char)) :
    finish (trimStart s) groups = if words s = [] then some (ofGroups groups) else none := by
  rcases exists_first s with ⟨none, empty⟩ | ⟨w, r, first, isWord, listed⟩
  · rw [none, empty, if_pos rfl]
    rfl
  · obtain ⟨c, w, rfl⟩ := List.exists_cons_of_ne_nil isWord.filled
    rw [listed, first, if_neg (List.cons_ne_nil _ _)]
    rfl

theorem search_fromStep (blank : Blank s) : fromStep.search s groups finish =
    (stepGroups (words s)).map fun more => ofGroups (groups ++ more) := by
  have stops : Stops fun rest groups => (many isBlank).search rest groups finish := by
    intro c rest groups visible
    dsimp only
    rw [search_blanks, trimStart_cons visible]
    rfl
  change ((bound .step "step").search s groups _).or ((many isBlank).search s groups finish) = _
  rw [search_blanks, finish_trimStart]
  cases found : words s with
  | nil =>
      rw [search_bound_short isKeyword_step blank (by simp [found])]
      simp [stepGroups]
  | cons w others =>
      cases others with
      | nil =>
          rw [search_bound_short isKeyword_step blank (by simp [found])]
          rfl
      | cons b others =>
          obtain ⟨rest, listed, -, same⟩ := search_bound_two isKeyword_step stops blank found
          rw [same, search_blanks, finish_trimStart, listed]
          simp only [← isStep_iff, ← Bool.and_eq_true_iff]
          cases others with
          | nil => by_cases fits : (isStep w && b.all isPlain) = true <;> simp [stepGroups, fits]
          | cons more others => simp [stepGroups]

theorem search_fromLimit (blank : Blank s) : fromLimit.search s groups finish =
    (boundGroups (words s)).map fun more => ofGroups (groups ++ more) := by
  change ((bound .limit "to").search s groups _).or (fromStep.search s groups finish) = _
  rw [search_fromStep blank]
  cases found : words s with
  | nil =>
      rw [search_bound_short isKeyword_to blank (by simp [found])]
      rfl
  | cons w others =>
      cases others with
      | nil =>
          rw [search_bound_short isKeyword_to blank (by simp [found])]
          rfl
      | cons b others =>
          obtain ⟨rest, listed, blank', same⟩ :=
            search_bound_two isKeyword_to stops_fromStep blank found
          rw [same, search_fromStep blank', listed]
          simp only [← isTo_iff, ← Bool.and_eq_true_iff]
          by_cases fits : (isTo w && b.all isPlain) = true
          · simp [boundGroups, fits, Option.map_or, Function.comp_def]
          · simp [boundGroups, fits]

/-! ### The whole header -/

theorem map_boundGroups (name start : List Char) (ws : List (List Char)) :
    ((boundGroups ws).map fun more => ofGroups ([(.counter, name), (.start, start)] ++ more)) =
      (bounds? ws).map fun (limit, step) =>
        ⟨String.ofList name, String.ofList start, String.ofList limit, String.ofList step⟩ := by
  match ws with
  | [] => rfl
  | [w] => rfl
  | [w, b] =>
      by_cases plain : b.all isPlain = true
      · by_cases limit : isTo w = true
        · simp [boundGroups, stepGroups, bounds?, plain, limit]
          rfl
        · by_cases step : isStep w = true
          · simp [boundGroups, stepGroups, bounds?, plain, limit, step]
            rfl
          · simp [boundGroups, stepGroups, bounds?, plain, limit, step]
      · simp [boundGroups, stepGroups, bounds?, plain]
  | [w, b, x] => simp [boundGroups, stepGroups, bounds?]
  | [w, b, x, y] =>
      rw [bounds?, Bool.and_assoc (isTo w && b.all isPlain)]
      by_cases limit : (isTo w && b.all isPlain) = true
      · by_cases step : (isStep x && y.all isPlain) = true
        · simp only [boundGroups, stepGroups, limit, step, Bool.and_self, ↓reduceIte]
          rfl
        · simp [boundGroups, stepGroups, limit, step]
      · simp [boundGroups, stepGroups, limit]
  | w :: b :: x :: y :: z :: more => simp [boundGroups, stepGroups, bounds?]

theorem bounds?_visible {c : Char} (visible : isBlank c = false) (other : isPlain c = false)
    (s : List Char) : bounds? (words (c :: s)) = none := by
  have comma : c = ',' := by simpa [isPlain, visible] using other
  subst comma
  obtain ⟨w, r, whole, isWord, -⟩ := exists_first_word visible s
  have listed : words (',' :: s) = w :: words r := by
    rw [whole]
    exact isWord.fields_eq
  obtain ⟨w, rfl⟩ : ∃ rest, w = ',' :: rest := by
    cases w with
    | nil => exact absurd rfl isWord.filled
    | cons d w =>
        obtain ⟨rfl, -⟩ := List.cons.inj whole
        exact ⟨w, rfl⟩
  have noLimit : isTo (',' :: w) = false := by
    rw [Bool.eq_false_iff, Ne, isTo_iff]
    intro spelled
    exact absurd (List.cons.inj spelled).1 (by decide)
  have noStep : isStep (',' :: w) = false := by
    rw [Bool.eq_false_iff, Ne, isStep_iff]
    intro spelled
    exact absurd (List.cons.inj spelled).1 (by decide)
  rw [listed]
  rcases words r with _ | ⟨b, _ | ⟨x, _ | ⟨y, _ | ⟨z, more⟩⟩⟩⟩
  · rfl
  · simp [bounds?, noLimit, noStep]
  · rfl
  · simp [bounds?, noLimit]
  · rfl

theorem search_fromStart (name s : List Char) :
    fromStart.search s [(.counter, name)] finish = startingAt? name s := by
  have barred : ∀ c rest groups, isPlain c = true →
      fromLimit.search (c :: rest) groups finish = none := by
    intro c rest groups plain
    exact stops_fromLimit c rest groups (by simpa using (Bool.and_eq_true_iff.mp plain).1)
  rw [fromStart, search, search_group_run barred]
  unfold startingAt?
  cases s with
  | nil => rfl
  | cons c s =>
      by_cases plain : isPlain c = true
      · rw [List.head?_cons, Option.any_some, if_pos plain, List.takeWhile_cons_of_pos plain]
        have ends : ∀ d, ((c :: s).dropWhile isPlain).head? = some d → isPlain d = false := by
          intro d next
          have stops := List.head?_dropWhile_not isPlain (c :: s)
          rwa [next] at stops
        generalize (c :: s).dropWhile isPlain = rest at ends
        by_cases blank : Blank rest
        · rw [search_fromLimit blank]
          exact map_boundGroups name (c :: s.takeWhile isPlain) (words rest)
        · obtain ⟨d, next, visible⟩ : ∃ d, rest.head? = some d ∧ isBlank d = false := by
            simpa [Blank] using blank
          obtain ⟨rest, rfl⟩ := List.head?_eq_some_iff.mp next
          dsimp only
          rw [bounds?_visible visible (ends d rfl)]
          exact stops_fromLimit d rest _ visible
      · rw [List.head?_cons, Option.any_some, if_neg plain, List.takeWhile_cons_of_neg plain]

/-- The first two readings: a `=` behind the name may be a sign or belong to the start. -/
def reading? (name after : List Char) : Option ForHeader :=
  (match trimStart after with
    | '=' :: rest => startingAt? name (trimStart rest)
    | _ => none).or (startingAt? name (trimStart after))

theorem search_fromSign (name s : List Char) :
    fromSign.search s [(.counter, name)] finish = reading? name s := by
  have barred : ∀ c rest groups, isBlank c = true →
      fromStart.search (c :: rest) groups finish = none := by
    intro c rest groups blank
    simp [fromStart, run, search, isPlain, blank]
  have passes : ∀ c rest groups, isBlank c = true →
      (followed (maybe (followed (one (· == '=')) (many isBlank))) fromStart).search (c :: rest) groups
        finish = none := by
    intro c rest groups blank
    have other : c ≠ '=' := by
      rintro rfl
      cases blank
    change ((followed (one (· == '=')) (many isBlank)).search (c :: rest) groups _).or
      (fromStart.search (c :: rest) groups finish) = none
    rw [barred c rest groups blank]
    simp [search, other]
  rw [fromSign, search_followed_many passes]
  change ((followed (one (· == '=')) (many isBlank)).search (trimStart s) _ _).or
    (fromStart.search (trimStart s) _ finish) = _
  unfold reading?
  rw [search_fromStart]
  congr 1
  cases trimStart s with
  | nil => rfl
  | cons c rest =>
      by_cases sign : c = '='
      · subst sign
        have spaces : (followed (many isBlank) fromStart).search rest [(.counter, name)] finish =
            fromStart.search (trimStart rest) [(.counter, name)] finish :=
          search_followed_many barred
        rw [search, search_one_pos rfl]
        exact spaces.trans (search_fromStart name _)
      · have passed : (followed (one (· == '=')) (many isBlank)).search (c :: rest)
            [(Part.counter, name)] (fun rest groups => fromStart.search rest groups finish) = none := by
          simp [search, sign]
        rw [passed]
        split
        · rename_i same
          cases same
          exact absurd rfl sign
        · rfl

end Search

/-! ### The name -/

theorem isPlain_of_letter {c : Char} (letter : isLetterOrDigit c = true) : isPlain c = true := by
  simp only [isLetterOrDigit, isLetter, Bool.or_eq_true, beq_iff_eq] at letter
  have named (inside : isNameChar c = true) : isPlain c = true := by
    rw [isPlain, visible_of_isNameChar inside, Bool.not_false, Bool.true_and, bne_iff_ne]
    rintro rfl
    cases inside
  rcases letter with ((start | rfl) | rfl) | digit
  · exact named (isNameChar_iff.mpr (.inl start))
  · rfl
  · rfl
  · exact named (isNameChar_iff.mpr (.inr digit))

theorem reading?_letter {c : Char} (letter : isLetterOrDigit c = true) (name s : List Char) :
    reading? name (c :: s) = startingAt? name (c :: s) := by
  have visible : isBlank c = false := by
    simpa using (Bool.and_eq_true_iff.mp (isPlain_of_letter letter)).1
  unfold reading?
  rw [trimStart_cons visible]
  split
  · rename_i same
    cases same
    cases letter
  · rfl

theorem startingAt?_letters {name other front s : List Char} {c : Char}
    (letters : (front ++ [c]).all isLetterOrDigit = true)
    (fails : startingAt? other (c :: s) = none) : startingAt? name (front ++ c :: s) = none := by
  have plain : ∀ d ∈ front ++ [c], isPlain d = true := fun d member =>
    isPlain_of_letter (List.all_eq_true.mp letters d member)
  have last : isPlain c = true := plain c (by simp)
  have begins : ∃ d rest, front ++ c :: s = d :: rest ∧ isPlain d = true := by
    cases front with
    | nil => exact ⟨c, s, rfl, last⟩
    | cons d front => exact ⟨d, front ++ c :: s, rfl, plain d (by simp)⟩
  have behind : (front ++ c :: s).dropWhile isPlain = s.dropWhile isPlain := by
    rw [← List.singleton_append, ← List.append_assoc, List.dropWhile_append_of_pos plain]
  unfold startingAt? at fails
  rw [List.takeWhile_cons_of_pos last, List.dropWhile_cons_of_pos last] at fails
  unfold startingAt?
  rw [behind, Option.map_eq_none_iff.mp fails]
  obtain ⟨d, rest, whole, first⟩ := begins
  rw [whole, List.takeWhile_cons_of_pos first]
  rfl

theorem reading?_letters {name other front s : List Char} {c : Char}
    (letters : (front ++ [c]).all isLetterOrDigit = true)
    (fails : startingAt? other (c :: s) = none) : reading? name (front ++ c :: s) = none := by
  have none : startingAt? name (front ++ c :: s) = none := startingAt?_letters letters fails
  cases front with
  | nil =>
      have letter : isLetterOrDigit c = true := by simpa using letters
      exact (reading?_letter letter name s).trans none
  | cons d front =>
      rw [List.cons_append, List.all_cons, Bool.and_eq_true] at letters
      exact (reading?_letter letters.1 name (front ++ c :: s)).trans none

/-- The last reading: the last character of a name belongs to the start. -/
def lastReading? (name after : List Char) : Option ForHeader :=
  match name.reverse with
  | last :: shorter@(_ :: _) => startingAt? shorter.reverse (last :: after)
  | _ => none

theorem ofWords?_eq (s : List Char) : ofWords? s =
    if (s.takeWhile isLetterOrDigit).head?.any isLetter then
      (reading? (s.takeWhile isLetterOrDigit) (s.dropWhile isLetterOrDigit)).or
        (lastReading? (s.takeWhile isLetterOrDigit) (s.dropWhile isLetterOrDigit))
    else none := by
  have order (first second third : Option ForHeader) :
      (first <|> second <|> third) = (first.or second).or third := by
    simp only [Option.orElse_eq_orElse, Option.orElse_eq_or, Option.or_assoc]
  unfold ofWords?
  dsimp only
  by_cases begins : (s.takeWhile isLetterOrDigit).head?.any isLetter = true
  · rw [if_neg (by simp [begins]), if_pos begins]
    exact order _ _ _
  · rw [if_pos (by simp [begins]), if_neg begins]

theorem lastReading?_concat (c : Char) (front : List Char) (last : Char) (after : List Char) :
    lastReading? (c :: (front ++ [last])) after = startingAt? (c :: front) (last :: after) := by
  unfold lastReading?
  obtain ⟨d, rest, reversed⟩ := List.exists_cons_of_ne_nil
    (show (c :: front).reverse ≠ [] by simp)
  have whole : (c :: (front ++ [last])).reverse = last :: d :: rest := by
    rw [← List.cons_append, List.reverse_append, reversed]
    rfl
  rw [whole]
  change startingAt? (d :: rest).reverse (last :: after) = _
  rw [← reversed, List.reverse_reverse]

/-- Of all the names in front of a text, the longest one is tried first, and then the one without
its last character. If neither will do, none does. -/
theorem tryRuns_readings {c : Char} {s : List Char} {follow : List Char → Option ForHeader}
    (reads : ∀ front rest, s = front ++ rest → follow rest = reading? (c :: front) rest) :
    tryRuns isLetterOrDigit s follow =
      (reading? (c :: s.takeWhile isLetterOrDigit) (s.dropWhile isLetterOrDigit)).or
        (lastReading? (c :: s.takeWhile isLetterOrDigit) (s.dropWhile isLetterOrDigit)) := by
  have parts := List.takeWhile_append_dropWhile (p := isLetterOrDigit) (l := s)
  have stops : ∀ d, (s.dropWhile isLetterOrDigit).head? = some d → isLetterOrDigit d = false := by
    intro d next
    have outside := List.head?_dropWhile_not isLetterOrDigit s
    rwa [next] at outside
  have letters : (s.takeWhile isLetterOrDigit).all isLetterOrDigit = true := List.all_takeWhile
  generalize s.takeWhile isLetterOrDigit = run at parts letters
  generalize s.dropWhile isLetterOrDigit = after at parts stops
  rcases List.eq_nil_or_concat run with rfl | ⟨front, last, rfl⟩
  · rw [List.nil_append] at parts
    subst parts
    rw [tryRuns_empty stops, reads [] after rfl]
    exact Option.or_none.symm
  · rw [List.concat_eq_append] at parts letters ⊢
    have whole : s = front ++ last :: after := by simp [← parts]
    have letter : isLetterOrDigit last = true := List.all_eq_true.mp letters last (by simp)
    have short : follow (last :: after) = startingAt? (c :: front) (last :: after) :=
      (reads front _ whole).trans (reading?_letter letter _ _)
    have two : tryRuns isLetterOrDigit (front ++ last :: after) follow =
        (follow after).or (follow (last :: after)) := by
      apply tryRuns_two letters stops
      rintro fails first second rfl
      rw [short] at fails
      rw [List.append_assoc, List.all_append, Bool.and_eq_true] at letters
      rw [reads first (second ++ last :: after) (by rw [whole, List.append_assoc])]
      exact reading?_letters letters.2 fails
    calc tryRuns isLetterOrDigit s follow
        = tryRuns isLetterOrDigit (front ++ last :: after) follow := by rw [← whole]
      _ = (follow after).or (follow (last :: after)) := two
      _ = (reading? (c :: (front ++ [last])) after).or
            (lastReading? (c :: (front ++ [last])) after) := by
          rw [reads (front ++ [last]) after parts.symm, short, lastReading?_concat]

/-- The header that is read from the words is the match that the pattern prefers. -/
theorem ofWords?_eq_matched? (s : List Char) : ofWords? s = matched? s := by
  rw [ofWords?_eq]
  cases s with
  | nil => rfl
  | cons c s =>
      by_cases letter : isLetter c = true
      · have inside : isLetterOrDigit c = true := by simp [isLetterOrDigit, letter]
        have reads : ∀ front rest, s = front ++ rest → fromSign.search rest
            [(.counter, (c :: s).take ((c :: s).length - rest.length))] finish =
              reading? (c :: front) rest := by
          rintro front rest rfl
          have name := take_front (c :: front) rest
          rw [List.cons_append] at name
          rw [name, search_fromSign]
        rw [List.takeWhile_cons_of_pos inside, List.dropWhile_cons_of_pos inside, List.head?_cons,
          Option.any_some, if_pos letter, ← tryRuns_readings reads]
        exact (if_pos letter).symm
      · have begins : ((c :: s).takeWhile isLetterOrDigit).head?.any isLetter = false := by
          rw [List.takeWhile_cons]
          split
          · simp [letter]
          · rfl
        rw [begins, if_neg Bool.false_ne_true]
        exact (if_neg letter).symm

end Easel.ForHeader
