import Mathlib.Data.List.Basic
import Easel.Proofs.Text.Phrases

/-! Patterns with groups, and how they are matched. One way after the other is tried: a run of
characters as long as possible first, an optional part rather with than without. Where the text does
not go on as the pattern does, the last choice is taken back. -/

namespace Easel.Text

/-- Groups are told apart by labels. -/
inductive Pattern (label : Type) where
  | nothing
  | one (sort : Char → Bool)
  | many (sort : Char → Bool)
  | maybe (inner : Pattern label)
  | followed (first second : Pattern label)
  | group (name : label) (inner : Pattern label)

/-- Tries what follows behind a run of characters of the sort, the longest run first. -/
def tryRuns {α : Type} (sort : Char → Bool) : List Char → (List Char → Option α) → Option α
  | [], next => next []
  | c :: s, next => if sort c then (tryRuns sort s next).or (next (c :: s)) else next (c :: s)

namespace Pattern

variable {label α : Type}

/-- Matches at the beginning of the text, and goes on behind. The groups found so far are handed
on. -/
def search : Pattern label → List Char → List (label × List Char) →
    (List Char → List (label × List Char) → Option α) → Option α
  | nothing, s, groups, next => next s groups
  | one sort, s, groups, next => match s with
    | [] => none
    | c :: s => if sort c then next s groups else none
  | many sort, s, groups, next => tryRuns sort s fun rest => next rest groups
  | maybe inner, s, groups, next => (inner.search s groups next).or (next s groups)
  | followed first second, s, groups, next =>
    first.search s groups fun rest groups => second.search rest groups next
  | group name inner, s, groups, next => inner.search s groups fun rest groups =>
    next rest (groups ++ [(name, s.take (s.length - rest.length))])

def run (sort : Char → Bool) : Pattern label := followed (one sort) (many sort)

def word (fold : Char → Char) : List Char → Pattern label
  | [] => nothing
  | letter :: letters => followed (one (fold · == letter)) (word fold letters)

end Pattern

/-! ### Runs -/

section Runs

variable {α : Type} {sort : Char → Bool} {s : List Char} {next : List Char → Option α}

theorem tryRuns_whole (barred : ∀ c rest, sort c = true → next (c :: rest) = none)
    (s : List Char) : tryRuns sort s next = next (s.dropWhile sort) := by
  induction s with
  | nil => rfl
  | cons c s ih =>
      cases inside : sort c with
      | true =>
          rw [List.dropWhile_cons_of_pos inside, tryRuns, if_pos inside, barred c s inside, ih,
            Option.or_none]
      | false =>
          have outside : ¬ sort c = true := by simp [inside]
          rw [List.dropWhile_cons_of_neg outside, tryRuns, if_neg outside]

theorem tryRuns_empty (stops : ∀ c, s.head? = some c → sort c = false) :
    tryRuns sort s next = next s := by
  cases s with
  | nil => rfl
  | cons c s => exact if_neg (by simp [stops c rfl])

/-- Where the text goes on behind no part of a run unless it does behind all but the last character,
there are two ways to try. -/
theorem tryRuns_two {front : List Char} {last : Char} {rest : List Char}
    (inside : (front ++ [last]).all sort = true)
    (stops : ∀ c, rest.head? = some c → sort c = false)
    (same : next (last :: rest) = none →
      ∀ first second, front = first ++ second → next (second ++ last :: rest) = none) :
    tryRuns sort (front ++ last :: rest) next = (next rest).or (next (last :: rest)) := by
  induction front with
  | nil =>
      have single : sort last = true := by simpa using inside
      rw [List.nil_append, tryRuns, if_pos single, tryRuns_empty stops]
  | cons c front ih =>
      rw [List.cons_append, List.all_cons, Bool.and_eq_true] at inside
      rw [List.cons_append, tryRuns, if_pos inside.1, ih inside.2]
      · cases found : next (last :: rest) with
        | none =>
            have whole := same found [] (c :: front) rfl
            rw [List.cons_append] at whole
            rw [whole, Option.or_none]
        | some a => cases next rest <;> rfl
      · intro fails first second whole
        exact same fails (c :: first) second (by rw [whole, List.cons_append])

end Runs

/-! ### Searching -/

namespace Pattern

variable {label α : Type} {sort : Char → Bool} {s : List Char} {groups : List (label × List Char)}
  {next : List Char → List (label × List Char) → Option α}

theorem search_one_pos {c : Char} (inside : sort c = true) :
    (one sort).search (c :: s) groups next = next s groups := if_pos inside

theorem search_many
    (barred : ∀ c rest groups, sort c = true → next (c :: rest) groups = none) :
    (many sort).search s groups next = next (s.dropWhile sort) groups :=
  tryRuns_whole (fun c rest inside => barred c rest groups inside) s

theorem search_run
    (barred : ∀ c rest groups, sort c = true → next (c :: rest) groups = none) :
    (run sort).search s groups next =
      if s.head?.any sort then next (s.dropWhile sort) groups else none := by
  cases s with
  | nil => rfl
  | cons c s =>
      change (if sort c then (many sort).search s groups next else none) = _
      rw [search_many barred]
      by_cases inside : sort c = true
      · rw [if_pos inside, List.dropWhile_cons_of_pos inside, List.head?_cons, Option.any_some,
          if_pos inside]
      · rw [if_neg inside, List.head?_cons, Option.any_some, if_neg inside]

theorem search_followed_many {second : Pattern label}
    (barred : ∀ c rest groups, sort c = true → second.search (c :: rest) groups next = none) :
    (followed (many sort) second).search s groups next =
      second.search (s.dropWhile sort) groups next := by
  rw [search]
  exact search_many barred

theorem search_followed_run {second : Pattern label}
    (barred : ∀ c rest groups, sort c = true → second.search (c :: rest) groups next = none) :
    (followed (run sort) second).search s groups next =
      if s.head?.any sort then second.search (s.dropWhile sort) groups next else none := by
  rw [search]
  exact search_run barred

theorem take_front (front rest : List Char) :
    (front ++ rest).take ((front ++ rest).length - rest.length) = front := by
  simp

theorem search_group_run {name : label}
    (barred : ∀ c rest groups, sort c = true → next (c :: rest) groups = none) :
    ((run sort).group name).search s groups next =
      if s.head?.any sort then next (s.dropWhile sort) (groups ++ [(name, s.takeWhile sort)])
      else none := by
  have taken := take_front (s.takeWhile sort) (s.dropWhile sort)
  rw [List.takeWhile_append_dropWhile] at taken
  conv => rhs; rw [← taken]
  exact search_run fun c rest groups inside => barred c rest _ inside

theorem search_word (fold : Char → Char) (letters : List Char) :
    (word fold letters).search s groups next =
      if (s.take letters.length).map fold = letters then next (s.drop letters.length) groups
      else none := by
  induction letters generalizing s with
  | nil => simp [word, search]
  | cons letter letters ih =>
      cases s with
      | nil => simp [word, search]
      | cons c s =>
          change (if fold c == letter then (word fold letters).search s groups next else none) = _
          rw [ih]
          by_cases same : fold c = letter <;> simp [same]

end Pattern

end Easel.Text
