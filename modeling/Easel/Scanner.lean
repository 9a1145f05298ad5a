import Easel.Expression.Token

/-! A place in a text that moves over tokens. Places are counted in bytes, and a text can be cut only
between two characters: what would cut it inside of one, or behind its end, has no result. -/

namespace Easel

structure Scanner where
  source : String
  position : Nat
  deriving DecidableEq, Repr

namespace Scanner

open Text

def sliceTo? (text : String) (place : Nat) : Option String :=
  if valid : String.Pos.Raw.IsValid text ⟨place⟩ then
    some (text.sliceTo (text.pos ⟨place⟩ valid)).copy
  else none

def sliceFrom? (text : String) (place : Nat) : Option String :=
  if valid : String.Pos.Raw.IsValid text ⟨place⟩ then
    some (text.sliceFrom (text.pos ⟨place⟩ valid)).copy
  else none

def slice? (text : String) (first last : Nat) : Option String := do
  sliceFrom? (← sliceTo? text last) first

def ofText (source : String) : Scanner := ⟨source, 0⟩

def reset (position : Nat) (s : Scanner) : Scanner := { s with position }

def move (bytes : Nat) (s : Scanner) : Scanner := { s with position := s.position + bytes }

def rest? (s : Scanner) : Option String := sliceFrom? s.source s.position

def next? (s : Scanner) : Option (Option Char) :=
  if valid : String.Pos.Raw.IsValid s.source ⟨s.position⟩ then
    some (s.source.pos ⟨s.position⟩ valid).get?
  else none

theorem lt_of_next? {s : Scanner} {c : Char} (found : s.next? = some (some c)) :
    s.position < s.source.utf8ByteSize := by
  unfold next? at found
  split at found
  · rename_i valid
    have next := Option.some.inj found
    have inside : s.source.pos ⟨s.position⟩ valid ≠ s.source.endPos := by
      intro last
      rw [last, String.Pos.get?_eq_none rfl] at next
      cases next
    exact (String.Pos.lt_endPos_iff _).mpr inside
  · cases found

def skipBlanks (s : Scanner) : Option Scanner :=
  match found : s.next? with
  | none => none
  | some none => some s
  | some (some c) =>
    have := lt_of_next? found
    if isBlank c then skipBlanks (s.move c.utf8Size) else some s
termination_by s.source.utf8ByteSize - s.position
decreasing_by
  have filled := c.utf8Size_pos
  dsimp only [move]
  omega

def peek (s : Scanner) : Option (Option Char × Scanner) := do
  let s ← s.skipBlanks
  return (← s.next?, s)

def atEnd (s : Scanner) : Option (Bool × Scanner) := do
  let (next, s) ← s.peek
  return (next.isNone, s)

def remaining (s : Scanner) : Option String := do
  return String.ofList (trim (← s.rest?).toList)

def eat (c : Char) (s : Scanner) : Option (Bool × Scanner) := do
  let (next, s) ← s.peek
  return if next = some c then (true, s.move c.utf8Size) else (false, s)

def eatText (t : String) (s : Scanner) : Option (Bool × Scanner) := do
  let s ← s.skipBlanks
  let rest ← s.rest?
  return if t.toList.isPrefixOf rest.toList then (true, s.move t.utf8ByteSize) else (false, s)

/-- A whole word in any letter case. -/
def eatWord (word : String) (s : Scanner) : Option (Bool × Scanner) := do
  let s ← s.skipBlanks
  let rest ← s.rest?
  -- The bytes of the word may end inside a character of the text.
  if rest.utf8ByteSize < word.utf8ByteSize ∨ ¬ String.Pos.Raw.IsValid rest ⟨word.utf8ByteSize⟩ then
    return (false, s)
  if ¬ sameWord (← sliceTo? rest word.utf8ByteSize).toList word.toList then
    return (false, s)
  if (← sliceFrom? rest word.utf8ByteSize).toList.head?.any isNameChar then
    return (false, s)
  return (true, s.move word.utf8ByteSize)

def indices (first : Nat) : List Char → List (Nat × Char)
  | [] => []
  | c :: s => (first, c) :: indices (first + c.utf8Size) s

def name (s : Scanner) : Option (Option String × Scanner) := do
  let s ← s.skipBlanks
  match indices 0 (← s.rest?).toList with
  | [] => return (none, s)
  | (_, c) :: others =>
    if isNameStart c then
      let last := match others.find? (!isNameChar ·.2) with
        | some (index, _) => s.position + index
        | none => s.source.utf8ByteSize
      return (some (← slice? s.source s.position last), s.reset last)
    else return (none, s)

/-- Passes digits, and a point if there was none. -/
def passDigits (pointed : Bool) (s : Scanner) : Option Scanner :=
  match found : s.next? with
  | none => none
  | some none => some s
  | some (some c) =>
    have := lt_of_next? found
    if Decimal.isDigit c then passDigits pointed (s.move 1)
    else if c = '.' ∧ pointed = false then passDigits true (s.move 1)
    else some s
termination_by s.source.utf8ByteSize - s.position
decreasing_by
  all_goals
    dsimp only [move]
    omega

def number (s : Scanner) : Option (Option (Except Error Float) × Scanner) := do
  let s ← s.skipBlanks
  let after ← s.passDigits false
  if after.position = s.position then return (none, after)
  return (some (Token.value (← slice? s.source s.position after.position).toList), after)

end Scanner

end Easel
