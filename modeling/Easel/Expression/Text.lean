import Easel.Expression.Arithmetic

/-! Text: quoted literals and arithmetic values, joined by `+`. -/

namespace Easel.Expression

open Text

def isQuote (c : Char) : Bool := c == '"' || c == '\''

def quoted? : List Char → Option (List Char)
  | [] => none
  | quote :: rest => if isQuote quote && rest.getLast? == some quote then some rest.dropLast else none

/-- One literal: its own quote does not stand inside. -/
def quotedLiteral? (s : List Char) : Option (List Char) :=
  (quoted? s).filter fun inner => !(s.head?.any inner.contains)

def onFirst (c : Char) : List (List Char) → List (List Char)
  | [] => [[c]]
  | part :: parts => (c :: part) :: parts

def parts? : Option Char → List Char → Option (List (List Char))
  | none, [] => some [[]]
  | some _, [] => none
  | some quote, c :: s => (parts? (if c = quote then none else some quote) s).map (onFirst c)
  | none, c :: s =>
    if isQuote c then (parts? (some c) s).map (onFirst c)
    else if c = '+' then (parts? none s).map ([] :: ·)
    else (parts? none s).map (onFirst c)

def part? (vars : Variables) (s : List Char) : Option String :=
  match quotedLiteral? (trim s) with
  | some inner => some (String.ofList inner)
  | none => (real vars (trim s)).toOption.map Decimal.pointText

def concatenation? (vars : Variables) (s : List Char) : Option String := do
  let parts ← parts? none s
  let texts ← parts.mapM (part? vars)
  return String.join texts

/-- A literal and the sum of all that follows its plus sign. -/
def labelled? (vars : Variables) (s : List Char) : Option String := do
  let (left, right) ← cut? '+' s
  let label ← quotedLiteral? (trim left)
  let x ← (real vars right).toOption
  return String.ofList label ++ Decimal.pointText x

/-- The text that an expression stands for. The first reading that fits is taken: one pair of quotes
around everything, a number, a label in front of a number, literals and numbers joined. Where none
fits, the fault of the number is the one reported. -/
def text (vars : Variables) (expression : List Char) : Except Error String :=
  let s := trim expression
  match quoted? s with
  | some inner => .ok (String.ofList inner)
  | none => match real vars s with
    | .ok x => .ok (Decimal.pointText x)
    | .error fault => match labelled? vars s <|> concatenation? vars s with
      | some joined => .ok joined
      | none => .error fault

end Easel.Expression
