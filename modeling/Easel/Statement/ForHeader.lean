import Easel.Statement.Basic
import Easel.Text.Name

/-! The keyword form of a loop header, `i = 1 to 10 step 2`. The sign `=` and both bounds may be
missing, and so may the blank between the loop variable and the start. -/

namespace Easel.ForHeader

open Text

/-- The long s and the kelvin sign are letters here, since they fold to `s` and `k`. -/
def isLetter (c : Char) : Bool := isNameStart c || c == '\u017f' || c == '\u212a'

def isLetterOrDigit (c : Char) : Bool := isLetter c || c.isDigit

def isTo (word : List Char) : Bool := sameWord word "to".toList

def isStep (word : List Char) : Bool :=
  sameWord (word.map fun c => if c == '\u017f' then 's' else c) "step".toList

def isPlain (c : Char) : Bool := !isBlank c && c != ','

/-- Limit and step as the words behind the start give them: `0` and `1` where they are missing. -/
def bounds? : List (List Char) → Option (List Char × List Char)
  | [] => some (['0'], ['1'])
  | [word, bound] =>
    if !bound.all isPlain then none
    else if isTo word then some (bound, ['1'])
    else if isStep word then some (['0'], bound)
    else none
  | [first, limit, second, step] =>
    if isTo first && limit.all isPlain && isStep second && step.all isPlain then some (limit, step)
    else none
  | _ => none

def startingAt? (counter s : List Char) : Option ForHeader :=
  match s.takeWhile isPlain with
  | [] => none
  | start => (bounds? (words (s.dropWhile isPlain))).map fun (limit, step) =>
    ⟨String.ofList counter, String.ofList start, String.ofList limit, String.ofList step⟩

/-- The loop variable is the longest name at the beginning. The first reading that fits is taken:
the start stands behind `=`; the start follows the name, and a `=` belongs to it; the last
character of the name already belongs to the start. -/
def ofWords? (s : List Char) : Option ForHeader :=
  let name := s.takeWhile isLetterOrDigit
  let after := s.dropWhile isLetterOrDigit
  if !(name.head?.any isLetter) then none
  else
    (match trimStart after with
      | '=' :: rest => startingAt? name (trimStart rest)
      | _ => none)
    <|> startingAt? name (trimStart after)
    <|> (match name.reverse with
      | last :: shorter@(_ :: _) => startingAt? shorter.reverse (last :: after)
      | _ => none)

end Easel.ForHeader
