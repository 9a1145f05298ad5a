import Easel.Decimal.Reading
import Easel.Error
import Easel.Text.Name

/-! Tokens of expressions. Every reader passes the blanks in front and gives what is left behind the
token, or nothing when another token stands there. -/

namespace Easel.Token

open Text

def char? (c : Char) (s : List Char) : Option (List Char) :=
  match trimStart s with
  | [] => none
  | d :: rest => if d = c then some rest else none

def text? (t s : List Char) : Option (List Char) := dropBeginning? t (trimStart s)

/-- A whole word in any letter case, so that `trueish` is not `true`. -/
def word? (word s : List Char) : Option (List Char) :=
  let s := trimStart s
  let rest := s.drop word.length
  if sameWord (s.take word.length) word && !(rest.head?.any isNameChar) then some rest else none

def name? (s : List Char) : Option (List Char × List Char) :=
  match trimStart s with
  | [] => none
  | c :: rest =>
    if isNameStart c then some (c :: rest.takeWhile isNameChar, rest.dropWhile isNameChar) else none

def digits? (s : List Char) : Option (List Char × List Char) :=
  let s := trimStart s
  let whole := s.takeWhile Decimal.isDigit
  match s.dropWhile Decimal.isDigit with
  | '.' :: rest =>
    some (whole ++ '.' :: rest.takeWhile Decimal.isDigit, rest.dropWhile Decimal.isDigit)
  | rest => if whole.isEmpty then none else some (whole, rest)

/-- The value of digits; a point alone has none. -/
def value (digits : List Char) : Except Error Float :=
  match Decimal.real? digits with
  | some x => .ok x
  | none => .error (.invalidNumber (String.ofList digits))

end Easel.Token
