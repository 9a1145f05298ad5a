import Easel.Statement.Reading

/-! Source lines. -/

namespace Easel

/-- A line of source without the blanks around it, numbered from one. -/
structure Line where
  number : Nat
  text : String
  deriving DecidableEq, Repr

namespace Line

open Text

def ofText (number : Nat) (s : List Char) : Line := ⟨number, String.ofList (trim s)⟩

def all (source : String) : List Line :=
  (lines source.toList).mapIdx fun index s => ofText (index + 1) s

/-- Empty lines and comments, which begin with a star, say nothing. -/
def isBlank (line : Line) : Bool :=
  match line.text.toList with
  | [] => true
  | c :: _ => c == '*'

def keyword (line : Line) : String := String.ofList (line.text.toList.takeWhile Char.isAlpha)

def parameters (line : Line) : String :=
  String.ofList (trim (line.text.toList.dropWhile Char.isAlpha))

def statement (line : Line) : Except Error Statement :=
  (Statement.read line.keyword line.parameters).mapError (Error.inLine line.number)

end Line

end Easel
