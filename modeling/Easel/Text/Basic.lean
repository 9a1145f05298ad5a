import Easel.Text.Blank

/-! Cutting text into pieces. Text is worked on as a list of characters. -/

namespace Easel.Text

def trimStart (s : List Char) : List Char := s.dropWhile isBlank

def trimEnd (s : List Char) : List Char := (s.reverse.dropWhile isBlank).reverse

def trim (s : List Char) : List Char := trimEnd (trimStart s)

/-- The pieces between separators, empty ones included. -/
def split (separator : Char → Bool) (s : List Char) : List (List Char) :=
  s.foldr (fun c pieces =>
    if separator c then [] :: pieces
    else match pieces with
      | [] => [[c]]
      | piece :: rest => (c :: piece) :: rest) [[]]

def fields (separator : Char → Bool) (s : List Char) : List (List Char) :=
  (split separator s).filter (!·.isEmpty)

def words (s : List Char) : List (List Char) := fields isBlank s

def lastWord (s : List Char) : List Char := (words s).getLast?.getD []

def cut? (c : Char) (s : List Char) : Option (List Char × List Char) :=
  match s.dropWhile (· != c) with
  | [] => none
  | _ :: after => some (s.takeWhile (· != c), after)

/-- Lines end at a line feed; nothing behind the last one is no line. -/
def lines (s : List Char) : List (List Char) :=
  let pieces := split (· == '\n') s
  if pieces.getLast? == some [] then pieces.dropLast else pieces

/-- Letters A to Z in small letters, all else as it is. -/
def lower (s : List Char) : List Char := s.map Char.toLower

def upper (s : List Char) : List Char := s.map Char.toUpper

def sameWord (s t : List Char) : Bool := lower s == lower t

def dropBeginning? : List Char → List Char → Option (List Char)
  | [], s => some s
  | _ :: _, [] => none
  | c :: t, d :: s => if c = d then dropBeginning? t s else none

def behind? (t : List Char) : List Char → Option (List Char)
  | [] => dropBeginning? t []
  | c :: s => match dropBeginning? t (c :: s) with
    | some rest => some rest
    | none => behind? t s

def padLeft (width : Nat) (s : String) : String :=
  String.ofList (List.replicate (width - s.length) ' ') ++ s

end Easel.Text

namespace Easel

def lowercase (s : String) : String := String.ofList (Text.lower s.toList)

def uppercase (s : String) : String := String.ofList (Text.upper s.toList)

end Easel
