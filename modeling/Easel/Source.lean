import Easel.Line
import Std.Data.ExtTreeMap

/-! Preparing source text: line breaks are made alike, and an assignment that names only its variable
gets the kind the variable is declared with, so that it reads as a declaration. -/

namespace Easel.Source

open Text

/-- Line feeds for every break, be it a carriage return, a line feed or the two together. -/
def unifyBreaks (s : List Char) : List Char :=
  (s.foldr (fun c (rest, feed) =>
    if c == '\r' then (if feed then rest else '\n' :: rest, false)
    else (c :: rest, c == '\n')) ([], false)).1

def byteOrderMark : Char := '\ufeff'

/-- Breaks made alike, byte order marks in front dropped, and blanks around the text dropped. -/
def normalize (source : String) : String :=
  String.ofList (trim ((unifyBreaks source.toList).dropWhile (· == byteOrderMark)))

/-- Kinds by the name declared with them; a later declaration wins. -/
abbrev Kinds := Std.ExtTreeMap String Kind

namespace Kinds

/-- The first name behind a kind word, which may be written twice. -/
def ofDeclaration (keyword : String) (kind : Kind) (parameters : List Char) (kinds : Kinds) : Kinds :=
  match (fields (fun c => isBlank c || c == '=' || c == ',') parameters).find?
      (!sameWord · keyword.toList) with
  | some name => kinds.insert (String.ofList name) kind
  | none => kinds

def ofParameter (kinds : Kinds) (s : List Char) : Kinds :=
  match words s with
  | [word, name] => match Kind.ofKeyword? (String.ofList word) with
    | some kind => kinds.insert (String.ofList name) kind
    | none => kinds
  | _ => kinds

def ofMethod (parameters : List Char) (kinds : Kinds) : Kinds :=
  match words parameters with
  | returns :: name :: _ =>
    let kinds := match Kind.ofKeyword? (String.ofList returns) with
      | some kind => kinds.insert (String.ofList name) kind
      | none => kinds
    match behind? name parameters with
    | some rest => (split (· == ',') rest).foldl ofParameter kinds
    | none => kinds
  | _ => kinds

def ofLine (kinds : Kinds) (line : Line) : Kinds :=
  match Kind.ofKeyword? line.keyword with
  | some .array => kinds
  | some kind => ofDeclaration line.keyword kind line.parameters.toList kinds
  | none =>
    if sameWord line.keyword.toList "method".toList then ofMethod line.parameters.toList kinds
    else kinds

def ofLines (lines : List Line) : Kinds := lines.foldl ofLine ∅

end Kinds

/-- The variable that a line assigns to without a kind: a name before a single `=`. -/
def assigned? (line : Line) : Option String :=
  if line.isBlank || Statement.isCommand line.keyword then none
  else match cut? '=' line.text.toList with
    | some (left, right) =>
      if right.head? != some '=' && isName (trim left) then some (String.ofList (trim left))
      else none
    | none => none

def annotateLine (kinds : Kinds) (line : Line) : String :=
  match (assigned? line).bind (kinds[·]?) with
  | some kind => s!"{kind.keyword} {line.text}"
  | none => line.text

def annotate (source : String) : String :=
  let lines := Line.all source
  "\n".intercalate (lines.map (annotateLine (Kinds.ofLines lines)))

def prepare (source : String) : String := annotate (normalize source)

end Easel.Source
