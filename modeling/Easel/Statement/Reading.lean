import Easel.Error
import Easel.Statement.ForHeader

/-! Reading a statement from its keyword and the text behind it. -/

namespace Easel.Statement

open Text

def name (word : List Char) : Except Error String :=
  if isName word then .ok (String.ofList word) else .error (.invalidName (String.ofList word))

def items (s : List Char) : List (List Char) := fields (fun c => isBlank c || c == ',') s

def cells (s : List Char) : List (List Char) :=
  fields (fun c => isBlank c || c == ',' || c == '(' || c == ')') s

def comma (c : Char) : Bool := c == ','

/-- `name = expression`, or names alone between commas. Of several words in front of a `=` or
between commas the last one is the name. -/
def readDeclaration (kind : Kind) (s : List Char) : Except Error Statement :=
  match cut? '=' s with
  | some (left, right) => do
    let name ← name (lastWord left)
    let expression := trim right
    if expression.isEmpty then throw (.missingExpressionFor name)
    return declare ⟨kind, name, String.ofList expression, []⟩
  | none => do
    let names ← (((split comma s).map lastWord).filter (!·.isEmpty)).mapM name
    match names with
    | [] => throw (.requiresName kind.keyword)
    | first :: extra => return declare ⟨kind, first, if kind = .boolean then "false" else "0", extra⟩

def readArray (s : List Char) : Except Error Statement :=
  let (kind, rest) := match cells s with
    | [] => (Kind.int, [])
    | word :: rest => match Kind.ofKeyword? (String.ofList word) with
      | some .int => (Kind.int, rest)
      | some .real => (Kind.real, rest)
      | _ => (Kind.int, word :: rest)
  match rest with
  | [] | [_] => throw .arrayNeedsNameAndSize
  | [word, rows] => return array ⟨kind, ← name word, String.ofList rows, none⟩
  | [word, rows, columns] =>
    return array ⟨kind, ← name word, String.ofList rows, some (String.ofList columns)⟩
  | _ => throw .tooManyDimensions

def cell? : List (List Char) → Option (List Char × String × String)
  | [word, row] => some (word, String.ofList row, "0")
  | [word, row, column] => some (word, String.ofList row, String.ofList column)
  | _ => none

def readPoke (s : List Char) : Except Error Statement := do
  let (words, value) ← match cut? '=' s with
    | some (left, right) =>
      if (trim right).isEmpty then throw .pokeSyntax else pure (cells left, trim right)
    | none => match (cells s).getLast? with
      | some value => pure ((cells s).dropLast, value)
      | none => throw .pokeSyntax
  let some (word, row, column) := cell? words | throw .pokeSyntax
  return poke ⟨← name word, row, column, String.ofList value⟩

/-- Words, with every `=` a word of its own and the word `peek` left out. -/
def peekWords (s : List Char) : List (List Char) :=
  (cells (s.flatMap fun c => if c == '=' then [' ', '=', ' '] else [c])).filter
    (!sameWord · "peek".toList)

def readPeek (s : List Char) : Except Error Statement := do
  let words := peekWords s
  let (target, rest) ← match words.takeWhile (· != ['=']), words.dropWhile (· != ['=']) with
    | [], _ => throw .peekSyntax
    | target :: rest, [] => pure (target, rest)
    | front@(_ :: _), _ :: rest => pure (front.getLast?.getD [], rest)
  let some (word, row, column) := cell? rest | throw .peekSyntax
  return peek ⟨← name target, ← name word, row, column⟩

def readCondition (word : String) (s : List Char) : Except Error String :=
  if s.isEmpty then .error (.requiresCondition word) else .ok (String.ofList s)

def readElse (s : List Char) : Except Error Statement :=
  if s.isEmpty then .ok otherwise else .error .textAfterElse

/-- `variable, start, limit, step` between commas, the step being `1` where it is missing; with
fewer than three parts the keyword form. -/
def readFor (s : List Char) : Except Error Statement := do
  if s.isEmpty then throw .forRequiresParameters
  match ((split comma s).map trim).filter (!·.isEmpty) with
  | [] | [_] | [_, _] => match ForHeader.ofWords? s with
    | some header => return forNext header
    | none => throw (.invalidFor (String.ofList s))
  | [counter, start, limit] =>
    return forNext ⟨← name (lastWord counter), String.ofList start, String.ofList limit, "1"⟩
  | [counter, start, limit, step] =>
    let counter ← name (lastWord counter)
    return forNext ⟨counter, String.ofList start, String.ofList limit, String.ofList step⟩
  | _ => throw .tooManyForParameters

def readEnd (s : List Char) : Except Error Statement :=
  match [Block.ifBlock, .whileBlock, .forBlock, .methodBlock].find?
      (sameWord ·.keyword.toList s) with
  | some block => .ok (endOf block)
  | none => .error .endRequiresBlock

def behindWord (s : List Char) : List Char := (trimStart s).dropWhile (!isBlank ·)

def readParameter (earlier : List Parameter) (s : List Char) : Except Error Parameter :=
  match words s with
  | [kind, word] => do
    let name ← name word
    if earlier.any (·.name == name) then throw (.duplicateParameter name)
    return ⟨String.ofList kind, name⟩
  | _ => throw (.invalidParameter (String.ofList s))

def readParameters (s : List Char) : Except Error (List Parameter) :=
  (((split comma s).map trim).filter (!·.isEmpty)).foldlM
    (fun earlier part => do return earlier ++ [← readParameter earlier part]) []

def readMethod (s : List Char) : Except Error Statement :=
  match words s with
  | returns :: word :: _ => do
    let kind ← match Kind.ofKeyword? (String.ofList returns) with
      | none | some .array => throw (.invalidReturnKind (String.ofList returns))
      | some kind => pure kind
    let name ← name word
    return method ⟨name, kind, ← readParameters (behindWord (behindWord s))⟩
  | _ => throw .methodRequiresName

def readCall (s : List Char) : Except Error Statement :=
  match items s with
  | [] => throw .callRequiresName
  | word :: arguments => return call (← name word) (arguments.map String.ofList)

def readDrawing (drawing : Drawing) (s : List Char) : Except Error Statement := do
  let arguments := if s.isEmpty then [] else (split comma s).map trim
  if arguments.any (·.isEmpty) then throw (.missingDrawParameter drawing.keyword)
  let (least, most) := drawing.arity
  if arguments.length < least || most < arguments.length then
    let expected := if least = most then toString least else s!"{least} TO {most}"
    throw (.drawParameterCount drawing.keyword expected)
  return draw drawing (arguments.map String.ofList)

def readWrite (s : List Char) : Except Error Statement :=
  if s.isEmpty then .error .writeRequiresExpression else .ok (write (String.ofList s))

def commands : List (String × (List Char → Except Error Statement)) := [
  ("int", readDeclaration .int),
  ("real", readDeclaration .real),
  ("boolean", readDeclaration .boolean),
  ("array", readArray),
  ("poke", readPoke),
  ("peek", readPeek),
  ("if", fun s => ifThen <$> readCondition "IF" s),
  ("else", readElse),
  ("while", fun s => whileDo <$> readCondition "WHILE" s),
  ("for", readFor),
  ("end", readEnd),
  ("method", readMethod),
  ("call", readCall),
  ("moveto", readDrawing .moveTo),
  ("drawto", readDrawing .drawTo),
  ("circle", readDrawing .circle),
  ("rect", readDrawing .rect),
  ("tri", readDrawing .tri),
  ("pen", readDrawing .pen),
  ("pencolour", readDrawing .pen),
  ("clear", readDrawing .clear),
  ("write", readWrite)]

def isCommand (word : String) : Bool := (commands.lookup (lowercase word)).isSome

def read (keyword parameters : String) : Except Error Statement :=
  match commands.lookup (lowercase keyword) with
  | some reader => reader parameters.toList
  | none =>
    if keyword.isEmpty then .error .expectedCommand
    else .error (.unknownCommand (lowercase keyword))

end Easel.Statement
