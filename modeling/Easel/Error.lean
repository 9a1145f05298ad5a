/-! Errors: a code, the source line if it is known, and a message. The wording of every message
stands here. -/

namespace Easel

inductive ErrorCode where
  | compileError
  | syntaxError
  | unknownIdentifier
  | typeMismatch
  | indexOutOfRange
  | argumentCountMismatch
  | unsupportedParameterKind
  | divisionByZero
  | overflow
  | callStackUnderflow
  | outOfMemory
  | internalError
  deriving DecidableEq, Repr

namespace ErrorCode

def all : List ErrorCode :=
  [compileError, syntaxError, unknownIdentifier, typeMismatch, indexOutOfRange,
    argumentCountMismatch, unsupportedParameterKind, divisionByZero, overflow,
    callStackUnderflow, outOfMemory, internalError]

def number : ErrorCode → Nat
  | compileError => 1
  | syntaxError => 2
  | unknownIdentifier => 3
  | typeMismatch => 4
  | indexOutOfRange => 5
  | argumentCountMismatch => 6
  | unsupportedParameterKind => 7
  | divisionByZero => 8
  | overflow => 9
  | callStackUnderflow => 10
  | outOfMemory => 11
  | internalError => 51

def text : ErrorCode → String
  | compileError => "COMPILE ERROR"
  | syntaxError => "SYNTAX ERROR"
  | unknownIdentifier => "UNKNOWN IDENTIFIER"
  | typeMismatch => "TYPE MISMATCH"
  | indexOutOfRange => "INDEX OUT OF RANGE"
  | argumentCountMismatch => "ARGUMENT COUNT MISMATCH"
  | unsupportedParameterKind => "UNSUPPORTED PARAMETER KIND"
  | divisionByZero => "DIVISION BY ZERO"
  | overflow => "OVERFLOW"
  | callStackUnderflow => "CALL STACK UNDERFLOW"
  | outOfMemory => "OUT OF MEMORY"
  | internalError => "INTERNAL ERROR"

end ErrorCode

structure Error where
  code : ErrorCode
  line : Option Nat := none
  message : String := ""
  deriving DecidableEq, Repr

namespace Error

/-- A line is attached only where none is known yet. -/
def inLine (line : Option Nat) (e : Error) : Error :=
  { e with line := e.line <|> line }

def text (e : Error) : String :=
  let place := match e.line with
    | some n => " IN " ++ toString n
    | none => ""
  let detail := if e.message.isEmpty then "" else "; " ++ e.message
  e.code.text ++ place ++ detail

def debugText (e : Error) : String := "Error \x7b " ++ e.text ++ " \x7d"

/-! ### Compiling -/

def compile (message : String) : Error := ⟨.compileError, none, message⟩

def expectedCommand : Error := compile "EXPECTED COMMAND"

def unknownCommand (word : String) : Error := compile s!"UNKNOWN COMMAND '{word}'"

def invalidName (name : String) : Error := compile s!"INVALID NAME '{name}'"

def requiresName (kind : String) : Error := compile s!"{kind} REQUIRES A VARIABLE NAME"

def missingExpressionFor (name : String) : Error := compile s!"MISSING EXPRESSION FOR {name}"

def arrayNeedsNameAndSize : Error := compile "ARRAY DECLARATION NEEDS A NAME AND SIZE"

def tooManyDimensions : Error := compile "ARRAYS HAVE AT MOST TWO DIMENSIONS"

def pokeSyntax : Error := compile "POKE SYNTAX: poke array row [col] = value"

def peekSyntax : Error := compile "PEEK SYNTAX: peek target = array row [col]"

def requiresCondition (word : String) : Error := compile s!"{word} REQUIRES A CONDITION"

def textAfterElse : Error := compile "UNEXPECTED TEXT AFTER ELSE"

def forRequiresParameters : Error := compile "FOR REQUIRES PARAMETERS"

def tooManyForParameters : Error := compile "FOR TAKES AT MOST FOUR PARAMETERS"

def invalidFor (parameters : String) : Error := compile s!"INVALID FOR SYNTAX '{parameters}'"

def endRequiresBlock : Error := compile "END REQUIRES if, while, for OR method"

def methodRequiresName : Error := compile "METHOD REQUIRES A RETURN TYPE AND NAME"

def invalidReturnKind (word : String) : Error := compile s!"INVALID RETURN TYPE '{word}'"

def invalidParameter (text : String) : Error :=
  compile s!"INVALID PARAMETER '{text}', EXPECTED <type> <name>"

def duplicateParameter (name : String) : Error := compile s!"DUPLICATE PARAMETER '{name}'"

def callRequiresName : Error := compile "CALL REQUIRES A METHOD NAME"

def missingDrawParameter (word : String) : Error := compile s!"MISSING PARAMETER FOR {word}"

def drawParameterCount (word expected : String) : Error :=
  compile s!"{word} EXPECTS {expected} PARAMETERS"

def writeRequiresExpression : Error := compile "WRITE REQUIRES AN EXPRESSION"

def elseWithoutIf : Error := compile "ELSE WITHOUT IF"

def endWithout (block : String) : Error := compile s!"END {block} WITHOUT {block}"

def endCanNotClose (block opened : String) (line : Option Nat) : Error :=
  let place := match line with
    | some n => " OPENED IN " ++ toString n
    | none => ""
  compile s!"END {block} CAN NOT CLOSE {opened}{place}"

def withoutEnd (block : String) : Error := compile s!"{block} WITHOUT END"

/-! ### Evaluating -/

def syntaxIn (message : String) : Error := ⟨.syntaxError, none, message⟩

def missingExpression : Error := syntaxIn "MISSING EXPRESSION"

def missingCondition : Error := syntaxIn "MISSING CONDITION"

def missingParenthesis : Error := syntaxIn "MISSING )"

def unexpected (text : String) : Error := syntaxIn s!"UNEXPECTED '{text}'"

def unexpectedEnd : Error := syntaxIn "UNEXPECTED END OF EXPRESSION"

def invalidNumber (text : String) : Error := syntaxIn s!"INVALID NUMBER {text}"

def unknown (name : String) : Error := ⟨.unknownIdentifier, none, name⟩

def unknownMethod (name : String) : Error := ⟨.unknownIdentifier, none, s!"UNKNOWN METHOD {name}"⟩

def mismatch (message : String) : Error := ⟨.typeMismatch, none, message⟩

def arrayAsNumber (name : String) : Error := mismatch s!"ARRAY {name} USED AS A NUMBER"

def arrayInExpression : Error := mismatch "ARRAY IN EXPRESSION"

def assignToArray (kind : String) : Error := mismatch s!"CAN NOT ASSIGN {kind} TO AN ARRAY"

def assignArrayTo (kind : String) : Error := mismatch s!"CAN NOT ASSIGN AN ARRAY TO {kind}"

def notAnArray (name : String) : Error := mismatch s!"{name} IS NOT AN ARRAY"

def divisionByZero : Error := ⟨.divisionByZero, none, ""⟩

def overflow : Error := ⟨.overflow, none, ""⟩

def indexOutOfRange (axis : String) (index : Int) (size : Nat) : Error :=
  let last := (size : Int) - 1
  ⟨.indexOutOfRange, none, s!"{axis} INDEX {index} OUT OF RANGE (0..{last})"⟩

/-! ### Running -/

def argumentCount (name : String) (expected given : Nat) : Error :=
  ⟨.argumentCountMismatch, none, s!"{name} EXPECTS {expected} ARGUMENTS, GOT {given}"⟩

def unsupportedParameter (kind name : String) : Error :=
  ⟨.unsupportedParameterKind, none, s!"{kind} {name}"⟩

def returnOutside (name : String) : Error :=
  ⟨.callStackUnderflow, none, s!"RETURN FROM {name} OUTSIDE ITS BODY"⟩

def outOfMemory (message : String) : Error := ⟨.outOfMemory, none, message⟩

def tooManyVariables : Error := outOfMemory "TOO MANY VARIABLES"

def arrayTooLarge (rows columns : Nat) : Error :=
  outOfMemory s!"ARRAY OF {rows} BY {columns} IS TOO LARGE"

def blocksTooDeep : String := "BLOCKS NESTED TOO DEEPLY"

def callsTooDeep : String := "CALL STACK OVERFLOW"

/-! ### States that no program reaches, and the file system -/

def internal (message : String) : Error := ⟨.internalError, none, message⟩

def stackUnderflow : Error := internal "STACK UNDERFLOW"

def unlinkedBlock : Error := internal "UNLINKED BLOCK"

def unlinkedEnd : Error := internal "UNLINKED END"

def endForWithoutFor : Error := internal "END FOR WITHOUT FOR"

def arrayCellKind : Error := internal "ARRAY CELL KIND"

def drawParameterLost : Error := internal "MISSING DRAW PARAMETER"

def fileNotFound (name : String) : Error := internal s!"FILE NOT FOUND {name}"

def nothingToSave : Error := internal "NOTHING TO SAVE"

end Error

end Easel
