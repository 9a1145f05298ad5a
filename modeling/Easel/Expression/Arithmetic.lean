import Easel.Expression.Token
import Easel.Variables

/-! Arithmetic: sums of products of signed operands, read and evaluated in one pass from left to
right, so that the first fault in the text is the one reported.

The readers call each other, each call with less fuel. Between two characters passed lie at most four
calls, so fuel for four calls a character never runs out. -/

namespace Easel.Expression

open Text

abbrev Reading (α : Type) := α × List Char

/-- A variable as a number; true is one. -/
def number (vars : Variables) (name : String) : Except Error Float := do
  match ← vars.fetch name with
  | .int n => return Float.ofInt n.toInt
  | .real x => return x
  | .boolean b => return if b then 1 else 0
  | .array _ => throw (.arrayAsNumber name)

def operandExpected (s : List Char) : Error :=
  match trimStart s with
  | c :: _ => .unexpected (String.singleton c)
  | [] => .unexpectedEnd

mutual

def sum (vars : Variables) : Nat → List Char → Except Error (Reading Float)
  | 0, _ => .error .unexpectedEnd
  | fuel + 1, s => do
    let (left, s) ← product vars fuel s
    sumFrom vars fuel left s

def sumFrom (vars : Variables) : Nat → Float → List Char → Except Error (Reading Float)
  | 0, _, _ => .error .unexpectedEnd
  | fuel + 1, left, s =>
    match Token.char? '+' s with
    | some s => do
      let (right, s) ← product vars fuel s
      sumFrom vars fuel (left + right) s
    | none => match Token.char? '-' s with
      | some s => do
        let (right, s) ← product vars fuel s
        sumFrom vars fuel (left - right) s
      | none => .ok (left, s)

def product (vars : Variables) : Nat → List Char → Except Error (Reading Float)
  | 0, _ => .error .unexpectedEnd
  | fuel + 1, s => do
    let (left, s) ← signed vars fuel s
    productFrom vars fuel left s

def productFrom (vars : Variables) : Nat → Float → List Char → Except Error (Reading Float)
  | 0, _, _ => .error .unexpectedEnd
  | fuel + 1, left, s =>
    match Token.char? '*' s with
    | some s => do
      let (right, s) ← signed vars fuel s
      productFrom vars fuel (left * right) s
    | none => match Token.char? '/' s with
      | some s => do
        let (right, s) ← signed vars fuel s
        if right == 0 then throw .divisionByZero
        productFrom vars fuel (left / right) s
      | none => .ok (left, s)

def signed (vars : Variables) : Nat → List Char → Except Error (Reading Float)
  | 0, _ => .error .unexpectedEnd
  | fuel + 1, s =>
    match Token.char? '-' s with
    | some s => do
      let (x, s) ← signed vars fuel s
      return (-x, s)
    | none => match Token.char? '+' s with
      | some s => signed vars fuel s
      | none => operand vars fuel s

def operand (vars : Variables) : Nat → List Char → Except Error (Reading Float)
  | 0, _ => .error .unexpectedEnd
  | fuel + 1, s =>
    match Token.char? '(' s with
    | some s => do
      let (x, s) ← sum vars fuel s
      match Token.char? ')' s with
      | some s => return (x, s)
      | none => throw .missingParenthesis
    | none => match Token.digits? s with
      | some (digits, s) => do return (← Token.value digits, s)
      | none => match Token.name? s with
        | some (name, s) => do return (← number vars (String.ofList name), s)
        | none => .error (operandExpected s)

end

def complete {α : Type} : Reading α → Except Error α
  | (a, s) =>
    if (trim s).isEmpty then .ok a else .error (.unexpected (String.ofList (trim s)))

def finite (x : Float) : Except Error Float :=
  if x.isFinite then .ok x else .error .overflow

def literal? (s : List Char) : Option Float :=
  if s.all fun c => Decimal.isDigit c || c == '.' then Decimal.real? s else none

/-- The arithmetic value of a text. A number that stands alone is taken as it is. -/
def real (vars : Variables) (expression : List Char) : Except Error Float :=
  let s := trim expression
  if s.isEmpty then .error .missingExpression
  else match literal? s with
    | some x => .ok x
    | none => do finite (← complete (← sum vars (4 * s.length + 4) s))

/-- The arithmetic value rounded to an integer. An integer that stands alone is taken as it is. -/
def int (vars : Variables) (expression : List Char) : Except Error Int32 :=
  match Decimal.int32? (trim expression) with
  | some n => .ok n
  | none => do roundInt (← real vars expression)

end Easel.Expression
