import Easel.Text.Basic

/-! Statements: what one source line says. Expressions stay text, since they are evaluated against
the variables of the moment each time the statement runs. -/

namespace Easel

inductive Kind where
  | int
  | real
  | boolean
  | array
  deriving DecidableEq, Repr

namespace Kind

def all : List Kind := [int, real, boolean, array]

def keyword : Kind → String
  | int => "int"
  | real => "real"
  | boolean => "boolean"
  | array => "array"

def ofKeyword? (word : String) : Option Kind :=
  all.find? (·.keyword == lowercase word)

end Kind

inductive Block where
  | ifBlock
  | elseBlock
  | whileBlock
  | forBlock
  | methodBlock
  deriving DecidableEq, Repr

namespace Block

def all : List Block := [ifBlock, elseBlock, whileBlock, forBlock, methodBlock]

def keyword : Block → String
  | ifBlock => "if"
  | elseBlock => "else"
  | whileBlock => "while"
  | forBlock => "for"
  | methodBlock => "method"

/-- Whether `end` with the keyword of the first block may close the second one. -/
def closes : Block → Block → Bool
  | ifBlock, opened => opened == ifBlock || opened == elseBlock
  | block, opened => block == opened

end Block

inductive Drawing where
  | moveTo
  | drawTo
  | circle
  | rect
  | tri
  | pen
  | clear
  deriving DecidableEq, Repr

namespace Drawing

def all : List Drawing := [moveTo, drawTo, circle, rect, tri, pen, clear]

def keyword : Drawing → String
  | moveTo => "moveto"
  | drawTo => "drawto"
  | circle => "circle"
  | rect => "rect"
  | tri => "tri"
  | pen => "pen"
  | clear => "clear"

def arity : Drawing → Nat × Nat
  | moveTo | drawTo | tri => (2, 2)
  | circle => (1, 2)
  | rect => (2, 3)
  | pen => (3, 3)
  | clear => (0, 0)

end Drawing

/-- Declares `name` with a value and `extra` without one, all of one kind. -/
structure Declaration where
  kind : Kind
  name : String
  expression : String
  extra : List String
  deriving DecidableEq, Repr

structure ArrayDeclaration where
  kind : Kind
  name : String
  rows : String
  columns : Option String
  deriving DecidableEq, Repr

structure Poke where
  array : String
  row : String
  column : String
  value : String
  deriving DecidableEq, Repr

structure Peek where
  target : String
  array : String
  row : String
  column : String
  deriving DecidableEq, Repr

structure ForHeader where
  counter : String
  start : String
  limit : String
  step : String
  deriving DecidableEq, Repr

/-- A parameter keeps the word written for its kind; whether that is a kind is asked at a call. -/
structure Parameter where
  kind : String
  name : String
  deriving DecidableEq, Repr

structure Signature where
  name : String
  returns : Kind
  parameters : List Parameter
  deriving DecidableEq, Repr

inductive Statement where
  | declare (declaration : Declaration)
  | array (declaration : ArrayDeclaration)
  | poke (cell : Poke)
  | peek (cell : Peek)
  | ifThen (condition : String)
  | otherwise
  | whileDo (condition : String)
  | forNext (header : ForHeader)
  | endOf (block : Block)
  | method (signature : Signature)
  | call (name : String) (arguments : List String)
  | draw (drawing : Drawing) (arguments : List String)
  | write (expression : String)
  deriving DecidableEq, Repr

namespace Statement

def opens? : Statement → Option Block
  | ifThen _ => some .ifBlock
  | otherwise => some .elseBlock
  | whileDo _ => some .whileBlock
  | forNext _ => some .forBlock
  | method _ => some .methodBlock
  | _ => none

def text : Statement → String
  | declare d =>
    s!"{d.kind.keyword} {d.name} = {d.expression}" ++ String.join (d.extra.map (", " ++ ·))
  | array a =>
    let columns := match a.columns with
      | some columns => " " ++ columns
      | none => ""
    s!"array {a.kind.keyword} {a.name} {a.rows}{columns}"
  | poke p => s!"poke {p.array} {p.row} {p.column} = {p.value}"
  | peek p => s!"peek {p.target} = {p.array} {p.row} {p.column}"
  | ifThen condition => s!"if {condition}"
  | otherwise => "else"
  | whileDo condition => s!"while {condition}"
  | forNext f => s!"for {f.counter} = {f.start} to {f.limit} step {f.step}"
  | endOf block => s!"end {block.keyword}"
  | method m =>
    let parameters := m.parameters.map fun p => s!"{p.kind} {p.name}"
    let list := if parameters.isEmpty then "" else " " ++ ", ".intercalate parameters
    s!"method {m.returns.keyword} {m.name}{list}"
  | call name arguments => s!"call {name}" ++ String.join (arguments.map (" " ++ ·))
  | draw drawing arguments =>
    let list := if arguments.isEmpty then "" else " " ++ ",".intercalate arguments
    s!"{drawing.keyword}{list}"
  | write expression => s!"write {expression}"

end Statement

end Easel
