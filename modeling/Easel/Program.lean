import Easel.Line
import Easel.Pairing
import Easel.Value

/-! Compiled programs: a statement for every line that says something, blocks paired. -/

namespace Easel

structure Command where
  line : Nat
  statement : Statement
  deriving DecidableEq, Repr

/-- `seeds` are the variables that exist from the start of a run. -/
structure Program where
  commands : Array Command
  targets : Links
  openers : Links
  seeds : Array (String × Value)

namespace Program

def empty : Program := ⟨#[], ∅, ∅, #[]⟩

def size (program : Program) : Nat := program.commands.size

def isEmpty (program : Program) : Bool := program.commands.isEmpty

def statement? (program : Program) (address : Nat) : Option Statement :=
  program.commands[address]?.map (·.statement)

def line? (program : Program) (address : Nat) : Option Nat :=
  program.commands[address]?.map (·.line)

/-- What closes the block opened at an address: the `else` or `end` of an `if`, the `end` of any
other. -/
def target (program : Program) (address : Nat) : Except Error Nat :=
  match program.targets[address]? with
  | some target => .ok target
  | none => .error (Error.unlinkedBlock.inLine (program.line? address))

def opener (program : Program) (address : Nat) : Except Error Nat :=
  match program.openers[address]? with
  | some opener => .ok opener
  | none => .error (Error.unlinkedEnd.inLine (program.line? address))

def literal? (kind : Kind) (expression : String) : Option Value :=
  match kind with
  | .int => (Decimal.int32? expression.toList).map .int
  | .real => ((Decimal.real? expression.toList).filter (·.isFinite)).map .real
  | .boolean => match lowercase expression with
    | "true" => some (.boolean true)
    | "false" => some (.boolean false)
    | _ => none
  | .array => none

def seed (declaration : Declaration) : String × Value :=
  (declaration.name,
    (literal? declaration.kind declaration.expression).getD (Value.zero declaration.kind))

/-- A program of which some lines are compiled. `parameters` are the parameter names of the methods
whose bodies are open. -/
structure Draft where
  commands : Array Command
  pairing : Pairing
  parameters : List (List String)
  seeds : Array (String × Value)

namespace Draft

def empty : Draft := ⟨#[], .empty, [], #[]⟩

/-- The first declaration of a name makes a seed, unless the name is a parameter there. -/
def declare (draft : Draft) (declaration : Declaration) : Draft :=
  if draft.parameters.any (·.contains declaration.name) ||
      draft.seeds.any (·.1 == declaration.name) then draft
  else { draft with seeds := draft.seeds.push (seed declaration) }

def link (draft : Draft) (line : Nat) (statement : Statement) : Except Error Draft :=
  let address := draft.commands.size
  match statement with
  | .otherwise => return { draft with pairing := ← draft.pairing.openElse address line }
  | .endOf block => do
    let pairing ← draft.pairing.endBlock address block line
    let parameters := if block = .methodBlock then draft.parameters.tail else draft.parameters
    return { draft with pairing, parameters }
  | .declare declaration => return draft.declare declaration
  | .method signature => do
    let pairing ← draft.pairing.openBlock ⟨address, .methodBlock, line⟩
    return { draft with pairing, parameters := signature.parameters.map (·.name) :: draft.parameters }
  | _ => match statement.opens? with
    | some block =>
      return { draft with pairing := ← draft.pairing.openBlock ⟨address, block, some line⟩ }
    | none => return draft

def addLine (draft : Draft) (line : Line) : Except Error Draft :=
  if line.isBlank then return draft
  else do
    let statement ← line.statement
    let draft ← draft.link line.number statement
    return { draft with commands := draft.commands.push ⟨line.number, statement⟩ }

def finish (draft : Draft) : Except Error Program := do
  let ((targets, openers), _) ← draft.pairing.finish
  return ⟨draft.commands, targets, openers, draft.seeds⟩

end Draft

/-- A fault in any line rejects the whole source; the first one is reported. -/
def compile (source : String) : Except Error Program := do
  (← (Line.all source).foldlM Draft.addLine .empty).finish

/-- An `else` or `end` stands one level further out than what is before it. -/
def stepsOut : Statement → Bool
  | .otherwise | .endOf _ => true
  | _ => false

def listingFrom : Nat → List Command → List String
  | _, [] => []
  | depth, command :: rest =>
    let depth := if stepsOut command.statement then depth - 1 else depth
    let indent := String.ofList (List.replicate (2 * depth) ' ')
    let row := Text.padLeft 4 (toString command.line) ++ " " ++ indent ++ command.statement.text
    let inner := if command.statement.opens?.isSome then depth + 1 else depth
    row :: listingFrom inner rest

def listing (program : Program) : List String := listingFrom 0 program.commands.toList

end Program

end Easel
