import Easel.Decimal.Reading

/-! The command line: `[FILE] [--check] [--cycles N]`. -/

namespace Easel.Terminal

structure Options where
  file : Option String
  check : Bool
  cycles : Nat
  deriving DecidableEq, Repr

/-- Why arguments are not run with. Asking for help or the version counts as such. -/
inductive Rejection where
  | displayHelp
  | displayVersion
  | unknownArgument
  | invalidValue
  | valueValidation
  | argumentConflict
  | tooManyValues
  deriving DecidableEq, Repr

namespace Options

/-- An argument that is accepted but not yet checked: a file name, or the cycles option with its
value once that is there. -/
inductive Pending where
  | file (name : String)
  | cycles (value : Option String)
  deriving DecidableEq, Repr

/-- Arguments read so far. After `--` every argument is a file name. -/
structure Reader where
  file : Option String := none
  check : Bool := false
  cycles : Option Nat := none
  pending : Option Pending := none
  namesOnly : Bool := false
  deriving DecidableEq, Repr

namespace Reader

def setCycles (reader : Reader) (value : String) : Except Rejection Reader :=
  if reader.cycles.isSome then .error .argumentConflict
  else match Decimal.count? value.toList with
    | some n => .ok { reader with cycles := n }
    | none => .error .valueValidation

def settle (reader : Reader) : Except Rejection Reader :=
  let settled := { reader with pending := none }
  match reader.pending with
  | none => .ok settled
  | some (.file name) =>
    if name.isEmpty then .error .invalidValue else .ok { settled with file := name }
  | some (.cycles none) => .error .invalidValue
  | some (.cycles (some value)) => settled.setCycles value

def hasFile (reader : Reader) : Bool :=
  reader.file.isSome || match reader.pending with
    | some (.file _) => true
    | _ => false

def fileName (reader : Reader) (name : String) : Except Rejection Reader :=
  if reader.hasFile then .error .unknownArgument
  else do return { ← reader.settle with pending := some (.file name) }

def longOption (reader : Reader) (name : List Char) (value : Option String) :
    Except Rejection Reader :=
  match String.ofList name, value with
  | "cycles", some value => do (← reader.settle).setCycles value
  | "cycles", none => do return { ← reader.settle with pending := some (.cycles none) }
  | "check", none => do
    let reader ← reader.settle
    if reader.check then throw .argumentConflict
    return { reader with check := true }
  | "help", none => do let _ ← reader.settle; throw .displayHelp
  | "version", none => do let _ ← reader.settle; throw .displayVersion
  | "check", some _ | "help", some _ | "version", some _ => .error .tooManyValues
  | _, _ => .error .unknownArgument

def shortOption (reader : Reader) (letter : Char) : Except Rejection Reader :=
  match letter with
  | 'h' => do let _ ← reader.settle; throw .displayHelp
  | 'V' => do let _ ← reader.settle; throw .displayVersion
  | _ => .error .unknownArgument

def argument (reader : Reader) (argument : String) : Except Rejection Reader :=
  if reader.namesOnly then reader.fileName argument
  else match argument.toList with
    | ['-', '-'] => .ok { reader with namesOnly := true }
    | '-' :: '-' :: option => match Text.cut? '=' option with
      | some (name, value) => reader.longOption name (some (String.ofList value))
      | none => reader.longOption option none
    | '-' :: letter :: _ => reader.shortOption letter
    | _ => match reader.pending with
      | some (.cycles none) => .ok { reader with pending := some (.cycles (some argument)) }
      | _ => reader.fileName argument

end Reader

def defaultCycles : Nat := 5000

def read (arguments : List String) : Except Rejection Options := do
  let reader ← (← arguments.foldlM Reader.argument {}).settle
  return ⟨reader.file, reader.check, reader.cycles.getD defaultCycles⟩

end Options

end Easel.Terminal
