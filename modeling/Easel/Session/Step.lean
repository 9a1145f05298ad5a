import Easel.Expression.Condition
import Easel.Expression.Text
import Easel.Session.Basic

/-! What each statement does. -/

namespace Easel

namespace Variables

def int (expression : String) (vars : Variables) : Except Error Int32 :=
  Expression.int vars expression.toList

def boolean (expression : String) (vars : Variables) : Except Error Bool :=
  Expression.boolean vars expression.toList

def evaluate (kind : Kind) (expression : String) (vars : Variables) : Except Error Value :=
  match kind with
  | .int => .int <$> Expression.int vars expression.toList
  | .real => .real <$> Expression.real vars expression.toList
  | .boolean => .boolean <$> Expression.boolean vars expression.toList
  | .array => .error .arrayInExpression

/-- A global variable with the zero of its kind, unless the name is taken. -/
def ensure (name : String) (kind : Kind) (vars : Variables) : Except Error Variables :=
  if vars.contains name then .ok vars else vars.add name (.zero kind) .global

/-- A new array under a name; the scope of what it replaces is kept. -/
def makeArray (declaration : ArrayDeclaration) (vars : Variables) : Except Error Variables := do
  let rows ← vars.int declaration.rows
  let columns ← match declaration.columns with
    | some columns => vars.int columns
    | none => pure 1
  let grid ← Grid.dimension declaration.kind rows columns
  let scope := match vars.get? declaration.name with
    | some entry => entry.scope
    | none => .global
  vars.add declaration.name (.array grid) scope

def poked (cell : Poke) (vars : Variables) : Except Error (Nat × Value) := do
  let grid ← vars.grid cell.array
  let row ← vars.int cell.row
  let column ← vars.int cell.column
  let value ← vars.evaluate grid.kind cell.value
  grid.cell row column value

def peek (cell : Peek) (vars : Variables) : Except Error Variables := do
  let row ← vars.int cell.row
  let column ← vars.int cell.column
  let value ← (← vars.grid cell.array).get row column
  vars.assign cell.target value

/-- An argument, evaluated by the rules of the parameter's kind. Booleans are passed as integers. -/
def argument (parameter : Parameter) (expression : String) (vars : Variables) :
    Except Error Value :=
  match Kind.ofKeyword? parameter.kind with
  | some .int => .int <$> Expression.int vars expression.toList
  | some .real => .real <$> Expression.real vars expression.toList
  | some .boolean => do
    return .int (if ← Expression.boolean vars expression.toList then 1 else 0)
  | _ => .error (.unsupportedParameter parameter.kind parameter.name)

def bindings (signature : Signature) (arguments : List String) (vars : Variables) :
    Except Error (List (String × Value)) :=
  if signature.parameters.length = arguments.length then
    (signature.parameters.zip arguments).mapM fun (parameter, expression) => do
      return (parameter.name, ← vars.argument parameter expression)
  else .error (.argumentCount signature.name signature.parameters.length arguments.length)

def stroke (drawing : Drawing) (arguments : List String) (vars : Variables) :
    Except Error Stroke := do
  let int := fun (i : Nat) => match arguments[i]? with
    | some expression => vars.int expression
    | none => .error .drawParameterLost
  let filled := fun (i : Nat) => match arguments[i]? with
    | some expression => vars.boolean expression
    | none => .ok false
  match drawing with
  | .moveTo => return .moveTo (← int 0) (← int 1)
  | .drawTo => return .drawTo (← int 0) (← int 1)
  | .circle => return .circle (← int 0) (← filled 1)
  | .rect => return .rect (← int 0) (← int 1) (← filled 2)
  | .tri => return .triangle (← int 0) (← int 1)
  | .pen => return .colour (← int 0) (← int 1) (← int 2)
  | .clear => return .clear

/-- What `write` shows. A boolean variable alone is shown as a truth value. -/
def written (expression : String) (vars : Variables) : Except Error String :=
  match vars.get? (String.ofList (Text.trim expression.toList)) with
  | some ⟨.boolean b, _⟩ => .ok (toString b)
  | _ => Expression.text vars expression.toList

end Variables

namespace Session

def declare (declaration : Declaration) : Action Unit := do
  declaration.extra.forM fun name => change (·.ensure name declaration.kind)
  let value ← ask (·.evaluate declaration.kind declaration.expression)
  change (·.assign declaration.name value)

/-- Everything that can fail comes first, so that the array is not held twice when it is changed. -/
def poke (cell : Poke) : Action Unit := do
  let (index, value) ← ask (·.poked cell)
  modify fun session => { session with vars := session.vars.putCell cell.array index value }

def skipBlock (address : Nat) : Action Unit := do
  goTo ((← lookUp (·.target address)) + 1)

def enterIf (address : Nat) (condition : String) : Action Unit := do
  unless ← ask (·.boolean condition) do skipBlock address

/-- Bounds are evaluated once; a step of zero counts as one. -/
def enterFor (address : Nat) (header : ForHeader) : Action Unit := do
  let current ← ask (·.int header.start)
  let limit ← ask (·.int header.limit)
  let step ← ask (·.int header.step)
  let counter : Counter := ⟨current, limit, if step = 0 then 1 else step⟩
  if counter.isRunning then
    change (·.assign header.counter (.int current))
    modify fun session => { session with loops := session.loops.insert address counter }
  else
    modify fun session => { session with loops := session.loops.erase address }
    skipBlock address

def advance (address : Nat) : Action Bool := do
  let session ← get
  let some (.forNext header) := session.program.statement? address | throw .endForWithoutFor
  let some counter := session.loops[address]? | return false
  match counter.next? with
  | none =>
    set { session with loops := session.loops.erase address }
    return false
  | some counter =>
    if counter.isRunning then
      set { session with loops := session.loops.insert address counter }
      change (·.assign header.counter (.int counter.current))
      return true
    else
      set { session with loops := session.loops.erase address }
      return false

def register (address : Nat) (signature : Signature) : Action Unit := do
  let last ← lookUp (·.target address)
  modify fun session => { session with methods := session.methods.register ⟨signature, address, last⟩ }
  goTo (last + 1)

/-- Makes the parameters local variables, and gives the entries they took the place of. -/
def bindLocals : List (String × Value) → Action (List (String × Entry))
  | [] => return []
  | (name, value) :: rest => do
    let displaced := ((← get).vars.get? name).map (name, ·)
    change (·.add name value .local)
    return displaced.toList ++ (← bindLocals rest)

/-- All arguments are evaluated before any parameter is bound. -/
def call (name : String) (arguments : List String) : Action Unit := do
  let some method := (← get).methods.get? name | throw (.unknownMethod name)
  let bindings ← ask (·.bindings method.signature arguments)
  let shadowed ← bindLocals bindings
  change (·.ensure method.signature.name method.signature.returns)
  let session ← get
  let frame : Frame := ⟨method, session.pc, bindings.map (·.1), shadowed⟩
  match session.frames.push frame with
  | .ok frames => set { session with frames, pc := method.address + 1 }
  | .error fault => throw fault

/-- The variables after a call: its locals are gone and what they displaced is back. -/
def unbindLocals (frame : Frame) (vars : Variables) : Variables :=
  let vars := frame.locals.foldl Variables.erase vars
  frame.shadowed.foldr (fun (name, entry) vars => vars.restore name entry) vars

/-- Goes back behind the call. Without a call under way the end of a body means nothing. -/
def returnFrom (address : Nat) : Action Unit := do
  let session ← get
  match session.frames.top? with
  | none => return
  | some frame =>
    if frame.method.address != address then throw (.returnOutside frame.method.signature.name)
    match session.frames.pop with
    | .ok (frame, frames) =>
      set { session with
        frames, pc := frame.returnTo, vars := unbindLocals frame session.vars }
    | .error fault => throw fault

def endBlock (address : Nat) : Block → Action Unit
  | .ifBlock | .elseBlock => return
  | .whileBlock => do goTo (← lookUp (·.opener address))
  | .forBlock => do
    let opener ← lookUp (·.opener address)
    if ← advance opener then goTo (opener + 1)
  | .methodBlock => do returnFrom (← lookUp (·.opener address))

/-- Runs the statement at an address; `pc` already points behind it. -/
def perform (address : Nat) : Statement → Action Unit
  | .declare declaration => declare declaration
  | .array declaration => change (·.makeArray declaration)
  | .poke cell => poke cell
  | .peek cell => change (·.peek cell)
  | .ifThen condition => enterIf address condition
  | .otherwise => skipBlock address
  | .whileDo condition => enterIf address condition
  | .forNext header => enterFor address header
  | .endOf block => endBlock address block
  | .method signature => register address signature
  | .call name arguments => call name arguments
  | .draw drawing arguments => do emit (← ask (·.stroke drawing arguments))
  | .write expression => do emit (.write (← ask (·.written expression)))

end Session

end Easel
