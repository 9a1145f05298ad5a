import Easel.Proofs.Blocks.Tree
import Easel.Session.Step

/-! The meaning of a block tree, without addresses to jump to: a block runs as a whole, a loop keeps
its counter to itself, and a call is the run of a body.

Runs need not end, so that they are given fuel, one unit for each statement on the way to the
innermost one. Every outcome but `unfinished` is the outcome of the run itself. -/

namespace Easel

namespace Variables

def seeded (seeds : List (String × Value)) : Except Error Variables :=
  seeds.foldlM (fun vars seed => vars.add seed.1 seed.2 .global) empty

def counter (header : ForHeader) (vars : Variables) : Except Error Counter := do
  let current ← vars.int header.start
  let limit ← vars.int header.limit
  let step ← vars.int header.step
  return ⟨current, limit, if step = 0 then 1 else step⟩

def declare (declaration : Declaration) (vars : Variables) : Except Error Variables := do
  let vars ← declaration.extra.foldlM (fun vars name => vars.ensure name declaration.kind) vars
  vars.assign declaration.name (← vars.evaluate declaration.kind declaration.expression)

def addLocals (bindings : List (String × Value)) (vars : Variables) : Except Error Variables :=
  bindings.foldlM (fun vars binding => vars.add binding.1 binding.2 .local) vars

def enter (signature : Signature) (arguments : List String) (vars : Variables) :
    Except Error Variables := do
  let bindings ← vars.bindings signature arguments
  let vars ← vars.addLocals bindings
  vars.ensure signature.name signature.returns

/-- Makes the entries of some names what they were before. -/
def recover (names : List String) (before after : Variables) : Variables :=
  names.foldl (fun vars name => match before.get? name with
    | some entry => vars.restore name entry
    | none => vars.erase name) after

end Variables

structure Closure where
  method : Method
  body : Tree

abbrev Closures := Std.ExtTreeMap String Closure

def Closures.methods (closures : Closures) : Methods :=
  ⟨Std.ExtTreeMap.map (fun _ closure => closure.method) closures⟩

/-- What a run has made so far. -/
structure Scene where
  vars : Variables
  closures : Closures
  strokes : Array Stroke

inductive Outcome where
  | finished (scene : Scene)
  | failed (fault : Error) (strokes : Array Stroke)
  | unfinished

namespace Outcome

def andThen (outcome : Outcome) (next : Scene → Outcome) : Outcome :=
  match outcome with
  | finished scene => next scene
  | failed fault strokes => failed fault strokes
  | unfinished => unfinished

end Outcome

namespace Scene

def fail (scene : Scene) (line : Nat) (fault : Error) : Outcome :=
  .failed (fault.inLine line) scene.strokes

def change (scene : Scene) (edit : Variables → Except Error Variables) : Except Error Scene := do
  return { scene with vars := ← edit scene.vars }

def draw (scene : Scene) (stroke : Variables → Except Error Stroke) : Except Error Scene := do
  return { scene with strokes := scene.strokes.push (← stroke scene.vars) }

end Scene

def Simple.effect (scene : Scene) : Simple → Except Error Scene
  | declare declaration => scene.change (·.declare declaration)
  | array declaration => scene.change (·.makeArray declaration)
  | poke cell => scene.change fun vars => do
    let (index, value) ← vars.poked cell
    return vars.putCell cell.array index value
  | peek cell => scene.change (·.peek cell)
  | draw drawing arguments => scene.draw (·.stroke drawing arguments)
  | write expression => scene.draw fun vars => return .write (← vars.written expression)

namespace Tree

/-- The rounds of a loop whose counter has its value. Behind each body the counter takes a step, and
the loop is left when it can not or is past the limit. -/
def rounds (body : Scene → Outcome) (header : ForHeader) (close : Nat) :
    Nat → Counter → Scene → Outcome
  | 0, _, _ => .unfinished
  | fuel + 1, counter, scene => (body scene).andThen fun scene =>
    match counter.next?.filter (·.isRunning) with
    | none => .finished scene
    | some counter => match scene.vars.assign header.counter (.int counter.current) with
      | .error fault => scene.fail close fault
      | .ok vars => rounds body header close fuel counter { scene with vars }

/-- Runs a tree whose first command stands at an address; the address is kept by the methods that it
declares. There is room for so many calls inside each other, and `overflow` says that it is used up. -/
def run (overflow : String) : Nat → Nat → Nat → Tree → Scene → Outcome
  | 0, _, _, _, _ => .unfinished
  | _ + 1, _, _, done, scene => .finished scene
  | fuel + 1, room, start, simple line act rest, scene =>
    match act.effect scene with
    | .error fault => scene.fail line fault
    | .ok scene => run overflow fuel room (start + 1) rest scene
  | fuel + 1, room, start, call line name arguments rest, scene =>
    match scene.closures[lowercase name]? with
    | none => scene.fail line (.unknownMethod name)
    | some closure => match scene.vars.enter closure.method.signature arguments with
      | .error fault => scene.fail line fault
      | .ok vars => match room with
        | 0 => scene.fail line (.outOfMemory overflow)
        | inner + 1 =>
          (run overflow fuel inner (closure.method.address + 1) closure.body
            { scene with vars }).andThen fun after =>
              let names := closure.method.signature.parameters.map (·.name)
              run overflow fuel room (start + 1) rest
                { after with vars := Variables.recover names scene.vars after.vars }
  | fuel + 1, room, start, ifThen line condition body _ rest, scene =>
    match scene.vars.boolean condition with
    | .error fault => scene.fail line fault
    | .ok true => (run overflow fuel room (start + 1) body scene).andThen
        (run overflow fuel room (start + body.size + 2) rest)
    | .ok false => run overflow fuel room (start + body.size + 2) rest scene
  | fuel + 1, room, start, ifElse line condition body _ other _ rest, scene =>
    match scene.vars.boolean condition with
    | .error fault => scene.fail line fault
    | .ok true => (run overflow fuel room (start + 1) body scene).andThen
        (run overflow fuel room (start + body.size + other.size + 3) rest)
    | .ok false => (run overflow fuel room (start + body.size + 2) other scene).andThen
        (run overflow fuel room (start + body.size + other.size + 3) rest)
  | fuel + 1, room, start, whileDo line condition body close rest, scene =>
    match scene.vars.boolean condition with
    | .error fault => scene.fail line fault
    | .ok true => (run overflow fuel room (start + 1) body scene).andThen
        (run overflow fuel room start (whileDo line condition body close rest))
    | .ok false => run overflow fuel room (start + body.size + 2) rest scene
  | fuel + 1, room, start, forNext line header body close rest, scene =>
    match scene.vars.counter header with
    | .error fault => scene.fail line fault
    | .ok counter =>
      if counter.isRunning then
        match scene.vars.assign header.counter (.int counter.current) with
        | .error fault => scene.fail line fault
        | .ok vars =>
          (rounds (run overflow fuel room (start + 1) body) header close fuel counter
            { scene with vars }).andThen (run overflow fuel room (start + body.size + 2) rest)
      else run overflow fuel room (start + body.size + 2) rest scene
  | fuel + 1, room, start, method _ signature body _ rest, scene =>
    let closure : Closure := ⟨⟨signature, start, start + body.size + 1⟩, body⟩
    run overflow fuel room (start + body.size + 2) rest
      { scene with closures := scene.closures.insert (lowercase signature.name) closure }

/-- A whole run: the seeds are the first variables. -/
def interpret (overflow : String) (fuel room : Nat) (seeds : List (String × Value))
    (strokes : Array Stroke) (tree : Tree) : Outcome :=
  match Variables.seeded seeds with
  | .error fault => .failed fault strokes
  | .ok vars => tree.run overflow fuel room 0 ⟨vars, ∅, strokes⟩

/-- No statement of the tree is a call, not even in the methods it declares. -/
def CallFree : Tree → Prop
  | done => True
  | simple _ _ rest => rest.CallFree
  | call _ _ _ _ => False
  | ifThen _ _ body _ rest | whileDo _ _ body _ rest | forNext _ _ body _ rest
  | method _ _ body _ rest => body.CallFree ∧ rest.CallFree
  | ifElse _ _ body _ other _ rest => body.CallFree ∧ other.CallFree ∧ rest.CallFree

/-- No call stands inside the body of a `for` loop. -/
def CallsOutsideLoops : Tree → Prop
  | done => True
  | simple _ _ rest | call _ _ _ rest => rest.CallsOutsideLoops
  | forNext _ _ body _ rest => body.CallFree ∧ rest.CallsOutsideLoops
  | ifThen _ _ body _ rest | whileDo _ _ body _ rest | method _ _ body _ rest =>
    body.CallsOutsideLoops ∧ rest.CallsOutsideLoops
  | ifElse _ _ body _ other _ rest =>
    body.CallsOutsideLoops ∧ other.CallsOutsideLoops ∧ rest.CallsOutsideLoops

end Tree

end Easel
