import Easel.Canvas
import Easel.Method
import Easel.Program

/-! Sessions: a program and everything a run of it touches. -/

namespace Easel

structure Counter where
  current : Int32
  limit : Int32
  step : Int32
  deriving DecidableEq, Repr

namespace Counter

def isRunning (counter : Counter) : Bool :=
  if 0 < counter.step then counter.current ≤ counter.limit else counter.limit ≤ counter.current

/-- The counter one step on, unless that leaves the integers. -/
def next? (counter : Counter) : Option Counter :=
  let n := counter.current.toInt + counter.step.toInt
  if Int32.minValue.toInt ≤ n && n ≤ Int32.maxValue.toInt then
    some { counter with current := Int32.ofInt n }
  else none

end Counter

/-- `pc` is the address of the next statement, `loops` holds the `for` loops under way by address,
and `strokes` is what the canvas was asked to do. -/
structure Session where
  program : Program
  pc : Nat
  vars : Variables
  methods : Methods
  frames : Stack Frame
  loops : Std.ExtTreeMap Nat Counter
  strokes : Array Stroke

inductive Event where
  | stopped
  | running
  deriving DecidableEq, Repr

namespace Session

def maxCallDepth : Nat := 4096

def empty : Session :=
  ⟨.empty, 0, .empty, .empty, .withLimit Error.callsTooDeep maxCallDepth, ∅, #[]⟩

def depth (session : Session) : Nat := session.frames.size

def takeStrokes (session : Session) : Array Stroke × Session :=
  (session.strokes, { session with strokes := #[] })

def interrupt (session : Session) : Session :=
  { session with pc := session.program.size, frames := session.frames.clear, loops := ∅ }

/-- A change to a session that may fail. What was changed before the failure stays changed. -/
abbrev Action := EStateM Error Session

def ask {α : Type} (question : Variables → Except Error α) : Action α := fun session =>
  match question session.vars with
  | .ok answer => .ok answer session
  | .error fault => .error fault session

def lookUp {α : Type} (question : Program → Except Error α) : Action α := fun session =>
  match question session.program with
  | .ok answer => .ok answer session
  | .error fault => .error fault session

/-- A change of the variables, all or nothing. -/
def change (edit : Variables → Except Error Variables) : Action Unit := fun session =>
  match edit session.vars with
  | .ok vars => .ok () { session with vars }
  | .error fault => .error fault session

def goTo (address : Nat) : Action Unit := modify fun session => { session with pc := address }

def emit (stroke : Stroke) : Action Unit :=
  modify fun session => { session with strokes := session.strokes.push stroke }

/-- Points at the first statement, with the seeds as the only variables. -/
def start : Action Unit := do
  modify fun session => { session with
    pc := 0, vars := .empty, methods := .empty, frames := session.frames.clear, loops := ∅ }
  (← get).program.seeds.toList.forM fun (name, value) => change (·.add name value .global)

/-- Takes on a program; nothing changes where the source does not compile. -/
def enter (source : String) : Action Unit := do
  match Program.compile source with
  | .ok program =>
    modify fun session => { session with program }
    start
  | .error fault => throw fault

end Session

end Easel
