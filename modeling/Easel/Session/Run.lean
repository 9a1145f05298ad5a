import Easel.Session.Step

/-! Running: statement after statement, in batches. -/

namespace Easel.Session

/-- Runs the next statement. A fault learns its source line and ends the run. -/
def step (command : Command) : Action Unit := fun session =>
  match perform session.pc command.statement { session with pc := session.pc + 1 } with
  | .ok () session => .ok () session
  | .error fault session =>
    .error (fault.inLine command.line) { session with pc := session.program.size }

/-- Runs at most so many statements. -/
def execute : Nat → Action Event
  | 0 => do
    let session ← get
    return if session.pc < session.program.size then .running else .stopped
  | cycles + 1 => do
    let session ← get
    match session.program.commands[session.pc]? with
    | none => return .stopped
    | some command =>
      step command
      execute cycles

def batchSize : Nat := 5000

def run : Nat → Action Event
  | 0 => return .running
  | batches + 1 => do
    match ← execute batchSize with
    | .running => run batches
    | .stopped => return .stopped

end Easel.Session
