import Easel.Session.Run
import Easel.Source
import Easel.Terminal.Options
import Easel.Terminal.Screen

/-! Running a script, and the prompt at which a program is typed, listed and run. Both talk to a
console; one turn of the prompt is a batch of a running program or a line typed. -/

namespace Easel.Terminal

inductive Typed where
  | line (text : String)
  | finished
  deriving DecidableEq, Repr

/-- What a program at a terminal can do. `takeBreak` says whether a break was asked for and forgets
it. -/
class Console (m : Type → Type) where
  write : String → m Unit
  readLine : m Typed
  remember : String → m Unit
  takeBreak : m Bool
  load : String → m (Except Error String)
  save : String → String → m (Except Error Unit)

inductive Order where
  | nothing
  | run
  | check
  | list
  | clear
  | load (file : String)
  | save (file : String)
  | quit
  | keep (line : String)
  deriving DecidableEq, Repr

namespace Order

/-- The first word is the order, in any letter case. What is no order is a line of the program. -/
def read (typed : String) : Order :=
  let line := Text.trim typed.toList
  let word := line.takeWhile (!Text.isBlank ·)
  let rest := String.ofList (Text.trim (line.drop word.length))
  if word.isEmpty then nothing
  else match String.ofList (Text.lower word), rest with
    | "run", "" => run
    | "check", "" => check
    | "list", "" => list
    | "new", "" => clear
    | "quit", "" | "exit", "" => quit
    | "load", file => if file.isEmpty then keep (String.ofList line) else load file
    | "save", file => if file.isEmpty then keep (String.ofList line) else save file
    | _, _ => keep (String.ofList line)

end Order

structure Display where
  session : Session
  screen : Screen

namespace Display

def empty : Display := ⟨.empty, .empty⟩

def batch (view : Display) (cycles : Nat) : Except Error Event × Array String × Display :=
  let ⟨session, screen⟩ := view
  let finish := fun (session : Session) =>
    let (strokes, session) := session.takeStrokes
    let (lines, screen) := screen.reportAll strokes
    (lines, ⟨session, screen⟩)
  match Session.execute cycles session with
  | .ok event session => (.ok event, finish session)
  | .error fault session => (.error fault, finish session)

end Display

section

variable {m : Type → Type} [Monad m] [Console m]

open Console

/-- A batch on the console. A break asked for before it ends the run. -/
def showBatch (view : Display) (cycles : Nat) : m (Except Error Event × Display) := do
  let session ← if ← takeBreak then do
      write (m := m) "BREAK"
      pure view.session.interrupt
    else pure view.session
  let (outcome, lines, view) := { view with session }.batch cycles
  lines.toList.forM (write (m := m))
  return (outcome, view)

def showRun (cycles : Nat) : Nat → Display → m (Except Error Unit)
  | 0, _ => return .ok ()
  | batches + 1, view => do
    match ← showBatch view cycles with
    | (.ok .running, view) => showRun cycles batches view
    | (.ok .stopped, _) => return .ok ()
    | (.error fault, _) => return .error fault

/-- Compiles a script and runs it, or only says how long it is. -/
def runScript (options : Options) (file : String) (batches : Nat) : m (Except Error Unit) := do
  match ← load (m := m) file with
  | .error fault => return .error fault
  | .ok source =>
    let source := Source.prepare source
    if options.check then
      match Program.compile source with
      | .error fault => return .error fault
      | .ok program =>
        write (m := m) s!"{file}: {program.size} statements"
        return .ok ()
    else
      match Session.enter source .empty with
      | .error fault _ => return .error fault
      | .ok () session => showRun options.cycles batches ⟨session, .empty⟩

end

/-- The prompt: a session, the lines typed so far, and whether the session is running. -/
structure Prompt where
  view : Display
  listing : List String
  isRunning : Bool

namespace Prompt

def empty : Prompt := ⟨.empty, [], false⟩

def source (prompt : Prompt) : String := Source.prepare ("\n".intercalate prompt.listing)

def numbered (prompt : Prompt) : List String :=
  prompt.listing.mapIdx fun index line => Text.padLeft 4 (toString (index + 1)) ++ " " ++ line

def listingOf (source : String) : List String :=
  (Text.lines (Source.normalize source).toList).map String.ofList

/-- The text that is saved: every line with its line feed. -/
def saved (prompt : Prompt) : Except Error String :=
  if prompt.listing.isEmpty then .error .nothingToSave
  else .ok (String.join (prompt.listing.map (· ++ "\n")))

variable {m : Type → Type} [Monad m] [Console m]

open Console

def report (fault : Error) : m Unit := write (bold fault.text)

def obey (prompt : Prompt) : Order → m Prompt
  | .nothing | .quit => return prompt
  | .run => do
    match Session.enter prompt.source prompt.view.session with
    | .ok () session => return { prompt with view := { prompt.view with session }, isRunning := true }
    | .error fault session =>
      report fault
      return { prompt with view := { prompt.view with session } }
  | .check => do
    match Program.compile prompt.source with
    | .ok program => program.listing.forM (write (m := m))
    | .error fault => report fault
    return prompt
  | .list => do
    prompt.numbered.forM (write (m := m))
    return prompt
  | .clear => return { prompt with listing := [] }
  | .load file => do
    match ← load (m := m) file with
    | .ok source => return { prompt with listing := listingOf source }
    | .error fault =>
      report fault
      return prompt
  | .save file => do
    let outcome ← match prompt.saved with
      | .ok text => save (m := m) file text
      | .error fault => pure (.error fault)
    if let .error fault := outcome then report fault
    return prompt
  | .keep line => return { prompt with listing := prompt.listing ++ [line] }

/-- One turn: a batch while a program runs, and otherwise a line typed. There is no prompt after
the last turn. -/
def turn (prompt : Prompt) (cycles : Nat) : m (Option Prompt) := do
  if prompt.isRunning then
    let (outcome, view) ← showBatch prompt.view cycles
    match outcome with
    | .ok .running => return some { prompt with view }
    | .ok .stopped => return some { prompt with view, isRunning := false }
    | .error fault =>
      report fault
      return some { prompt with view, isRunning := false }
  else
    match ← readLine (m := m) with
    | .finished => return none
    | .line typed =>
      let _ ← takeBreak (m := m)
      match Order.read typed with
      | .nothing => return some prompt
      | .quit => return none
      | order =>
        let prompt ← prompt.obey order
        remember (m := m) typed
        return some prompt

def turns (cycles : Nat) : Nat → Prompt → m Unit
  | 0, _ => return
  | rest + 1, prompt => do
    match ← prompt.turn cycles with
    | some prompt => turns cycles rest prompt
    | none => return

def greeting : String := "BOOSE"

end Prompt

section

variable {m : Type → Type} [Monad m] [Console m]

def run (options : Options) (turns : Nat) : m (Except Error Unit) := do
  match options.file with
  | some file => runScript options file turns
  | none =>
    Console.write Prompt.greeting
    Prompt.turns options.cycles turns .empty
    return .ok ()

end

end Easel.Terminal
