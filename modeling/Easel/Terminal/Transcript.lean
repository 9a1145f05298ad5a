import Easel.Terminal.Folder
import Easel.Terminal.Prompt

/-! A console on record: what will be typed is known, and what is written is kept. -/

namespace Easel.Terminal

/-- `typed` holds the lines still to come, `none` being a signal that ends the typing. A break is
asked for right after as many writes as `breakAfter` says. -/
structure Transcript where
  typed : List (Option String)
  folder : Folder
  written : Array String
  history : Array String
  breakAsked : Bool
  breakAfter : Option Nat

namespace Transcript

def write (transcript : Transcript) (line : String) : Transcript :=
  let written := transcript.written.push (line ++ "\n")
  { transcript with
    written, breakAsked := transcript.breakAsked || transcript.breakAfter == some written.size }

def readLine (transcript : Transcript) : Typed × Transcript :=
  match transcript.typed with
  | [] => (.finished, transcript)
  | none :: typed => (.finished, { transcript with typed })
  | some line :: typed => (.line line, { transcript with typed })

def load (transcript : Transcript) (path : String) : Except Error String :=
  match transcript.folder.load path with
  | .ok text => .ok text
  | .error .notFound => .error (.fileNotFound path)
  | .error fault => .error (.internal fault.message)

def save (transcript : Transcript) (path text : String) : Except Error Unit × Transcript :=
  match transcript.folder.save path text with
  | .ok folder => (.ok (), { transcript with folder })
  | .error fault => (.error (.internal fault.message), transcript)

instance : Console (StateM Transcript) where
  write line := modify (·.write line)
  readLine := modifyGet readLine
  remember line := modify fun t => { t with history := t.history.push line }
  takeBreak := modifyGet fun t => (t.breakAsked, { t with breakAsked := false })
  load path := do return (← get).load path
  save path text := modifyGet (·.save path text)

end Transcript

end Easel.Terminal
