import Easel.Terminal.Folder
import Easel.Terminal.Prompt

/-! The command: runs a script, or opens the prompt. -/

namespace Easel.Terminal

def loadFault (path : String) : IO.Error → Error
  | .noFileOrDirectory .. => .fileNotFound path
  | fault => .internal (toString fault)

def saveFault : IO.Error → Error
  | .noFileOrDirectory .. => .internal FileFault.notFound.message
  | fault => .internal (toString fault)

instance : Console IO where
  write line := do
    IO.println line
    (← IO.getStdout).flush
  readLine := do
    IO.print "> "
    (← IO.getStdout).flush
    let line ← (← IO.getStdin).getLine
    return if line.isEmpty then .finished else .line line
  remember _ := return
  takeBreak := return false
  load path := do
    try
      match String.fromUTF8? (← IO.FS.readBinFile path) with
      | some text => return .ok text
      | none => return .error (.internal FileFault.notText.message)
    catch fault => return .error (loadFault path fault)
  save path text := do
    try
      IO.FS.writeFile path text
      return .ok ()
    catch fault => return .error (saveFault fault)

/-- Takes turns at the prompt as long as there are any. -/
partial def converse (cycles : Nat) (prompt : Prompt) : IO Unit := do
  if let some prompt ← prompt.turn cycles then converse cycles prompt

end Easel.Terminal

open Easel Terminal

def main (arguments : List String) : IO UInt32 := do
  match Options.read arguments with
  | .error .displayHelp =>
    IO.println "Usage: boose [OPTIONS] [FILE]"
    return 0
  | .error .displayVersion =>
    IO.println "boose"
    return 0
  | .error _ =>
    IO.eprintln "Usage: boose [OPTIONS] [FILE]"
    return 2
  | .ok options =>
    match options.file with
    | none =>
      IO.println Prompt.greeting
      converse options.cycles .empty
      return 0
    | some file =>
      match ← runScript options file (Nat.pow 2 60) with
      | .ok () => return 0
      | .error fault =>
        IO.eprintln (bold fault.text)
        return 1
