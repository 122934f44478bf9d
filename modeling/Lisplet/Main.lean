import Lisplet.Launch
import Lisplet.Prompt

/-! # Command line

Without an argument, a prompt that reads lines until the input ends.  With one argument,
that file is run and the value of its last expression is written. -/

namespace Lisplet

/-- Writes what was printed since the machine had `seen` lines. -/
def writePrinted (m : Machine Unit) (seen : Nat) : IO Unit :=
  (m.printed.toList.drop seen).forM fun line => IO.println line

/-- Answers lines until the input ends. -/
partial def promptLoop (p : Prompt Unit) : IO Unit := do
  IO.print Prompt.mark
  (← IO.getStdout).flush
  let line ← (← IO.getStdin).getLine
  if line.isEmpty then return
  let line := if line.back = '\n' then (line.dropEnd 1).toString else line
  let seen := p.session.machine.printed.size
  let (answer, p) := p.enter line
  writePrinted p.session.machine seen
  answer.forM fun text => IO.println text
  promptLoop p

/-- Why the system refused to read a file. -/
def fileError : IO.Error → FileError
  | .noFileOrDirectory _ _ _ => .missing
  | .inappropriateType _ 21 _ => .isDirectory
  | e => .other (toString e)

/-- The bytes of a file. -/
def readBytes (path : String) : IO (Except FileError ByteArray) :=
  try
    let stored ← IO.FS.readBinFile path
    return SourceFile.bytes path (some stored)
  catch e =>
    match SourceFile.bytes path none with
    | .error .missing => return .error (fileError e)
    | settled => return settled

/-- Writes why a launch failed. -/
def refuse (e : LaunchError) : IO UInt32 := do
  IO.eprintln e.message
  return 1

/-- Runs the command line. -/
def runCommand (command : Command) : IO UInt32 := do
  match Session.start { : Options Unit } { context := () } with
  | .error cause => refuse (.failed ("Error: " ++ (Error.config cause).message {}))
  | .ok session =>
    match command with
    | .prompt => do promptLoop ⟨session, []⟩; return 0
    | .file path => do
      let (output, outcome, _) := Launch.runFile session (← readBytes path)
      IO.print output
      match outcome with
      | .ok () => return 0
      | .error e => refuse e
    | .unclear program => refuse (.usage program)

end Lisplet

def main (args : List String) : IO UInt32 :=
  Lisplet.runCommand (Lisplet.Command.ofWords ("lisplet" :: args))
