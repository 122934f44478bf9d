import Lisplet.Session
import Lisplet.SourceFile

/-! # Running a file

What the command line asks for, and what running a file writes and answers. -/

namespace Lisplet

/-- Why a launch failed. -/
inductive LaunchError where
  /-- The file cannot be read. -/
  | unreadableFile (cause : FileError)
  /-- The program in the file failed. -/
  | failed (report : String)
  /-- The command line is not understood. -/
  | usage (program : String)
deriving DecidableEq, Repr

/-- Why the launch failed, in words. -/
def LaunchError.message : LaunchError → String
  | unreadableFile cause => cause.message
  | failed report => report
  | usage program => "usage: " ++ program ++ " [FILE]"

/-- What a command line asks for. -/
inductive Command where
  | prompt
  | file (path : String)
  | unclear (program : String)
deriving DecidableEq, Repr

/-- The command of a command line, whose first word is the name of the program. -/
def Command.ofWords : List String → Command
  | [_] => prompt
  | [_, path] => file path
  | words => unclear (words.head?.getD "repl")

namespace Launch

variable {κ : Type}

/-- Everything that was printed, a line each. -/
def printedText (m : Machine κ) : String :=
  String.join (m.printed.toList.map (· ++ "\n"))

/-- Runs the text of a file.  The result is what goes to standard output, and whether it
    failed. -/
def runText (s : Session κ) (text : String) : String × Except LaunchError Unit × Session κ :=
  match s.run text with
  | (.ok v, s) => (printedText s.machine ++ v.readable s.machine.lists ++ "\n", .ok (), s)
  | (.error e, s) => (printedText s.machine, .error (.failed (e.report s.machine.lists)), s)

/-- Runs a file, given by its bytes or by why they cannot be read. -/
def runFile (s : Session κ) (found : Except FileError ByteArray) :
    String × Except LaunchError Unit × Session κ :=
  match found.bind SourceFile.text with
  | .ok text => runText s text
  | .error cause => ("", .error (.unreadableFile cause), s)

end Launch
end Lisplet
