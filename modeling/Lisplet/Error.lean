import Lisplet.Arity
import Lisplet.Expr
import Lisplet.Value.Text

/-! # Errors

Everything that can go wrong, by cause, and the one place where causes become text. -/

namespace Lisplet

/-- The two ways to leave a pass of a loop early. -/
inductive Signal where
  | breaking
  | continuing
deriving DecidableEq, Repr

/-- The keyword that raises the signal. -/
def Signal.keyword : Signal → String
  | breaking => "break"
  | continuing => "continue"

/-- Why a choice of libraries is refused. -/
inductive ConfigError where
  | unknownLibrary (name : String)
  | duplicateLibrary (name : String)
deriving DecidableEq, Repr

/-- Why the choice was refused, in words. -/
def ConfigError.message : ConfigError → String
  | unknownLibrary name => "unknown library " ++ name
  | duplicateLibrary name => "library " ++ name ++ " listed twice"

/-- Why an evaluation failed. -/
inductive Error where
  /-- The source text cannot be read. -/
  | unreadable (cause : ReadError)
  /-- A name with no meaning. -/
  | unbound (name : String)
  /-- The wrong number of arguments. -/
  | arity (name : String) (expected : Arity) (got : Nat)
  /-- A value of the wrong kind, before it is known in which function. -/
  | mismatch (cause : Mismatch)
  /-- A value of the wrong kind given to a function. -/
  | badArgument (function : String) (cause : Mismatch)
  /-- A value of the right kind that a function cannot work with. -/
  | invalidArgument (function reason : String)
  /-- A call of something that is not a function. -/
  | notFunction (callee : Value)
  /-- A value thrown by the program. -/
  | thrown (v : Value)
  /-- A loop signal outside of any loop. -/
  | straySignal (signal : Signal)
  /-- A special form that is not written as it should be. -/
  | badForm (form reason : String)
  | divisionByZero
  | badIndex (index : Int) (length : Nat)
  /-- A host function refused. -/
  | host (function message : String)
  /-- The libraries were not chosen well. -/
  | config (cause : ConfigError)
  /-- A function asked for an argument that its arity does not promise. -/
  | missingArgument
  /-- The evaluation was given up before it ended. -/
  | exhausted
deriving DecidableEq, Repr

/-- What went wrong, in words.  A thrown value or a callee shows as it is now. -/
def Error.message (ls : Lists) : Error → String
  | unreadable cause => "Syntax error: " ++ cause.message
  | unbound name => "Unbound identifier: " ++ name
  | arity name expected got => "Arity error: " ++ expected.complaint name got
  | mismatch cause => "Type error: " ++ cause.message
  | badArgument function cause => "Type error: " ++ function ++ " " ++ cause.message
  | invalidArgument function reason => function ++ ": " ++ reason
  | notFunction callee => "Not a function: " ++ callee.readable ls
  | thrown v => v.display ls
  | straySignal signal => signal.keyword ++ " outside of a loop"
  | badForm form reason => "Bad " ++ form ++ " form: " ++ reason
  | divisionByZero => "Division by zero"
  | badIndex index length =>
    "Index " ++ toString index ++ " out of range for list of length " ++ toString length
  | host function message => function ++ ": " ++ message
  | config cause => "Configuration error: " ++ cause.message
  | missingArgument => "Missing argument"
  | exhausted => "Evaluation given up"

/-- The message as it is reported to users. -/
def Error.report (ls : Lists) (e : Error) : String := "Error: " ++ e.message ls

end Lisplet
