import Lisplet.Error
import Lisplet.Scopes
import Lisplet.Value.Equality

/-! # The machine

The state of a running program and the monad that evaluation runs in.

A `Machine` holds the list storages, the frames, the code of closures, what was printed,
and a context that belongs to the host.  It also keeps a journal of what happened, if one
is wanted: nothing else depends on the journal, and its texts are only made when it is
kept.

An evaluation ends with a value, or it unwinds: because of a loop signal that the loop
around it takes, or because it failed. -/

namespace Lisplet

/-- The parameters of a closure: names for the arguments in order, or one name for the
    only argument. -/
inductive Parameters where
  | positional (names : List String)
  | single (name : String)
deriving DecidableEq, Repr

namespace Parameters

/-- The names that arguments are bound to. -/
def names : Parameters → List String
  | positional names => names
  | single name => [name]

/-- The number of arguments that is accepted. -/
def arity (ps : Parameters) : Arity := .exactly ps.names.length

/-- The parameters as they are written. -/
def text : Parameters → String
  | positional names => "(" ++ " ".intercalate names ++ ")"
  | single name => name

end Parameters

/-- The code of a closure, and the frame it was made in. -/
structure Closure where
  parameters : Parameters
  body : List Expr
  scope : FrameRef
deriving Repr

/-- How much a journal record matters. -/
inductive Level where
  | trace
  | debug
deriving DecidableEq, Repr

/-- The name of the level. -/
def Level.name : Level → String
  | trace => "TRACE"
  | debug => "DEBUG"

/-- One line of the journal. -/
structure Record where
  level : Level
  message : String
deriving DecidableEq, Repr

/-- The state of a running program.  `κ` is the type of the host's context. -/
structure Machine (κ : Type) where
  lists : Lists := {}
  scopes : Scopes := .start
  closures : Array Closure := #[]
  printed : Array String := #[]
  context : κ
  journal : Option (Array Record) := none

/-- Why an evaluation ends without a value. -/
inductive Unwind where
  | signal (s : Signal)
  | failure (e : Error)
deriving DecidableEq, Repr

/-- The error that an unwinding is once no loop is left to take it. -/
def Unwind.toError : Unwind → Error
  | signal s => .straySignal s
  | failure e => e

/-- Evaluations: they change the machine and end with a result or unwind. -/
abbrev Eval (κ : Type) := EStateM Unwind (Machine κ)

namespace Machine

/-- Adds a record to the journal, if one is kept. -/
def record {κ : Type} (m : Machine κ) (level : Level) (message : Machine κ → String) : Machine κ :=
  match m.journal with
  | none => m
  | some records => { m with journal := some (records.push ⟨level, message m⟩) }

end Machine

namespace Eval

variable {κ α : Type}

/-- Fails. -/
def fail (e : Error) : Eval κ α := throw (.failure e)

/-- Fails for a value of the wrong kind. -/
def expect : Except Mismatch α → Eval κ α
  | .ok a => pure a
  | .error cause => fail (.mismatch cause)

/-- Adds a record to the journal, if one is kept. -/
def record (level : Level) (message : Machine κ → String) : Eval κ Unit :=
  modify fun m => m.record level message

/-- Fails unless the number of arguments is accepted. -/
def checkArity (name : String) (arity : Arity) (got : Nat) : Eval κ Unit :=
  if arity.contains got then pure () else fail (.arity name arity got)

/-- Names the function in which a value of the wrong kind was met, unless it has been
    named already. -/
def pinned (function : String) (x : Eval κ α) : Eval κ α :=
  tryCatch x fun
    | .failure (.mismatch cause) => fail (.badArgument function cause)
    | u => throw u

/-! ## Lists -/

/-- The elements of a list. -/
def items (r : ListRef) : Eval κ (List Value) := return (← get).lists.items r

/-- The elements of a list, as an array. -/
def cell (r : ListRef) : Eval κ (Array Value) := return (← get).lists.cell r

/-- Makes a new list from an array. -/
def newCell (elements : Array Value) : Eval κ Value :=
  modifyGet fun m => (.list m.lists.next, { m with lists := m.lists.alloc elements })

/-- Makes a new list. -/
def newList (elements : List Value) : Eval κ Value := newCell elements.toArray

/-- Changes the elements of a list. -/
def modifyList (r : ListRef) (f : Array Value → Array Value) : Eval κ Unit :=
  modify fun m => { m with lists := m.lists.modify r f }

/-! ## Names -/

/-- A new frame directly inside `scope`. -/
def spawn (scope : FrameRef) : Eval κ FrameRef :=
  modifyGet fun m => (m.scopes.next, { m with scopes := m.scopes.spawn scope })

/-- What a name means, if anything. -/
def get? (scope : FrameRef) (name : String) : Eval κ (Option Value) :=
  return (← get).scopes.get? scope name

/-- What a name means. -/
def lookup (scope : FrameRef) (name : String) : Eval κ Value := do
  match ← get? scope name with
  | some v => pure v
  | none => fail (.unbound name)

/-- Binds a name in one frame. -/
def define (scope : FrameRef) (name : String) (v : Value) : Eval κ Unit :=
  modify fun m => { m with scopes := m.scopes.define scope name v }

/-- Changes the binding that a name means. -/
def assign (scope : FrameRef) (name : String) (v : Value) : Eval κ Value := do
  match (← get).scopes.holder? scope name with
  | some holder =>
    define holder name v
    pure v
  | none => fail (.unbound name)

/-! ## Closures -/

/-- Makes a new closure. -/
def newClosure (name : Option String) (c : Closure) : Eval κ Value :=
  modifyGet fun m =>
    (.closure name ⟨m.closures.size⟩, { m with closures := m.closures.push c })

/-- The code of a closure. -/
def code? (r : ClosureRef) : Eval κ (Option Closure) := return (← get).closures[r.index]?

/-! ## Output -/

/-- Prints a line. -/
def print (line : String) : Eval κ Unit :=
  modify fun m => { m with printed := m.printed.push line }

end Eval
end Lisplet
