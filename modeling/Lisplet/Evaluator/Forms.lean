import Lisplet.Evaluator.Loops

/-! # Special forms

Calls whose arguments are not simply evaluated.  A special form is known by its keyword,
which cannot be given another meaning.  The number of its parts is checked before anything
else. -/

namespace Lisplet

/-- The special forms. -/
inductive Keyword where
  | letName
  | setName
  | inc
  | dec
  | ifElse
  | unlessTrue
  | block
  | function
  | lambda
  | whileLoop
  | doLoop
  | forLoop
  | signal (s : Signal)
  | throwValue
deriving DecidableEq, Repr

namespace Keyword

/-- The word that starts the form. -/
def name : Keyword → String
  | letName => "let"
  | setName => "set!"
  | inc => "inc"
  | dec => "dec"
  | ifElse => "if"
  | unlessTrue => "unless"
  | block => "begin"
  | function => "function"
  | lambda => "lambda"
  | whileLoop => "while"
  | doLoop => "do"
  | forLoop => "for"
  | signal s => s.keyword
  | throwValue => "throw"

/-- All keywords. -/
def all : List Keyword :=
  [letName, setName, inc, dec, ifElse, unlessTrue, block, function, lambda, whileLoop, doLoop,
    forLoop, signal .breaking, signal .continuing, throwValue]

/-- The keyword that a word is. -/
def ofName? (word : String) : Option Keyword := all.find? (·.name == word)

/-- The number of parts that the form has. -/
def arity : Keyword → Arity
  | letName | setName | unlessTrue => .exactly 2
  | inc | dec => .between 1 2
  | ifElse => .between 2 3
  | block => .atLeast 0
  | function => .atLeast 2
  | lambda | whileLoop | doLoop => .atLeast 1
  | forLoop => .atLeast 3
  | signal _ => .exactly 0
  | throwValue => .exactly 1

end Keyword

/-- The parts of an expression in brackets. -/
def Expr.parts? : Expr → Option (List Expr)
  | call items | list items => some items
  | _ => none

namespace Form

variable {κ : Type}

/-- Fails because a form is not written as it should be. -/
def bad {α : Type} (k : Keyword) (reason : String) : Eval κ α := Eval.fail (.badForm k.name reason)

/-- The name that a part of a form is. -/
def nameOf (k : Keyword) : Expr → Eval κ String
  | .identifier name => return name
  | _ => bad k "expected an identifier"

/-- Binds a name in the current frame. -/
def letName (ev : Evaluator κ) (scope : FrameRef) (target e : Expr) : Eval κ Value := do
  let name ← nameOf .letName target
  let v ← ev.eval e scope
  Eval.record .debug fun m => "define " ++ name ++ " as " ++ v.display m.lists
  Eval.define scope name v
  return v

/-- Changes what a name means. -/
def setName (ev : Evaluator κ) (scope : FrameRef) (target e : Expr) : Eval κ Value := do
  let name ← nameOf .setName target
  let v ← ev.eval e scope
  Eval.record .trace fun m => "assign " ++ name ++ " in " ++ m.scopes.text scope
  Eval.assign scope name v

/-- The number that a value is, in a form. -/
def numberIn (k : Keyword) (v : Value) : Eval κ Float := Eval.pinned k.name (Eval.expect v.asNumber)

/-- Changes a number by an amount that is one by default.  The number is read before the
    amount is evaluated. -/
def step (k : Keyword) (change : Float → Float → Float) (ev : Evaluator κ) (scope : FrameRef)
    (target : Expr) (amount : Option Expr) : Eval κ Value := do
  let name ← nameOf k target
  let current ← numberIn k (← Eval.lookup scope name)
  let delta ← match amount with
    | some e => do numberIn k (← ev.eval e scope)
    | none => pure 1.0
  Eval.assign scope name (.number (change current delta))

/-- Evaluates one of two expressions. -/
def ifElse (ev : Evaluator κ) (scope : FrameRef) (condition yes : Expr) (no : Option Expr) :
    Eval κ Value := do
  if ← ev.test condition scope then ev.eval yes scope
  else
    match no with
    | some e => ev.eval e scope
    | none => return .null

/-- Evaluates an expression if a condition does not hold. -/
def unlessTrue (ev : Evaluator κ) (scope : FrameRef) (condition e : Expr) : Eval κ Value := do
  if ← ev.test condition scope then return .null else ev.eval e scope

/-- Evaluates a body in a frame of its own. -/
def block (ev : Evaluator κ) (scope : FrameRef) (body : List Expr) : Eval κ Value := do
  ev.body body (← Eval.spawn scope)

/-- The parameters of a function: one name, or names in brackets. -/
def parameters (k : Keyword) (e : Expr) : Eval κ Parameters :=
  match e with
  | .identifier name => return .single name
  | e =>
    match e.parts? with
    | some parts => return .positional (← parts.mapM (nameOf k))
    | none => bad k "parameters must be an identifier or a list of identifiers"

/-- Makes a function and binds its name in the current frame. -/
def function (scope : FrameRef) (target ps : Expr) (body : List Expr) : Eval κ Value := do
  let name ← nameOf .function target
  let ps ← parameters .function ps
  Eval.record .debug fun _ => "define function " ++ name ++ " " ++ ps.text
  let v ← Eval.newClosure (some name) ⟨ps, body, scope⟩
  Eval.define scope name v
  return v

/-- Makes a function without a name. -/
def lambda (scope : FrameRef) (ps : Expr) (body : List Expr) : Eval κ Value := do
  let ps ← parameters .lambda ps
  Eval.newClosure none ⟨ps, body, scope⟩

/-- The variable of a `for` loop and the expression for its first value. -/
def loopVariable (e : Expr) : Eval κ (String × Expr) :=
  match e.parts? with
  | some [target, initial] => return (← nameOf .forLoop target, initial)
  | _ => bad .forLoop "expected (name initial-value)"

/-- Runs a loop with a variable of its own.  The frame of the variable is inside the
    current one, and its first value is evaluated outside of it. -/
def forLoop (ev : Evaluator κ) (fuel : Nat) (scope : FrameRef) (binding condition step : Expr)
    (body : List Expr) : Eval κ Value := do
  let (name, initial) ← loopVariable binding
  let inner ← Eval.spawn scope
  Eval.define inner name (← ev.eval initial scope)
  ev.forLoop name condition step body inner .null fuel

/-- Fails with a value. -/
def throwValue (ev : Evaluator κ) (scope : FrameRef) (e : Expr) : Eval κ Value := do
  let v ← ev.eval e scope
  Eval.record .debug fun m => "throw " ++ v.display m.lists
  Eval.fail (.thrown v)

/-- Evaluates a special form that has as many parts as it should have. -/
def run (ev : Evaluator κ) (fuel : Nat) (scope : FrameRef) : Keyword → List Expr → Eval κ Value
  | .letName, [target, e] => letName ev scope target e
  | .setName, [target, e] => setName ev scope target e
  | .inc, [target] => step .inc (· + ·) ev scope target none
  | .inc, [target, e] => step .inc (· + ·) ev scope target (some e)
  | .dec, [target] => step .dec (· - ·) ev scope target none
  | .dec, [target, e] => step .dec (· - ·) ev scope target (some e)
  | .ifElse, [condition, yes] => ifElse ev scope condition yes none
  | .ifElse, [condition, yes, no] => ifElse ev scope condition yes (some no)
  | .unlessTrue, [condition, e] => unlessTrue ev scope condition e
  | .block, body => block ev scope body
  | .function, target :: ps :: body => function scope target ps body
  | .lambda, ps :: body => lambda scope ps body
  | .whileLoop, condition :: body => ev.whileLoop condition body scope .null fuel
  | .doLoop, condition :: body => ev.doLoop condition body scope fuel
  | .forLoop, binding :: condition :: step :: body =>
    forLoop ev fuel scope binding condition step body
  | .signal s, [] => throw (.signal s)
  | .throwValue, [e] => throwValue ev scope e
  | _, _ => Eval.fail .missingArgument

/-- Evaluates a special form. -/
def call (ev : Evaluator κ) (fuel : Nat) (scope : FrameRef) (k : Keyword) (parts : List Expr) :
    Eval κ Value := do
  Eval.checkArity k.name k.arity parts.length
  run ev fuel scope k parts

end Form
end Lisplet
