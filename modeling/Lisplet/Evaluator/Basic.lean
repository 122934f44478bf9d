import Lisplet.Primitive

/-! # Evaluating parts

An `Evaluator` is what a construct of the language needs of the rest of the language: a way
to evaluate an expression and a way to call a function.  Everything that is built from
these two takes the evaluator as an argument, so that the recursion is tied in one place
only. -/

namespace Lisplet

/-- How to evaluate an expression in a frame and how to call a function. -/
structure Evaluator (κ : Type) where
  eval : Expr → FrameRef → Eval κ Value
  apply : Applier κ

namespace Evaluator

variable {κ : Type}

/-- Evaluates expressions from left to right. -/
def sequence (ev : Evaluator κ) (es : List Expr) (scope : FrameRef) : Eval κ (List Value) :=
  es.mapM fun e => ev.eval e scope

/-- Evaluates expressions from left to right and keeps the last value, `null` if there is
    none. -/
def body (ev : Evaluator κ) (es : List Expr) (scope : FrameRef) : Eval κ Value :=
  es.foldlM (fun _ e => ev.eval e scope) .null

/-- Evaluates expressions from left to right until a value settles the outcome.  `last` is
    the outcome if there are none. -/
def shortCircuit (ev : Evaluator κ) (s : ShortCircuit) (scope : FrameRef) (last : Value) :
    List Expr → Eval κ Value
  | [] => return last
  | e :: es => do
    let v ← ev.eval e scope
    if s.settles v then return v else ev.shortCircuit s scope v es

/-- Turns a loop signal that would leave a function into a failure. -/
def contained (x : Eval κ Value) : Eval κ Value :=
  tryCatch x fun
    | .signal s => Eval.fail (.straySignal s)
    | u => throw u

/-- Binds the parameters of a closure in a frame, one after the other. -/
def bindAll (scope : FrameRef) (names : List String) (args : List Value) : Eval κ Unit :=
  (names.zip args).forM fun (name, v) => Eval.define scope name v

/-- Calls a closure: its body runs in a new frame inside the one the closure was made in. -/
def callClosure (ev : Evaluator κ) (name : Option String) (c : Closure) (args : List Value) :
    Eval κ Value := do
  let label := Value.closureName name
  Eval.record .trace fun m => "Call " ++ label ++ " with " ++ argumentText m.lists args
  Eval.checkArity label c.parameters.arity args.length
  let scope ← Eval.spawn c.scope
  Eval.record .trace fun m => label ++ " runs at frame depth " ++ toString (m.scopes.depth scope)
  bindAll scope c.parameters.names args
  let v ← Eval.pinned label (contained (ev.body c.body scope))
  Eval.record .trace fun m => "Call to " ++ label ++ " resulted in " ++ v.display m.lists
  return v

end Evaluator
end Lisplet
