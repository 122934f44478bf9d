import Lisplet.Evaluator.Forms
import Lisplet.Registry

/-! # Evaluation

One step of evaluation in terms of an evaluator for the parts, and the knot that makes an
evaluator out of steps.  `Evaluator.withFuel` gives up after `fuel` nested steps, so
evaluation is total; more fuel never changes an outcome that was reached with less. -/

namespace Lisplet.Evaluator

variable {κ : Type}

/-- What a name means: its binding, or else the library function of that name. -/
def meaning (reg : Registry κ) (scope : FrameRef) (name : String) : Eval κ Value := do
  match ← Eval.get? scope name with
  | some v => return v
  | none =>
    match reg.find? name with
    | some _ => return .builtin name
    | none => Eval.fail (.unbound name)

/-- Calls a library function whose arguments are not evaluated yet. -/
def callDirectly (ev : Evaluator κ) (entry : Entry κ) (args : List Expr) (scope : FrameRef) :
    Eval κ Value := do
  Eval.record .trace fun _ =>
    "dispatch " ++ entry.name ++ " to library " ++ entry.library.name
  match entry.shortCircuit with
  | some s => ev.shortCircuit s scope s.empty args
  | none => entry.call ev.apply (← ev.sequence args scope)

/-- Evaluates a call that starts with a name: a special form, a call of what the name is
    bound to, or a call of a library function. -/
def callByName (reg : Registry κ) (ev : Evaluator κ) (fuel : Nat) (name : String)
    (args : List Expr) (scope : FrameRef) : Eval κ Value := do
  Eval.record .trace fun _ =>
    "apply (" ++ name ++ " …" ++ toString args.length ++ " args)"
  match Keyword.ofName? name with
  | some k => Form.call ev fuel scope k args
  | none =>
    match ← Eval.get? scope name with
    | some callee => ev.apply callee (← ev.sequence args scope)
    | none =>
      match reg.find? name with
      | some entry => ev.callDirectly entry args scope
      | none => Eval.fail (.unbound name)

/-- Evaluates an expression, given an evaluator for its parts. -/
def evalStep (reg : Registry κ) (ev : Evaluator κ) (fuel : Nat) (e : Expr) (scope : FrameRef) :
    Eval κ Value :=
  match e with
  | .number x => return .number x
  | .string s => return .string s
  | .bool b => return .bool b
  | .null => return .null
  | .identifier name => meaning reg scope name
  | .list items => do Eval.newList (← ev.sequence items scope)
  | .call [] => return .null
  | .call (.identifier name :: args) => callByName reg ev fuel name args scope
  | .call (head :: args) => do
    let callee ← ev.eval head scope
    ev.apply callee (← ev.sequence args scope)

/-- Calls a function value, given an evaluator for what it needs. -/
def applyStep (reg : Registry κ) (ev : Evaluator κ) (callee : Value) (args : List Value) :
    Eval κ Value :=
  match callee with
  | .closure name code => do
    match ← Eval.code? code with
    | some c => ev.callClosure name c args
    | none => Eval.fail (.notFunction callee)
  | .builtin name =>
    match reg.find? name with
    | some entry => entry.call ev.apply args
    | none => Eval.fail (.unbound name)
  | _ => Eval.fail (.notFunction callee)

/-- The evaluator that gives up after `fuel` nested steps, or when a loop makes more passes
    than that. -/
def withFuel (reg : Registry κ) : Nat → Evaluator κ
  | 0 => ⟨fun _ _ => Eval.fail .exhausted, fun _ _ => Eval.fail .exhausted⟩
  | fuel + 1 =>
    ⟨fun e scope => evalStep reg (withFuel reg fuel) fuel e scope,
      fun callee args => applyStep reg (withFuel reg fuel) callee args⟩

end Lisplet.Evaluator
