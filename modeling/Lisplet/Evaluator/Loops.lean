import Lisplet.Evaluator.Basic

/-! # Loops

Every pass of a loop runs in a frame of its own, and a loop takes the signals that its
passes raise.  The value of a loop is the value of its last pass; a pass that was continued
early has the value `null`, and so has a loop that was left early or never ran a pass.

Each loop may make as many passes as its `fuel` says before it is given up. -/

namespace Lisplet.Evaluator

variable {κ : Type}

/-- Runs the body of a loop once.  The result is the value of the pass, or nothing if the
    pass wants the loop to end. -/
def pass (ev : Evaluator κ) (body : List Expr) (scope : FrameRef) : Eval κ (Option Value) := do
  let inner ← Eval.spawn scope
  tryCatch (some <$> ev.body body inner) fun
    | .signal .breaking => return none
    | .signal .continuing => return some .null
    | u => throw u

/-- Whether a condition holds. -/
def test (ev : Evaluator κ) (condition : Expr) (scope : FrameRef) : Eval κ Bool :=
  return (← ev.eval condition scope).truthy

/-- Runs passes as long as the condition holds before them. -/
def whileLoop (ev : Evaluator κ) (condition : Expr) (body : List Expr) (scope : FrameRef)
    (last : Value) : Nat → Eval κ Value
  | 0 => Eval.fail .exhausted
  | fuel + 1 => do
    if ← ev.test condition scope then
      match ← ev.pass body scope with
      | some v => ev.whileLoop condition body scope v fuel
      | none => return .null
    else return last

/-- Runs passes as long as the condition holds after them. -/
def doLoop (ev : Evaluator κ) (condition : Expr) (body : List Expr) (scope : FrameRef) :
    Nat → Eval κ Value
  | 0 => Eval.fail .exhausted
  | fuel + 1 => do
    match ← ev.pass body scope with
    | some v =>
      if ← ev.test condition scope then ev.doLoop condition body scope fuel else return v
    | none => return .null

/-- Runs passes as long as the condition holds before them, and gives the loop variable a
    new value after each.  `scope` is the frame that holds the loop variable. -/
def forLoop (ev : Evaluator κ) (name : String) (condition step : Expr) (body : List Expr)
    (scope : FrameRef) (last : Value) : Nat → Eval κ Value
  | 0 => Eval.fail .exhausted
  | fuel + 1 => do
    if ← ev.test condition scope then
      match ← ev.pass body scope with
      | some v =>
        let next ← ev.eval step scope
        let _ ← Eval.assign scope name next
        ev.forLoop name condition step body scope v fuel
      | none => return .null
    else return last

end Lisplet.Evaluator
