import Lisplet.Evaluator

/-! # Sessions

A session runs one source text after another on the same machine, so that what one defines
the next can use. -/

namespace Lisplet

/-- Reads a text, with records of how far it got. -/
def Eval.read {κ : Type} (source : String) : Eval κ (List Expr) := do
  let tokens := Token.scan source
  Eval.record .trace fun _ => "tokenized " ++ toString tokens.length ++ " tokens"
  match Expr.ofTokens tokens with
  | .error cause => Eval.fail (.unreadable cause)
  | .ok forms =>
    Eval.record .debug fun _ => "parsed " ++ toString forms.length ++ " top-level forms"
    return forms

/-- Reads a text and evaluates its expressions in the root frame. -/
def Evaluator.run {κ : Type} (ev : Evaluator κ) (source : String) : Eval κ Value := do
  let forms ← Eval.read source
  Eval.record .debug fun _ =>
    "running " ++ toString forms.length ++ " top-level expressions"
  ev.body forms Scopes.root

/-- The active libraries and the machine that they work on.  `fuel` bounds how deep
    evaluation may nest and how many passes a loop may make. -/
structure Session (κ : Type) where
  registry : Registry κ
  machine : Machine κ
  fuel : Nat

namespace Session

variable {κ α : Type}

/-- More fuel than any run can use up. -/
def ampleFuel : Nat := Nat.pow 2 60

/-- Starts a session on a machine. -/
def start (options : Options κ) (m : Machine κ) (fuel : Nat := ampleFuel) :
    Except ConfigError (Session κ) := do
  let registry ← Registry.ofOptions options
  return ⟨registry, m.record .debug fun _ => registry.text, fuel⟩

/-- The evaluator of the session. -/
def evaluator (s : Session κ) : Evaluator κ := .withFuel s.registry s.fuel

/-- Does something on the session's machine. -/
def perform (s : Session κ) (x : Eval κ α) : Except Unwind α × Session κ :=
  match x s.machine with
  | .ok a m => (.ok a, { s with machine := m })
  | .error u m => (.error u, { s with machine := m })

/-- Runs a source text and gives the value of its last expression. -/
def run (s : Session κ) (source : String) : Except Error Value × Session κ :=
  let (outcome, s) := s.perform (s.evaluator.run source)
  (outcome.mapError Unwind.toError, s)

/-- Runs a source text and gives the outcome as text. -/
def reply (s : Session κ) (source : String) : String × Session κ :=
  match s.run source with
  | (.ok v, s) => (v.readable s.machine.lists, s)
  | (.error e, s) => (e.report s.machine.lists, s)

/-- Calls a function value.  A loop signal is not turned into an error. -/
def apply (s : Session κ) (callee : Value) (args : List Value) : Except Unwind Value × Session κ :=
  s.perform (s.evaluator.apply callee args)

/-- Evaluates expressions in a new frame inside the root frame, which comes back with the
    outcome. -/
def sequence (s : Session κ) (forms : List Expr) :
    Except Unwind (List Value) × FrameRef × Session κ :=
  let scope := s.machine.scopes.next
  let (outcome, s) := s.perform do s.evaluator.sequence forms (← Eval.spawn Scopes.root)
  (outcome, scope, s)

end Session

/-- How a single run ends: its value, what is reported to users if it failed, and the
    machine it leaves. -/
structure Outcome (κ : Type) where
  value : Value
  report : Option String
  machine : Machine κ

namespace Outcome

variable {κ : Type}

/-- Runs a source text on a machine, with a session of its own. -/
def ofRun (options : Options κ) (m : Machine κ) (source : String) :
    Except Error Value × Machine κ :=
  match Session.start options m with
  | .error cause => (.error (.config cause), m)
  | .ok s =>
    let (outcome, s) := s.run source
    (outcome, s.machine)

/-- Runs a source text; a failure is turned into a string value. -/
def evaluate (options : Options κ) (m : Machine κ) (source : String) : Outcome κ :=
  match ofRun options m source with
  | (.ok v, m) => ⟨v, none, m⟩
  | (.error e, m) =>
    let m := m.record .debug fun m => "evaluation failed: " ++ e.message m.lists
    ⟨.string (e.report m.lists), some (e.report m.lists), m⟩

/-- Runs a source text; a failure is reported and the value is `null`. -/
def evaluateOrReport (options : Options κ) (m : Machine κ) (source : String) : Outcome κ :=
  match ofRun options m source with
  | (.ok v, m) => ⟨v, none, m⟩
  | (.error e, m) => ⟨.null, some (e.report m.lists), m⟩

end Outcome
end Lisplet
