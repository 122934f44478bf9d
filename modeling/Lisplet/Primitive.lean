import Lisplet.Machine

/-! # Primitives

The functions that libraries are made of.  A primitive says how many arguments it takes and
is only run with as many.  Primitives that call functions are given the means to do so. -/

namespace Lisplet

/-- How to call a function value. -/
abbrev Applier (κ : Type) := Value → List Value → Eval κ Value

/-- Functions that need not look at all their arguments: `all` ends at the first false
    one, `any` at the first true one. -/
inductive ShortCircuit where
  | all
  | any
deriving DecidableEq, Repr

namespace ShortCircuit

/-- Whether a value settles the outcome. -/
def settles : ShortCircuit → Value → Bool
  | all, v => !v.truthy
  | any, v => v.truthy

/-- The outcome for no values. -/
def empty : ShortCircuit → Value
  | all => .bool true
  | any => .bool false

/-- The outcome for given values: the first that settles it, else the last. -/
def outcome (s : ShortCircuit) (values : List Value) : Value :=
  ((values.find? s.settles).or values.getLast?).getD s.empty

end ShortCircuit

/-- A function of a library.  One that is a short circuit leaves the arguments of a direct
    call unevaluated as soon as the outcome is settled. -/
structure Primitive (κ : Type) where
  name : String
  arity : Arity
  run : Applier κ → List Value → Eval κ Value
  shortCircuit : Option ShortCircuit := none

/-- The arguments of a call, as the journal shows them. -/
def argumentText (ls : Lists) : List Value → String
  | [] => "no args"
  | [v] => v.readable ls
  | vs => "\n\t" ++ "\n\t".intercalate (vs.map (·.readable ls))

namespace Primitive

variable {κ : Type}

/-- A primitive that takes any number of arguments from `least` on. -/
def variadic (name : String) (least : Nat) (f : List Value → Eval κ Value) : Primitive κ :=
  { name, arity := .atLeast least, run := fun _ => f }

/-- A primitive that takes one argument. -/
def unary (name : String) (f : Value → Eval κ Value) : Primitive κ :=
  { name, arity := .exactly 1,
    run := fun _ args => match args with
      | [a] => f a
      | _ => Eval.fail .missingArgument }

/-- A primitive that takes two arguments. -/
def binary (name : String) (f : Value → Value → Eval κ Value) : Primitive κ :=
  { name, arity := .exactly 2,
    run := fun _ args => match args with
      | [a, b] => f a b
      | _ => Eval.fail .missingArgument }

/-- A primitive that takes one argument and an optional second one. -/
def unaryOptional (name : String) (f : Value → Option Value → Eval κ Value) : Primitive κ :=
  { name, arity := .between 1 2,
    run := fun _ args => match args with
      | [a] => f a none
      | [a, b] => f a (some b)
      | _ => Eval.fail .missingArgument }

/-- A primitive that takes two arguments and an optional third one. -/
def binaryOptional (name : String) (f : Value → Value → Option Value → Eval κ Value) :
    Primitive κ :=
  { name, arity := .between 2 3,
    run := fun _ args => match args with
      | [a, b] => f a b none
      | [a, b, c] => f a b (some c)
      | _ => Eval.fail .missingArgument }

/-- Calls a primitive.  A value of the wrong kind is reported with the primitive's name. -/
def call (p : Primitive κ) (apply : Applier κ) (args : List Value) : Eval κ Value := do
  Eval.checkArity p.name p.arity args.length
  Eval.record .trace fun m => "Call " ++ p.name ++ " with " ++ argumentText m.lists args
  let v ← tryCatch (Eval.pinned p.name (p.run apply args)) fun u => do
    Eval.record .trace fun _ => "Call to " ++ p.name ++ " failed"
    throw u
  Eval.record .trace fun m => "Call to " ++ p.name ++ " resulted in " ++ v.display m.lists
  return v

end Primitive

/-- The numbers that values are. -/
def Eval.numbers {κ : Type} (values : List Value) : Eval κ (List Float) :=
  Eval.expect (values.mapM Value.asNumber)

end Lisplet
