import Lisplet.Primitive

/-! # The core library

Printing, equality, logic and questions about types. -/

namespace Lisplet.Primitive

variable {κ : Type}

/-- Prints the values in one line, with blanks between them. -/
def print (values : List Value) : Eval κ Value := do
  let m ← get
  Eval.print (" ".intercalate (values.map (·.display m.lists)))
  return .null

/-- Whether every value equals its successor. -/
def chainEqual (ls : Lists) : List Value → Bool
  | a :: b :: rest => a.equal ls b && chainEqual ls (b :: rest)
  | _ => true

/-- Whether all values are equal. -/
def allEqual (values : List Value) : Eval κ Value :=
  return .bool (chainEqual (← get).lists values)

/-- Whether two values differ. -/
def differ (a b : Value) : Eval κ Value :=
  return .bool !(a.equal (← get).lists b)

/-- A function that ends at the first argument that settles the outcome. -/
def circuit (name : String) (s : ShortCircuit) : Primitive κ :=
  { name, arity := .atLeast 0, run := fun _ values => pure (s.outcome values),
    shortCircuit := some s }

/-- Calls a function with the elements of a list as its arguments. -/
def applyToList (apply : Applier κ) (f arguments : Value) : Eval κ Value := do
  let f ← Eval.expect f.asCallable
  let r ← Eval.expect arguments.asList
  apply f (← Eval.items r)

/-- The core library. -/
def coreTable : List (Primitive κ) :=
  [ variadic "print" 0 print,
    variadic "=" 1 allEqual,
    variadic "==" 1 allEqual,
    binary "!=" differ,
    unary "not" fun v => return .bool !v.truthy,
    circuit "and" .all,
    circuit "or" .any,
    unary "type-of" fun v => return .string v.typeName,
    unary "null?" fun v => return .bool v.isNull,
    unary "boolean?" fun v => return .bool v.asBool.isOk,
    unary "function?" fun v => return .bool v.isCallable,
    { name := "apply", arity := .exactly 2,
      run := fun apply args => match args with
        | [f, arguments] => applyToList apply f arguments
        | _ => Eval.fail .missingArgument } ]

end Lisplet.Primitive
