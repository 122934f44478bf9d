import Lisplet.Primitive

/-! # The math library

Arithmetic and order. -/

namespace Lisplet.Primitive

variable {κ : Type}

/-- The sum, from left to right.  The empty sum is negative zero, which any number added
    to it replaces. -/
def sum : List Float → Float
  | [] => Double.negativeZero
  | x :: rest => rest.foldl (· + ·) x

/-- The product, from left to right. -/
def product (xs : List Float) : Float := xs.foldl (· * ·) 1.0

/-- Subtracts from the first number, or negates the only one. -/
def subtract : List Float → Eval κ Float
  | [] => Eval.fail .missingArgument
  | [x] => return -x
  | x :: rest => return rest.foldl (· - ·) x

/-- Divides the first number by the others, from left to right. -/
def divide : List Float → Eval κ Float
  | [] => Eval.fail .missingArgument
  | x :: rest =>
    rest.foldlM (fun q y => if y == 0.0 then Eval.fail .divisionByZero else pure (q / y)) x

/-- The remainder of a division, with the sign of the number that is divided. -/
def modulo (a b : Value) : Eval κ Value := do
  let x ← Eval.expect a.asNumber
  let y ← Eval.expect b.asNumber
  if y == 0.0 then Eval.fail .divisionByZero else return .number (Double.remainder x y)

/-- The order of two numbers; NaN has none. -/
def compareNumbers (x y : Float) : Option Ordering :=
  if x < y then some .lt else if x == y then some .eq else if y < x then some .gt else none

/-- The order of two strings, by code points. -/
def compareStrings (s t : String) : Ordering :=
  if s < t then .lt else if s = t then .eq else .gt

/-- The order of two numbers or of two strings. -/
def compareValues : Value → Value → Except Mismatch (Option Ordering)
  | .number x, .number y => .ok (compareNumbers x y)
  | .string s, .string t => .ok (some (compareStrings s t))
  | .string _, _ => .error .notString
  | _, _ => .error .notNumber

/-- A test on the order of two values, which fails where there is none. -/
def comparison (name : String) (accept : Ordering → Bool) : Primitive κ :=
  binary name fun a b => return .bool ((← Eval.expect (compareValues a b)).any accept)

/-- The least number; NaN is passed over, and of equal numbers the last is kept, which shows in
the sign of a zero. -/
def minimum (xs : List Float) : Float :=
  xs.foldl (fun least x => if x ≤ least then x else least) Double.infinity

/-- The greatest number; NaN is passed over, and of equal numbers the last is kept, which shows in
the sign of a zero. -/
def maximum (xs : List Float) : Float :=
  xs.foldl (fun greatest x => if greatest ≤ x then x else greatest) (-Double.infinity)

/-- A function of any number of numbers. -/
def onNumbers (name : String) (least : Nat) (f : List Float → Eval κ Float) : Primitive κ :=
  variadic name least fun values => return .number (← f (← Eval.numbers values))

/-- A function of one number. -/
def onNumber (name : String) (f : Float → Float) : Primitive κ :=
  unary name fun v => return .number (f (← Eval.expect v.asNumber))

/-- The math library. -/
def mathTable : List (Primitive κ) :=
  [ onNumbers "+" 0 fun xs => pure (sum xs),
    onNumbers "-" 1 subtract,
    onNumbers "*" 0 fun xs => pure (product xs),
    onNumbers "/" 2 divide,
    binary "%" modulo,
    comparison "<" Ordering.isLT,
    comparison "<=" Ordering.isLE,
    comparison ">" Ordering.isGT,
    comparison ">=" Ordering.isGE,
    onNumbers "min" 1 fun xs => pure (minimum xs),
    onNumbers "max" 1 fun xs => pure (maximum xs),
    onNumber "abs" Float.abs,
    onNumber "floor" Double.floor,
    onNumber "ceil" Double.ceil,
    onNumber "round" Double.round,
    onNumber "sqrt" Float.sqrt,
    binary "pow" fun a b => do
      let x ← Eval.expect a.asNumber
      let y ← Eval.expect b.asNumber
      return .number (Float.pow x y) ]

end Lisplet.Primitive
