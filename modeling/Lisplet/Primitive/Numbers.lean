import Lisplet.Double.Fixed
import Lisplet.Numeral
import Lisplet.Primitive
import Lisplet.Text.Blank

/-! # The number library

Questions about numbers, and numbers from and to text. -/

namespace Lisplet.Primitive

variable {κ : Type}

/-- The number that a text stands for, as a numeral or as a plain number, with white space
    around it. -/
def numberOfText? (cs : List Char) : Option Float :=
  let cs := Text.trim cs
  Numeral.plain? (if Numeral.isNumeral cs then Numeral.normalize cs else cs)

/-- The number that a text stands for, or `null`. -/
def parseNumber (v : Value) : Eval κ Value := do
  let s ← Eval.expect v.asString
  return ((numberOfText? s.toList).map Value.number).getD .null

/-- The largest number of decimal places. -/
def maxPlaces : Nat := 100

/-- A number with a given number of decimal places, none by default. -/
def toFixed (v : Value) (places : Option Value) : Eval κ Value := do
  let x ← Eval.expect v.asNumber
  match places with
  | none => return .string (Double.toFixed x 0)
  | some places =>
    let n ← Eval.expect places.asInteger
    if 0 ≤ n ∧ n ≤ maxPlaces then return .string (Double.toFixed x n.toNat)
    else
      Eval.fail (.invalidArgument "to-fixed"
        ("digits must be between 0 and " ++ toString maxPlaces))

/-- The number library. -/
def numberTable : List (Primitive κ) :=
  [ unary "number?" fun v => return .bool v.asNumber.isOk,
    unary "integer?" fun v => return .bool v.asInteger.isOk,
    unary "nan?" fun v => return .bool (← Eval.expect v.asNumber).isNaN,
    unary "parse-number" parseNumber,
    unaryOptional "to-fixed" toFixed ]

end Lisplet.Primitive
