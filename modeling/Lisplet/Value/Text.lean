import Lisplet.Lists
import Lisplet.Double.Decimal

/-! # Values as text

The readable text of a value is meant to be read back; its plain text differs only in
that a string is shown without quotes.  Inside a list everything is readable.  A list that
encloses itself shows as dots at the inner place. -/

namespace Lisplet

/-- Numbers below this limit are written as integers when they are whole. -/
def wholeLimit : Nat := Decimal.tenPow 15

/-- The decimal that `mantissa * 2 ^ exponent` is written as: a whole number below the limit
    in full, any other with the fewest digits that read back. -/
def numberDecimal (mantissa : Nat) (exponent : Int) : Decimal :=
  match Double.wholeMagnitude? mantissa exponent with
  | some n => if n < wholeLimit then ⟨n, 0⟩ else Decimal.shortest mantissa exponent
  | none => Decimal.shortest mantissa exponent

/-- The text of a number.  There is never an exponent, and zero has no sign. -/
def numberText (x : Float) : String :=
  match Double.reading x with
  | .nan => "NaN"
  | .infinite negative => if negative then "-Infinity" else "Infinity"
  | .finite negative mantissa exponent =>
    (if negative ∧ mantissa ≠ 0 then "-" else "") ++ (numberDecimal mantissa exponent).positional

/-- How a string is shown outside of any list. -/
inductive TextStyle where
  | readable
  | plain
deriving DecidableEq, Repr

namespace Value

/-- The text of a value inside the lists that enclose it. -/
def textWithin (ls : Lists) (enclosing : List ListRef) (style : TextStyle) (v : Value) : String :=
  match v with
  | null => "null"
  | number x => numberText x
  | bool b => if b then "true" else "false"
  | string s =>
    match style with
    | .readable => "\"" ++ s ++ "\""
    | .plain => s
  | closure name _ => "#<function " ++ closureName name ++ ">"
  | builtin name => "#<builtin " ++ name ++ ">"
  | list r =>
    if _h : r ∈ enclosing then "[...]"
    else if _h' : r.index < ls.size then
      "[" ++ " ".intercalate
        ((ls.items r).map fun x => textWithin ls (r :: enclosing) .readable x) ++ "]"
    else "[]"
termination_by unvisited ls.refs enclosing
decreasing_by exact unvisited_cons_lt (Lists.mem_refs.2 _h') _h

/-- The text of a value that is meant to be read back. -/
def readable (ls : Lists) (v : Value) : String := textWithin ls [] .readable v

/-- The text of a value as it is shown to people. -/
def display (ls : Lists) (v : Value) : String := textWithin ls [] .plain v

end Value
end Lisplet
