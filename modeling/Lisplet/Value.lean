import Lisplet.Double.Basic

/-! # Values

What expressions evaluate to.  Values are small: a list value only names the storage that
holds its elements, so that all copies of it share one storage, and a closure only names
its code. -/

namespace Lisplet

/-- The name of a list storage. -/
structure ListRef where
  index : Nat
deriving DecidableEq, Repr

/-- The name of a closure's code. -/
structure ClosureRef where
  index : Nat
deriving DecidableEq, Repr

/-- A value. -/
inductive Value where
  | null
  | number (x : Float)
  | bool (b : Bool)
  | string (s : String)
  | list (storage : ListRef)
  /-- A function made by the program, with the name it was defined under. -/
  | closure (name : Option String) (code : ClosureRef)
  /-- A function of a library. -/
  | builtin (name : String)
deriving DecidableEq, Repr, Inhabited

/-- The kind of value that was needed where another one was given. -/
inductive Mismatch where
  | notNumber
  | notString
  | notList
  | notBool
  | notInteger
  | notFunction
deriving DecidableEq, Repr

/-- What was expected, in words. -/
def Mismatch.message : Mismatch → String
  | notNumber => "expected a number"
  | notString => "expected a string"
  | notList => "expected a list"
  | notBool => "expected a boolean"
  | notInteger => "expected an integer"
  | notFunction => "expected a function"

namespace Value

/-- The name of the value's type. -/
def typeName : Value → String
  | null => "null"
  | number _ => "number"
  | bool _ => "boolean"
  | string _ => "string"
  | list _ => "list"
  | closure .. | builtin _ => "function"

/-- Only `false` and `null` count as false. -/
def truthy : Value → Bool
  | null => false
  | bool b => b
  | _ => true

/-- Whether the value is `null`. -/
def isNull : Value → Bool
  | null => true
  | _ => false

/-- Whether the value can be called. -/
def isCallable : Value → Bool
  | closure .. | builtin _ => true
  | _ => false

/-- The number that the value is. -/
def asNumber : Value → Except Mismatch Float
  | number x => .ok x
  | _ => .error .notNumber

/-- The integer that the value is, within the limits of 64 bits. -/
def asInteger (v : Value) : Except Mismatch Int := do
  match Double.toInt? (← v.asNumber) with
  | some i => .ok i
  | none => .error .notInteger

/-- The string that the value is. -/
def asString : Value → Except Mismatch String
  | string s => .ok s
  | _ => .error .notString

/-- The list storage that the value names. -/
def asList : Value → Except Mismatch ListRef
  | list r => .ok r
  | _ => .error .notList

/-- The truth value that the value is. -/
def asBool : Value → Except Mismatch Bool
  | bool b => .ok b
  | _ => .error .notBool

/-- The value itself if it can be called. -/
def asCallable (v : Value) : Except Mismatch Value :=
  if v.isCallable then .ok v else .error .notFunction

/-- The name that a function of the program goes by in messages. -/
def closureName (name : Option String) : String := name.getD "lambda"

end Value
end Lisplet
