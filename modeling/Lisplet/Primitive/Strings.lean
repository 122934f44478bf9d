import Lisplet.Primitive
import Lisplet.Slice
import Lisplet.Text.Blank
import Lisplet.Text.Case
import Lisplet.Text.Pieces

/-! # The string library

Strings are sequences of characters; positions and lengths count characters. -/

namespace Lisplet.Primitive

variable {κ : Type}

/-- The texts of all values, one after the other. -/
def concatTexts (values : List Value) : Eval κ Value := do
  let m ← get
  return .string (String.join (values.map (·.display m.lists)))

/-- The text of a value. -/
def textOf (v : Value) : Eval κ Value := return .string (v.display (← get).lists)

/-- A function of the characters of one string. -/
def onChars (name : String) (f : List Char → Value) : Primitive κ :=
  unary name fun v => return f (← Eval.expect v.asString).toList

/-- A string given by its characters. -/
def ofChars (cs : List Char) : Value := .string (String.ofList cs)

/-- The part of a string between two positions. -/
def substring (text start : Value) (stop : Option Value) : Eval κ Value := do
  let cs := (← Eval.expect text.asString).toList
  let start := Slice.clamp (← Eval.expect start.asInteger) cs.length
  let stop ← match stop with
    | some stop => do pure (Slice.clamp (← Eval.expect stop.asInteger) cs.length)
    | none => pure cs.length
  return ofChars (Slice.between start stop cs)

/-- The pieces of a string between separators. -/
def split (text separator : Value) : Eval κ Value := do
  let s ← Eval.expect text.asString
  let sep ← Eval.expect separator.asString
  Eval.newList ((Text.split sep.toList s.toList).map ofChars)

/-- The texts of the elements of a list with a separator between them. -/
def join (list separator : Value) : Eval κ Value := do
  let sep ← Eval.expect separator.asString
  let r ← Eval.expect list.asList
  let ls := (← get).lists
  return .string (sep.intercalate ((ls.items r).map (·.display ls)))

/-- A test on the characters of two strings. -/
def onTwoStrings (name : String) (test : List Char → List Char → Bool) : Primitive κ :=
  binary name fun a b => do
    let s ← Eval.expect a.asString
    let t ← Eval.expect b.asString
    return .bool (test s.toList t.toList)

/-- The string library. -/
def stringTable : List (Primitive κ) :=
  [ unary "string?" fun v => return .bool v.asString.isOk,
    variadic "str" 0 concatTexts,
    unary "to-string" textOf,
    onChars "string-length" fun cs => .number (Float.ofNat cs.length),
    binaryOptional "substring" substring,
    onChars "upper" fun cs => ofChars (Text.upper cs),
    onChars "lower" fun cs => ofChars (Text.lower cs),
    onChars "trim" fun cs => ofChars (Text.trim cs),
    binary "split" split,
    binary "join" join,
    onTwoStrings "contains?" fun s part => Text.contains part s,
    onTwoStrings "starts-with?" fun s start => (Text.dropStart? start s).isSome,
    onTwoStrings "ends-with?" fun s tail => (Text.dropStart? tail.reverse s.reverse).isSome ]

end Lisplet.Primitive
