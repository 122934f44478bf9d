import Lisplet.MergeSort
import Lisplet.Primitive
import Lisplet.Slice

/-! # The list library

A function whose name ends in `!` changes the list it is given; all others leave their
arguments alone and return new lists.  Functions that call a function for each element go
through the elements that the list had at the start, whatever the calls do to it. -/

namespace Lisplet.Primitive

variable {κ : Type}

/-- A number that counts something. -/
def countValue (n : Nat) : Value := .number (Float.ofNat n)

/-- The elements of a value that is a list. -/
def itemsOf (v : Value) : Eval κ (List Value) := do
  Eval.items (← Eval.expect v.asList)

/-- The elements of a value that is a list, as an array. -/
def cellOf (v : Value) : Eval κ (Array Value) := do
  Eval.cell (← Eval.expect v.asList)

/-- A question about the elements of one list. -/
def onCell (name : String) (f : Array Value → Value) : Primitive κ :=
  unary name fun v => return f (← cellOf v)

/-- A new list made from the elements of one list. -/
def onItems (name : String) (f : List Value → List Value) : Primitive κ :=
  unary name fun v => do Eval.newList (f (← itemsOf v))

/-- A position in a sequence of `length` elements. -/
def checkIndex (i : Int) (length : Nat) : Eval κ Nat :=
  if 0 ≤ i ∧ i < length then pure i.toNat else Eval.fail (.badIndex i length)

/-- The element at a position. -/
def nth (list index : Value) : Eval κ Value := do
  let xs ← cellOf list
  let i ← checkIndex (← Eval.expect index.asInteger) xs.size
  match xs[i]? with
  | some v => return v
  | none => Eval.fail .missingArgument

/-- The largest number of elements of a range. -/
def maxRange : Nat := 10000000

/-- The number of steps from `start` up to, but not including, `stop`. -/
def rangeSize (start stop step : Float) : Eval κ Nat :=
  if step == 0.0 then Eval.fail (.invalidArgument "range" "step must not be zero")
  else
    match Double.whole? (Double.ceil ((stop - start) / step)) with
    | none => Eval.fail (.invalidArgument "range" "bounds must be finite")
    | some n =>
      if (maxRange : Int) < n then Eval.fail (.invalidArgument "range" "too many elements")
      else pure n.toNat

/-- The numbers from `start` up to, but not including, `stop`. -/
def rangeOf (start stop step : Float) : Eval κ Value := do
  let n ← rangeSize start stop step
  Eval.newCell ((Array.range n).map fun i => .number (start + Float.ofNat i * step))

/-- A range with its start, its end and its step, the last two or the first and the last of
    which may be left out. -/
def range (values : List Value) : Eval κ Value := do
  match ← Eval.numbers values with
  | [stop] => rangeOf 0.0 stop 1.0
  | [start, stop] => rangeOf start stop 1.0
  | [start, stop, step] => rangeOf start stop step
  | _ => Eval.fail .missingArgument

/-- The elements of all lists, one list after the other. -/
def concat (values : List Value) : Eval κ Value := do
  Eval.newList (← values.mapM itemsOf).flatten

/-- The part of a list between two positions; negative ones count from the end. -/
def slice (list start : Value) (stop : Option Value) : Eval κ Value := do
  let xs ← itemsOf list
  let start := Slice.resolve (← Eval.expect start.asInteger) xs.length
  let stop ← match stop with
    | some stop => do pure (Slice.resolve (← Eval.expect stop.asInteger) xs.length)
    | none => pure xs.length
  Eval.newList (Slice.between start stop xs)

/-- The position of the first element that equals a value, or -1. -/
def indexOf (list v : Value) : Eval κ Value := do
  let xs ← itemsOf list
  let ls := (← get).lists
  match xs.findIdx? (·.equal ls v) with
  | some i => return countValue i
  | none => return .number (-1.0)

/-- The results of a function for each element. -/
def map (apply : Applier κ) (f list : Value) : Eval κ Value := do
  let f ← Eval.expect f.asCallable
  let xs ← itemsOf list
  Eval.newList (← xs.mapM fun x => apply f [x])

/-- The elements for which a function gives a true value. -/
def filter (apply : Applier κ) (f list : Value) : Eval κ Value := do
  let f ← Eval.expect f.asCallable
  let xs ← itemsOf list
  let answers ← xs.mapM fun x => apply f [x]
  Eval.newList ((xs.zip answers).filterMap fun (x, a) => if a.truthy then some x else none)

/-- Folds a list from the left with a function. -/
def reduce (apply : Applier κ) (f initial list : Value) : Eval κ Value := do
  let f ← Eval.expect f.asCallable
  let xs ← itemsOf list
  xs.foldlM (fun acc x => apply f [acc, x]) initial

/-- Adds elements at the end of a list. -/
def push : List Value → Eval κ Value
  | list :: values => do
    let r ← Eval.expect list.asList
    Eval.modifyList r (· ++ values.toArray)
    return list
  | [] => Eval.fail .missingArgument

/-- Takes the last element off a list. -/
def pop (list : Value) : Eval κ Value := do
  let r ← Eval.expect list.asList
  let last := (← Eval.cell r).back?
  Eval.modifyList r Array.pop
  return last.getD .null

/-- Replaces the element at a position. -/
def setNth (list index v : Value) : Eval κ Value := do
  let r ← Eval.expect list.asList
  let i ← checkIndex (← Eval.expect index.asInteger) (← Eval.cell r).size
  Eval.modifyList r (·.setIfInBounds i v)
  return v

/-- The natural order of numbers and of strings. -/
def naturalLess : Value → Value → Eval κ Bool
  | .number x, .number y =>
    if x.isNaN || y.isNaN then Eval.fail (.invalidArgument "sort!" "cannot order NaN")
    else return x < y
  | .string s, .string t => return s < t
  | .string _, _ => Eval.fail (.mismatch .notString)
  | _, _ => Eval.fail (.mismatch .notNumber)

/-- The order that a function decides. -/
def lessBy (apply : Applier κ) (f a b : Value) : Eval κ Bool :=
  return (← apply f [a, b]).truthy

/-- Sorts a list by its natural order or by a function that says whether its first argument
    goes before its second.  The list is written to only when its new order is complete. -/
def sort (apply : Applier κ) (list : Value) (less : Option Value) : Eval κ Value := do
  let r ← Eval.expect list.asList
  let xs ← Eval.items r
  let sorted ← match less with
    | none => MergeSort.sort naturalLess xs
    | some less => do
      let less ← Eval.expect less.asCallable
      MergeSort.sort (lessBy apply less) xs
  Eval.modifyList r fun _ => sorted.toArray
  return list

/-- The list library. -/
def listTable : List (Primitive κ) :=
  [ variadic "list" 0 Eval.newList,
    unary "list?" fun v => return .bool v.asList.isOk,
    onCell "length" fun xs => countValue xs.size,
    onCell "empty?" fun xs => .bool xs.isEmpty,
    onCell "first" fun xs => xs[0]?.getD .null,
    onCell "last" fun xs => xs.back?.getD .null,
    onItems "rest" List.tail,
    binary "nth" nth,
    { name := "range", arity := .between 1 3, run := fun _ => range },
    variadic "concat" 0 concat,
    onItems "reverse" List.reverse,
    binaryOptional "slice" slice,
    binary "index-of" indexOf,
    { name := "map", arity := .exactly 2,
      run := fun apply args => match args with
        | [f, list] => map apply f list
        | _ => Eval.fail .missingArgument },
    { name := "filter", arity := .exactly 2,
      run := fun apply args => match args with
        | [f, list] => filter apply f list
        | _ => Eval.fail .missingArgument },
    { name := "reduce", arity := .exactly 3,
      run := fun apply args => match args with
        | [f, initial, list] => reduce apply f initial list
        | _ => Eval.fail .missingArgument },
    variadic "push!" 2 push,
    unary "pop!" pop,
    { name := "set-nth!", arity := .exactly 3,
      run := fun _ args => match args with
        | [list, index, v] => setNth list index v
        | _ => Eval.fail .missingArgument },
    { name := "sort!", arity := .between 1 2,
      run := fun apply args => match args with
        | [list] => sort apply list none
        | [list, less] => sort apply list (some less)
        | _ => Eval.fail .missingArgument } ]

end Lisplet.Primitive
