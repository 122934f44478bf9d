/-! # Arities

How many arguments a function or special form takes. -/

namespace Lisplet

/-- The numbers of arguments that are accepted. -/
inductive Arity where
  | between (least most : Nat)
  | atLeast (least : Nat)
deriving DecidableEq, Repr

namespace Arity

/-- One number of arguments only. -/
def exactly (n : Nat) : Arity := between n n

/-- Whether `n` arguments are accepted. -/
def contains : Arity → Nat → Bool
  | between least most, n => least ≤ n && n ≤ most
  | atLeast least, n => least ≤ n

/-- The accepted numbers, in words. -/
def text : Arity → String
  | between least most =>
    if least = most then "exactly " ++ toString least
    else "from " ++ toString least ++ " to " ++ toString most
  | atLeast least => "at least " ++ toString least

/-- What is said when `name` was given `got` arguments. -/
def complaint (expected : Arity) (name : String) (got : Nat) : String :=
  name ++ " expected " ++ expected.text ++ " arguments, got " ++ toString got

end Arity
end Lisplet
