import Lisplet.Numeral
import Lisplet.Token.Lexer

/-! # Expressions

The expressions of the language and how they are read.  Round and curly brackets both
enclose a call, square brackets enclose a list.

`Reader.feed` takes one token at a time and keeps the brackets that are still open, each
with the expressions read inside it so far.  The first token that cannot be accepted
decides the error. -/

namespace Lisplet

/-- An expression. -/
inductive Expr where
  | number (x : Float)
  | string (s : String)
  | bool (b : Bool)
  | null
  | identifier (name : String)
  /-- A call; the first item is what is called. -/
  | call (items : List Expr)
  /-- A list literal. -/
  | list (items : List Expr)
deriving Repr

/-- Why a text cannot be read. -/
inductive ReadError where
  /-- A closing bracket with nothing open. -/
  | unexpectedToken (found : Token)
  /-- A closing bracket of another kind than the innermost open one. -/
  | mismatchedDelimiter (expected found : Bracket)
  /-- The text ends before every bracket is closed. -/
  | unexpectedEnd
  /-- A word that looks like a number but is none. -/
  | malformedNumber (word : String)
deriving DecidableEq, Repr

/-- What went wrong, in words. -/
def ReadError.message : ReadError → String
  | unexpectedToken t => "Unexpected token " ++ t.text
  | mismatchedDelimiter expected found =>
    "Mismatched delimiter: expected " ++ expected.closer.toString ++ ", found " ++
      found.closer.toString
  | unexpectedEnd => "Unexpected end of input"
  | malformedNumber word => "Malformed number " ++ word

namespace Expr

/-- The expression enclosed by a pair of brackets. -/
def enclosed : Bracket → List Expr → Expr
  | .square, items => list items
  | _, items => call items

/-- The expression that a word is: a number if it looks like one, else one of the three
    constants, else an identifier. -/
def ofWord (word : String) : Except ReadError Expr :=
  if Numeral.isNumeral word.toList then
    match Numeral.plain? (Numeral.normalize word.toList) with
    | some x => .ok (number x)
    | none => .error (.malformedNumber word)
  else if word = "true" then .ok (bool true)
  else if word = "false" then .ok (bool false)
  else if word = "null" then .ok null
  else .ok (identifier word)

end Expr

/-- A bracket that is still open, with the expressions inside it so far, last one first. -/
structure Reader.Level where
  bracket : Bracket
  items : List Expr

/-- The open brackets, innermost first, and the finished expressions outside all of them,
    last one first. -/
structure Reader where
  levels : List Reader.Level := []
  forms : List Expr := []

namespace Reader

/-- Adds a finished expression where the reader stands. -/
def add (r : Reader) (e : Expr) : Reader :=
  match r.levels with
  | [] => { r with forms := e :: r.forms }
  | top :: rest => { r with levels := { top with items := e :: top.items } :: rest }

/-- Takes one more token. -/
def feed (r : Reader) : Token → Except ReadError Reader
  | .opening b => .ok { r with levels := ⟨b, []⟩ :: r.levels }
  | .closing b =>
    match r.levels with
    | [] => .error (.unexpectedToken (.closing b))
    | top :: rest =>
      if top.bracket = b then
        .ok ({ r with levels := rest }.add (Expr.enclosed b top.items.reverse))
      else .error (.mismatchedDelimiter top.bracket b)
  | .string s => .ok (r.add (.string s))
  | .word w => (Expr.ofWord w).map r.add

/-- The expressions of a text that ends here. -/
def finish (r : Reader) : Except ReadError (List Expr) :=
  if r.levels.isEmpty then .ok r.forms.reverse else .error .unexpectedEnd

end Reader

namespace Expr

/-- Reads a sequence of tokens as expressions. -/
def ofTokens (tokens : List Token) : Except ReadError (List Expr) := do
  (← tokens.foldlM Reader.feed {}).finish

/-- Reads a text as expressions. -/
def parse (source : String) : Except ReadError (List Expr) :=
  ofTokens (Token.scan source)

end Expr
end Lisplet
