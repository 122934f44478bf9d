import Lisplet.Token

/-! # Cutting text into tokens

One pass over the characters.  The lexer is a machine that is fed a character at a time
by `Lexer.feed`, so the state after a text `s ++ t` is the state after `s`, fed with `t`.

A comment runs from a semicolon to the end of its line.  A string literal has no escapes
and runs to the next quote.  A comment or literal that the text does not end is dropped. -/

namespace Lisplet

/-- What the lexer is in the middle of. -/
inductive Lexer.Mode where
  /-- Between tokens, or inside a word whose characters so far are given last one first. -/
  | word (chars : List Char)
  /-- Inside a string literal whose characters so far are given last one first. -/
  | string (chars : List Char)
  /-- Inside a comment. -/
  | comment
deriving DecidableEq, Repr

/-- The tokens found so far, last one first, and what is still unfinished. -/
structure Lexer where
  found : List Token := []
  mode : Lexer.Mode := .word []
deriving DecidableEq, Repr

namespace Lexer

/-- The characters that separate tokens without being one. -/
def isBlank (c : Char) : Bool :=
  c = ' ' || c = '\t' || c = '\r' || c = '\n'

/-- The tokens found so far, including a word that ends here. -/
def flushed (found : List Token) (chars : List Char) : List Token :=
  if chars.isEmpty then found else .word (String.ofList chars.reverse) :: found

/-- Takes one more character. -/
def feed (l : Lexer) (c : Char) : Lexer :=
  match l.mode with
  | .comment => if c = '\n' then { l with mode := .word [] } else l
  | .string chars =>
    if c = '"' then ⟨.string (String.ofList chars.reverse) :: l.found, .word []⟩
    else { l with mode := .string (c :: chars) }
  | .word chars =>
    if isBlank c then ⟨flushed l.found chars, .word []⟩
    else if c = ';' then ⟨flushed l.found chars, .comment⟩
    else if c = '"' then ⟨flushed l.found chars, .string []⟩
    else
      match Token.ofBracket? c with
      | some t => ⟨t :: flushed l.found chars, .word []⟩
      | none => { l with mode := .word (c :: chars) }

/-- The tokens of a text that ends here. -/
def finish (l : Lexer) : List Token :=
  match l.mode with
  | .word chars => (flushed l.found chars).reverse
  | _ => l.found.reverse

end Lexer

/-- The tokens of a text. -/
def Token.scan (source : String) : List Token :=
  (source.toList.foldl Lexer.feed {}).finish

end Lisplet
