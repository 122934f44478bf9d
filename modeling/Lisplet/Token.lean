/-! # Tokens

Source text is cut into brackets, string literals and words. -/

namespace Lisplet

/-- The three kinds of brackets. -/
inductive Bracket where
  | round
  | square
  | curly
deriving DecidableEq, Repr

namespace Bracket

/-- The character that opens the bracket. -/
def opener : Bracket → Char
  | round => '('
  | square => '['
  | curly => '\x7b'

/-- The character that closes the bracket. -/
def closer : Bracket → Char
  | round => ')'
  | square => ']'
  | curly => '\x7d'

end Bracket

/-- A piece of source text.  A word is any run of characters that have no meaning of
    their own: numerals, names, `true`, `false` and `null`. -/
inductive Token where
  | opening (bracket : Bracket)
  | closing (bracket : Bracket)
  | string (content : String)
  | word (chars : String)
deriving DecidableEq, Repr

namespace Token

/-- The bracket token that a character is, if it is one. -/
def ofBracket? (c : Char) : Option Token :=
  if c = '(' then some (opening .round)
  else if c = '[' then some (opening .square)
  else if c = '\x7b' then some (opening .curly)
  else if c = ')' then some (closing .round)
  else if c = ']' then some (closing .square)
  else if c = '\x7d' then some (closing .curly)
  else none

/-- The token as it stands in source text. -/
def text : Token → String
  | opening b => b.opener.toString
  | closing b => b.closer.toString
  | string s => "\"" ++ s ++ "\""
  | word cs => cs

end Token
end Lisplet
