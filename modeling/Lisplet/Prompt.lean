import Lisplet.Session
import Lisplet.Text.Blank

/-! # The prompt

A session that is fed line by line.  Each line that is not blank is remembered and answered;
a line that repeats the one before it is not remembered twice. -/

namespace Lisplet

/-- A session and the lines entered in it, last one first. -/
structure Prompt (κ : Type) where
  session : Session κ
  entered : List String := []

namespace Prompt

variable {κ : Type}

/-- What stands in front of each line. -/
def mark : String := "lisp> "

/-- The width of the screen. -/
def width : Nat := 200

/-- The number of rows of the screen. -/
def height : Nat := 200

/-- Remembers a line unless it repeats the last one. -/
def remember (line : String) (entered : List String) : List String :=
  if entered.head? = some line then entered else line :: entered

/-- Takes a line and gives the answer, if there is one. -/
def enter (p : Prompt κ) (line : String) : Option String × Prompt κ :=
  if line.toList.all Text.isBlank then (none, p)
  else
    let (answer, session) := p.session.reply line
    (some answer, ⟨session, remember line p.entered⟩)

/-- The lines entered, first one first. -/
def history (p : Prompt κ) : List String := p.entered.reverse

/-- Cuts a line of characters into rows of a given width. -/
def wrap (width : Nat) (cs : List Char) : List (List Char) :=
  if _h : 0 < width ∧ width < cs.length then cs.take width :: wrap width (cs.drop width) else [cs]
termination_by cs.length
decreasing_by simp only [List.length_drop]; omega

/-- A row without blanks at its end. -/
def trimRow (cs : List Char) : String :=
  String.ofList (cs.reverse.dropWhile Text.isBlank).reverse

/-- The rows of a text that is written out. -/
def writtenRows (text : String) : List String := (wrap width text.toList).map trimRow

/-- The rows of a line that is typed behind the mark.  A full row moves the place for the
    next character to a row of its own, which stays even if nothing follows. -/
def typedRows (line : String) : List String :=
  let shown := mark ++ line
  writtenRows shown ++ if shown.length % width = 0 then [""] else []

/-- Takes lines one after the other.  The result lists the rows that show each line and its
    answer. -/
def converse (p : Prompt κ) : List String → List String × Prompt κ
  | [] => ([], p)
  | line :: rest =>
    let (answer, p) := p.enter line
    let (rows, p) := p.converse rest
    (typedRows line ++ answer.toList.flatMap writtenRows ++ rows, p)

/-- The rows that are left on the screen once the lines above have moved off it.  The last
    row of the screen is free. -/
def lastRows (rows : List String) : List String := rows.drop (rows.length - (height - 1))

/-- The screen after lines were entered, which ends with an empty prompt. -/
def screen (p : Prompt κ) (lines : List String) : List String × Prompt κ :=
  let (rows, p) := p.converse lines
  (lastRows (rows ++ typedRows ""), p)

end Prompt
end Lisplet
