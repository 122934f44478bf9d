/-! # Pieces of text

Searching, splitting and joining, on lists of characters.  Matches of a separator are
found from the left and do not overlap. -/

namespace Lisplet.Text

/-- What follows `start` at the beginning of `cs`, if `cs` starts with it. -/
def dropStart? (start cs : List Char) : Option (List Char) :=
  match start, cs with
  | [], cs => some cs
  | _, [] => none
  | a :: start, c :: cs => if a = c then dropStart? start cs else none

theorem length_of_dropStart? {start cs rest : List Char} (h : dropStart? start cs = some rest) :
    cs.length = start.length + rest.length := by
  induction start generalizing cs with
  | nil => simp_all [dropStart?]
  | cons a start ih =>
    cases cs with
    | nil => simp [dropStart?] at h
    | cons c cs =>
      simp only [dropStart?] at h
      split at h
      · have := ih h
        simp only [List.length_cons]
        omega
      · cases h

/-- Whether `part` stands somewhere in `cs`. -/
def contains (part cs : List Char) : Bool :=
  (dropStart? part cs).isSome ||
    match cs with
    | [] => false
    | _ :: rest => contains part rest

/-- The pieces of `cs` between the matches of the separator `a :: sep`.  `piece` holds the
    characters since the last match, last one first. -/
def splitAfter (a : Char) (sep piece cs : List Char) : List (List Char) :=
  match _h : dropStart? (a :: sep) cs with
  | some rest => piece.reverse :: splitAfter a sep [] rest
  | none =>
    match cs with
    | [] => [piece.reverse]
    | c :: rest => splitAfter a sep (c :: piece) rest
termination_by cs.length
decreasing_by
  · have := length_of_dropStart? _h
    simp only [List.length_cons] at this
    omega
  · simp

/-- The pieces of `cs` between the matches of `sep`; an empty separator stands between any
    two characters. -/
def split (sep cs : List Char) : List (List Char) :=
  match sep with
  | [] => cs.map fun c => [c]
  | a :: sep => splitAfter a sep [] cs

end Lisplet.Text
