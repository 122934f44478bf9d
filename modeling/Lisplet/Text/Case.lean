import Lisplet.Text.CaseTable
import Lisplet.Text.Ranges

/-! # Letter case

Full case mapping: a letter may become several characters, and a capital sigma at the end
of a word becomes the final form of the small letter. -/

namespace Lisplet.Text

/-- Where a run maps a code point. -/
def CaseRun.image? (run : CaseRun) (n : Nat) : Option Nat :=
  if run.first ≤ n ∧ n ≤ run.last ∧ (n - run.first) % run.stride = 0 then
    some (n + run.offset).toNat
  else none

/-- The characters that a character is mapped to by a pair of tables. -/
def mapCase (runs : Array CaseRun) (special : List (Nat × List Nat)) (c : Char) : List Char :=
  match special.lookup c.toNat with
  | some ns => ns.map Char.ofNat
  | none =>
    match runs.findSome? (·.image? c.toNat) with
    | some n => [Char.ofNat n]
    | none => [c]

/-- Upper case. -/
def upper (cs : List Char) : List Char := cs.flatMap (mapCase upperRuns upperSpecial)

/-- Whether a character with case comes first, not counting ignorable ones. -/
def leadsToCased (cs : List Char) : Bool :=
  match cs.dropWhile (inRanges caseIgnorableRanges) with
  | c :: _ => inRanges casedRanges c
  | [] => false

/-- Lower case of a text that follows `before`, which is given last character first. -/
def lowerAfter (before : List Char) : List Char → List Char
  | [] => []
  | c :: rest =>
    let here :=
      if c = 'Σ' then
        if leadsToCased before && !leadsToCased rest then ['ς'] else ['σ']
      else mapCase lowerRuns lowerSpecial c
    here ++ lowerAfter (c :: before) rest

/-- Lower case. -/
def lower (cs : List Char) : List Char := lowerAfter [] cs

end Lisplet.Text
