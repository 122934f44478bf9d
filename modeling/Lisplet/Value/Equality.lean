import Lisplet.Lists

/-! # Equality of values

Numbers compare as doubles, closures by their code, library functions by name.  Lists
compare by their elements.  Two lists that share their storage are equal, and so are two
lists whose comparison is already under way, which is what makes the comparison of cyclic
lists end: every step into a pair of storages uses up one pair. -/

namespace Lisplet.Value

/-- Equality of values that are not both lists. -/
def sameLeaf : Value → Value → Bool
  | null, null => true
  | number x, number y => x == y
  | bool a, bool b => a == b
  | string s, string t => s == t
  | closure _ c, closure _ d => c == d
  | builtin f, builtin g => f == g
  | _, _ => false

/-- Equality while the comparisons of the pairs in `underway` are not finished. -/
def equalWithin (ls : Lists) (underway : List (ListRef × ListRef)) (a b : Value) : Bool :=
  match a, b with
  | list r, list s =>
    if _h : r = s ∨ (r, s) ∈ underway then true
    else if _h' : r.index < ls.size ∧ s.index < ls.size then
      (ls.items r).length == (ls.items s).length &&
        ((ls.items r).zip (ls.items s)).all fun (x, y) =>
          equalWithin ls ((r, s) :: underway) x y
    else (ls.items r).isEmpty && (ls.items s).isEmpty
  | a, b => sameLeaf a b
termination_by unvisited ls.refPairs underway
decreasing_by
  exact unvisited_cons_lt (Lists.mem_refPairs.2 _h') fun hm => _h (.inr hm)

/-- Equality of values. -/
def equal (ls : Lists) (a b : Value) : Bool := equalWithin ls [] a b

end Lisplet.Value
