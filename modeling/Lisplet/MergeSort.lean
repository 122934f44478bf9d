/-! # Merge sort with a comparison that has effects

A stable merge sort over any monad.  The comparison `less` is only ever asked whether an
element of the right half goes before one of the left half, so elements that are equally
good keep their order, and whatever `less` answers the result has the same elements. -/

namespace Lisplet.MergeSort

variable {m : Type → Type} [Monad m] {α : Type}

/-- Merges two lists behind the elements of `done`, which are given last one first.  An
    element of the right list goes first only if it is less. -/
@[specialize]
def mergeOnto (less : α → α → m Bool) (done left right : List α) : m (List α) :=
  match left, right with
  | [], ys => pure (done.reverseAux ys)
  | xs, [] => pure (done.reverseAux xs)
  | x :: xs, y :: ys => do
    if ← less y x then mergeOnto less (y :: done) (x :: xs) ys
    else mergeOnto less (x :: done) xs (y :: ys)
termination_by left.length + right.length

/-- Merges two lists. -/
@[inline]
def merge (less : α → α → m Bool) (left right : List α) : m (List α) :=
  mergeOnto less [] left right

/-- Sorts a list: both halves, the left one first, and then their merge. -/
@[specialize]
def sort (less : α → α → m Bool) (xs : List α) : m (List α) :=
  if _h : xs.length ≤ 1 then pure xs
  else do
    let left ← sort less (xs.take (xs.length / 2))
    let right ← sort less (xs.drop (xs.length / 2))
    merge less left right
termination_by xs.length
decreasing_by
  · simp only [List.length_take]
    omega
  · simp only [List.length_drop]
    omega

end Lisplet.MergeSort
