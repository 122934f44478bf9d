import Lisplet.Value

/-! # List storages

All lists live here, each in a storage of its own.  Storages are only ever added, so a
`ListRef` once handed out stays valid.  The elements of a storage may name any storage,
itself included, so lists can form cycles.

* `items`       the elements of a storage
* `alloc`       a new storage
* `replace`     new elements for an existing storage
* `unvisited`   counts what a walk that never enters a storage twice has left to enter -/

namespace Lisplet

/-- The storages of all lists. -/
structure Lists where
  cells : Array (Array Value) := #[]
deriving DecidableEq, Repr

namespace Lists

/-- The number of storages. -/
def size (ls : Lists) : Nat := ls.cells.size

/-- The elements of a storage, as an array. -/
def cell (ls : Lists) (r : ListRef) : Array Value := ls.cells[r.index]?.getD #[]

/-- The elements of a storage. -/
def items (ls : Lists) (r : ListRef) : List Value := (ls.cell r).toList

/-- The storage that the next allocation hands out. -/
def next (ls : Lists) : ListRef := ⟨ls.size⟩

/-- Adds a storage, which is then called `ls.next`. -/
def alloc (ls : Lists) (elements : Array Value) : Lists := ⟨ls.cells.push elements⟩

/-- Changes the elements of an existing storage. -/
def modify (ls : Lists) (r : ListRef) (f : Array Value → Array Value) : Lists :=
  ⟨ls.cells.modify r.index f⟩

/-- Gives an existing storage new elements. -/
def replace (ls : Lists) (r : ListRef) (elements : Array Value) : Lists :=
  ls.modify r fun _ => elements

/-! ## What the operations do to a storage -/

@[simp] theorem size_alloc (ls : Lists) (xs : Array Value) : (ls.alloc xs).size = ls.size + 1 := by
  simp [alloc, size]

@[simp] theorem size_modify (ls : Lists) (r : ListRef) (f : Array Value → Array Value) :
    (ls.modify r f).size = ls.size := by
  simp [modify, size]

/-- A new storage holds the elements it was made with. -/
@[simp] theorem cell_alloc_next (ls : Lists) (xs : Array Value) :
    (ls.alloc xs).cell ls.next = xs := by
  simp [alloc, cell, next, size]

/-- An allocation leaves the existing storages alone. -/
theorem cell_alloc_of_lt {ls : Lists} {r : ListRef} (h : r.index < ls.size) (xs : Array Value) :
    (ls.alloc xs).cell r = ls.cell r := by
  simp only [size] at h
  simp [alloc, cell, Array.getElem?_push, Nat.ne_of_lt h]

/-- A change is seen in the storage it is made to. -/
theorem cell_modify_self {ls : Lists} {r : ListRef} (h : r.index < ls.size)
    (f : Array Value → Array Value) : (ls.modify r f).cell r = f (ls.cell r) := by
  simp only [size] at h
  simp [modify, cell, Array.getElem_modify, h]

/-- A change is not seen in any other storage. -/
theorem cell_modify_of_ne (ls : Lists) {r s : ListRef} (h : r ≠ s)
    (f : Array Value → Array Value) : (ls.modify r f).cell s = ls.cell s := by
  have hne : r.index ≠ s.index := fun he => h (by cases r; cases s; simp_all)
  simp [modify, cell, Array.getElem?_modify, hne]

/-- A storage that holds something exists. -/
theorem index_lt_of_mem_cell {ls : Lists} {r : ListRef} {v : Value} (h : v ∈ ls.cell r) :
    r.index < ls.size := by
  refine Nat.lt_of_not_le fun hout => ?_
  have hempty : ls.cell r = #[] := by
    rw [cell, Array.getElem?_eq_none hout, Option.getD_none]
  rw [hempty] at h
  exact Array.not_mem_empty v h

/-- After an allocation a storage holds what it held, or what the new one was made with. -/
theorem mem_cell_alloc {ls : Lists} {xs : Array Value} {r : ListRef} {v : Value}
    (h : v ∈ (ls.alloc xs).cell r) : v ∈ ls.cell r ∨ v ∈ xs := by
  by_cases hlt : r.index < ls.size
  · rw [cell_alloc_of_lt hlt] at h
    exact .inl h
  · have hstored := index_lt_of_mem_cell h
    rw [size_alloc] at hstored
    have hindex : r.index = ls.size := by omega
    have hnext : r = ls.next := congrArg ListRef.mk hindex
    rw [hnext, cell_alloc_next] at h
    exact .inr h

/-- After a change a storage holds what it held, or what the changed one holds now. -/
theorem mem_cell_modify {ls : Lists} {r s : ListRef} {f : Array Value → Array Value} {v : Value}
    (h : v ∈ (ls.modify r f).cell s) : v ∈ ls.cell s ∨ v ∈ f (ls.cell r) := by
  by_cases hrs : r = s
  · subst hrs
    have hstored := index_lt_of_mem_cell h
    rw [size_modify] at hstored
    rw [cell_modify_self hstored] at h
    exact .inr h
  · rw [cell_modify_of_ne ls hrs] at h
    exact .inl h

/-! ## Walks -/

/-- The existing storages. -/
def refs (ls : Lists) : List ListRef := (List.range ls.size).map ListRef.mk

/-- All pairs of existing storages. -/
def refPairs (ls : Lists) : List (ListRef × ListRef) :=
  ls.refs.flatMap fun r => ls.refs.map fun s => (r, s)

theorem mem_refs {ls : Lists} {r : ListRef} : r ∈ ls.refs ↔ r.index < ls.size := by
  simp only [refs, List.mem_map, List.mem_range]
  exact ⟨fun ⟨i, hi, h⟩ => h ▸ hi, fun h => ⟨r.index, h, rfl⟩⟩

theorem mem_refPairs {ls : Lists} {r s : ListRef} :
    (r, s) ∈ ls.refPairs ↔ r.index < ls.size ∧ s.index < ls.size := by
  simp [refPairs, mem_refs]

end Lists

/-- How many members of `all` are not in `visited`. -/
def unvisited [DecidableEq α] (all visited : List α) : Nat :=
  all.countP fun a => decide (a ∉ visited)

theorem unvisited_cons [DecidableEq α] (x : α) (xs visited : List α) :
    unvisited (x :: xs) visited = unvisited xs visited + if x ∈ visited then 0 else 1 := by
  by_cases h : x ∈ visited <;> simp [unvisited, h]

theorem unvisited_cons_le [DecidableEq α] (all visited : List α) (a : α) :
    unvisited all (a :: visited) ≤ unvisited all visited :=
  List.countP_mono_left fun x _ hx => by
    simp only [List.mem_cons, not_or, decide_eq_true_eq] at hx ⊢
    exact hx.2

/-- Visiting a new member leaves fewer to visit. -/
theorem unvisited_cons_lt [DecidableEq α] {all visited : List α} {a : α}
    (h : a ∈ all) (ha : a ∉ visited) : unvisited all (a :: visited) < unvisited all visited := by
  induction all with
  | nil => cases h
  | cons x xs ih =>
    rw [unvisited_cons, unvisited_cons]
    by_cases hxa : x = a
    · have := unvisited_cons_le xs visited a
      simp only [hxa, List.mem_cons, true_or, if_true, ha, if_false]
      omega
    · have := ih (by simpa [Ne.symm hxa] using h)
      simp only [List.mem_cons, hxa, false_or]
      omega

end Lisplet
