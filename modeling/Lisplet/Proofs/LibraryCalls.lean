import Lisplet.Proofs.DirectCalls
import Lisplet.Proofs.LibraryOrder

/-! # Calls of library functions

A library never has two functions of one name.  So a name that belongs to a library means the
function that the library has under it, and a call of that function comes to what the function
comes to when it is run.

* `Machine.withList`                        the machine that a function leaves which makes a list
* `Library.eq_of_name`                      a library tells its functions apart by their names
* `Registry.concludes_eval_primitive_iff`   a call by name, in terms of a call with values
* `Registry.concludes_primitive_iff`        a call with values, in terms of the run that it makes
* `Registry.concludes_primitive_ok`         the same for a run that ends with a value -/

namespace Lisplet

open Eval

variable {κ : Type}

/-- Machines that differ in their journals at most. -/
theorem Machine.exists_eq_of_silent {m m₀ : Machine κ} (h : m₀.silent = m.silent) :
    ∃ journal, m₀ = { m with journal } :=
  ⟨m₀.journal, congrArg (fun k : Machine κ => { k with journal := m₀.journal }) h⟩

/-- The machine with one more list, apart from the journal. -/
def Machine.withList (m : Machine κ) (xs : List Value) : Machine κ :=
  { m.silent with lists := m.lists.alloc xs.toArray }

/-- The new list has the given elements. -/
@[simp] theorem Machine.items_withList_next (m : Machine κ) (xs : List Value) :
    (m.withList xs).lists.items m.lists.next = xs := by
  simp [withList, Lists.items]

/-- The lists there are stay as they are. -/
theorem Machine.items_withList_of_lt {m : Machine κ} {r : ListRef} (h : r.index < m.lists.size)
    (xs : List Value) : (m.withList xs).lists.items r = m.lists.items r := by
  simp [withList, Lists.items, Lists.cell_alloc_of_lt h]

/-- A library tells its functions apart by their names. -/
theorem Library.eq_of_name {l : Library} {p q : Primitive κ} (hp : p ∈ l.primitives)
    (hq : q ∈ l.primitives) (hname : p.name = q.name) : p = q := by
  have hnames : (l.primitives : List (Primitive κ)).map Primitive.name = l.primitiveNames := by
    cases l <;> rfl
  -- the names do not depend on the host, so they can be computed
  have hnodup : l.primitiveNames.Nodup := by
    cases l <;> decide +kernel
  exact List.inj_on_of_nodup_map (hnames ▸ hnodup) hp hq hname

namespace Registry

variable {hosts : List (String × HostFunction κ)} {libraries : List Library} {l : Library}
  {p : Primitive κ} (hp : p ∈ l.primitives)
  (howner : (ofLibraries hosts libraries).owner? p.name = some l)
include hp howner

/-- The name of a function means the function, if it belongs to the library. -/
private theorem exists_find?_of_owner :
    ∃ entry, (ofLibraries hosts libraries).find? p.name = some entry ∧
    entry.function = .primitive p := by
  obtain ⟨entry, hfind, rfl⟩ := Option.map_eq_some_iff.1 howner
  have hlibrary : entry.library ≠ .ext := by
    -- the library of the host has no functions of its own
    intro hext
    rw [hext] at hp
    cases hp
  obtain ⟨q, hq, hname, hfunction⟩ := exists_primitive_of_find? hfind hlibrary
  rw [Library.eq_of_name hq hp hname] at hfunction
  exact ⟨entry, hfind, hfunction⟩

/-- A call by name evaluates the arguments and calls the function with their values. -/
theorem concludes_eval_primitive_iff (hcircuit : p.shortCircuit = none)
    (hform : Keyword.ofName? p.name = none) {scope : FrameRef} {m : Machine κ}
    (hunbound : m.scopes.get? scope p.name = none) (es : List Expr)
    (o : Except Unwind Value × Machine κ) :
    (ofLibraries hosts libraries).Concludes (·.eval (.call (.identifier p.name :: es)) scope) m o ↔
      (ofLibraries hosts libraries).Concludes
        (fun ev => ev.sequence es scope >>= ev.apply (.builtin p.name)) m o := by
  obtain ⟨entry, hfind, hfunction⟩ := exists_find?_of_owner hp howner
  refine concludes_eval_iff_apply hfind hform hunbound ?_ es o
  rw [Entry.shortCircuit, hfunction]
  exact hcircuit

variable {args : List Value} (hlen : p.arity.contains args.length = true) {m : Machine κ}
include hlen

/-- A call of a function that calls no others comes to what its run comes to, apart from the name of
    the function in the cause of a failure. -/
theorem concludes_primitive_iff {last o : Except Unwind Value × Machine κ}
    (hkept : ∀ u, last.1 = .error u → ¬ u.IsExhausted)
    (hrun : ∀ apply journal, ((p.run apply args).outcome { m with journal }).map
      (Except.mapError (Unwind.named p.name)) id = last) :
    (ofLibraries hosts libraries).Concludes (·.apply (.builtin p.name) args) m o ↔ o = last := by
  obtain ⟨entry, hfind, hfunction⟩ := exists_find?_of_owner hp howner
  rw [concludes_apply_builtin_iff hfind]
  refine concludes_iff_of_forall_outcome hkept fun ev => ?_
  obtain ⟨m₀, hm₀, hcall⟩ := p.exists_outcome_call ev.apply hlen m
  obtain ⟨journal, rfl⟩ := Machine.exists_eq_of_silent hm₀
  simp only [Entry.call, hfunction, hcall, hrun]

/-- The same for a run that ends with a value, which names no function. -/
theorem concludes_primitive_ok {v : Value} {s : Machine κ}
    (hrun : ∀ apply journal, (p.run apply args).outcome { m with journal } = (.ok v, s)) :
    (ofLibraries hosts libraries).Concludes (·.apply (.builtin p.name) args) m (.ok v, s) := by
  have hkept : ∀ u, (Except.ok v : Except Unwind Value) = .error u → ¬ u.IsExhausted := nofun
  refine (concludes_primitive_iff hp howner hlen hkept fun apply journal => ?_).2 rfl
  rw [hrun]
  rfl

end Registry
end Lisplet
