import Lisplet.Proofs.Evaluation
import Lisplet.Proofs.NamingRule
import Lisplet.Proofs.NaturalOrder
import Lisplet.Proofs.Ownership

/-! # Sorting lists

The function `sort!` reads the elements of its list once, asks the function it is given about pairs
of them, and writes the elements back in their new order.  What the function does on the way, and
whether it answers sensibly, is its own affair: the elements that are written are those that were
read, and if the function fails, nothing is written at all.

Without a function, the elements are compared by their natural order, and the sort fails unless
there is one between any two of them.

* `Primitive.SortsBy`               a sort in terms of its comparisons
* `Applier.askAll`                  calls of the function with one pair after the other
* `Primitive.sort_orders_stably`    with answers that agree with a strict weak order, the list is
                                    left in its stable order
* `Primitive.sort_keeps_elements`   with any answers, nothing is lost or written early
* `Primitive.sort_natural_iff`      the natural order, and the function `<` -/

namespace Lisplet

open Eval

variable {κ : Type}

/-! ## Calls and runs -/

/-- The lists may be changed on both sides. -/
private theorem Machine.silent_with_lists {m m' : Machine κ} (h : m'.silent = m.silent)
    (ls : Lists) : { m' with lists := ls }.silent = { m with lists := ls }.silent :=
  congrArg (fun m : Machine κ => { m with lists := ls }) h

/-- A cause that can be reported as it is names its function already. -/
theorem Unwind.Settled.named_eq {S : Signal → Prop} {u : Unwind} (h : u.Settled S)
    (function : String) : u.named function = u := by
  match u, h with
  | .signal _, _ => rfl
  | .failure e, h =>
    cases e with
    | mismatch cause => exact absurd h (by simp [Settled, Error.IsSettled])
    | _ => rfl

namespace Eval

variable {α : Type} {x : Eval κ α} {m : Machine κ} {post : α → Machine κ → Prop}
  {exit : Unwind → Machine κ → Prop}

/-- The evaluation ends with a value. -/
def Returns (x : Eval κ α) (m : Machine κ) (post : α → Machine κ → Prop) : Prop :=
  x.Ends m post fun _ _ => False

/-- An evaluation that ends with a value has one. -/
private theorem Returns.exists_ok (h : x.Returns m post) : ∃ a m', x m = .ok a m' ∧ post a m' := by
  unfold Returns Ends at h
  cases hx : x m with
  | ok a m' =>
    rw [hx] at h
    exact ⟨a, m', rfl, h⟩
  | error u m' =>
    rw [hx] at h
    exact h.elim

end Eval

namespace Primitive

/-- The primitive of the name `sort!`. -/
private theorem eq_sort_of_name {p : Primitive κ}
    (hp : p ∈ (Library.list.primitives : List (Primitive κ))) (hname : p.name = "sort!") :
    p.arity = .between 1 2 ∧ ∀ apply list, p.run apply [list] = sort apply list none ∧
      ∀ less, p.run apply [list, less] = sort apply list (some less) := by
  revert p
  -- all others are out because of their names
  simp [Library.primitives, listTable, variadic, binary, unary, onCell, onItems, binaryOptional]

/-! ### Runs of the sort -/

section Runs

variable {apply : Applier κ} {r : ListRef} {m : Machine κ}

/-- A function is accepted as one. -/
theorem asCallable_of_isCallable {f : Value} (h : f.isCallable = true) : f.asCallable = .ok f := by
  rw [Value.asCallable, if_pos h]

/-- The elements are read once and written once, with comparisons in between. -/
def SortsBy (x : Eval κ Value) (r : ListRef) (less : Value → Value → Eval κ Bool) : Prop :=
  ∀ m post exit, x.Ends m post exit ↔ (MergeSort.sort less (m.lists.items r)).Ends m
    (fun sorted m' => post (.list r) { m' with lists := m'.lists.replace r sorted.toArray }) exit

section Named

variable {p : Primitive κ} (hp : p ∈ (Library.list.primitives : List (Primitive κ)))
  (hname : p.name = "sort!") (apply : Applier κ) (r : ListRef)
include hp hname

/-- With a function, the comparisons are calls of it. -/
private theorem run_sortsBy {f : Value} (hf : f.isCallable = true) :
    p.arity.contains [.list r, f].length = true ∧
      SortsBy (p.run apply [.list r, f]) r (lessBy apply f) := by
  obtain ⟨harity, hrun⟩ := eq_sort_of_name hp hname
  rw [harity, (hrun apply (.list r)).2]
  refine ⟨rfl, fun m post exit => ?_⟩
  simp only [sort, Value.asList, asCallable_of_isCallable hf, expect, pure_bind, items, modifyList,
    bind_assoc, ends_bind, ends_get, ends_modify, ends_pure, Lists.replace]

/-- Without one, they go by the natural order. -/
private theorem run_sortsBy_natural :
    p.arity.contains [Value.list r].length = true ∧
      SortsBy (p.run apply [.list r]) r naturalLess := by
  obtain ⟨harity, hrun⟩ := eq_sort_of_name hp hname
  rw [harity, (hrun apply (.list r)).1]
  refine ⟨rfl, fun m post exit => ?_⟩
  simp only [sort, Value.asList, expect, pure_bind, items, modifyList, bind_assoc, ends_bind,
    ends_get, ends_modify, ends_pure, Lists.replace]

end Named

/-- A comparison is a call, of which only the truth of the value is kept. -/
private theorem ends_lessBy {f a b : Value} {post : Bool → Machine κ → Prop}
    {exit : Unwind → Machine κ → Prop} : (lessBy apply f a b).Ends m post exit ↔
      (apply f [a, b]).Ends m (fun v m' => post v.truthy m') exit := by
  simp only [lessBy, ends_bind, ends_pure]

/-- What a call of `sort!` does, in terms of what its comparisons do: it returns the list, and all
    that it does itself is to write the elements back at the end. -/
theorem SortsBy.exists_ends_call {p : Primitive κ} {args : List Value}
    {less : Value → Value → Eval κ Bool} (h : SortsBy (p.run apply args) r less)
    (hlen : p.arity.contains args.length = true) (m : Machine κ) :
    ∃ m₀ : Machine κ, m₀.silent = m.silent ∧ ∀ {post exit},
      (MergeSort.sort less (m.lists.items r)).Ends m₀ post exit → (p.call apply args).Ends m
        (fun v m' => v = .list r ∧ ∃ sorted m₁, post sorted m₁ ∧
          m'.silent = { m₁ with lists := m₁.lists.replace r sorted.toArray }.silent)
        fun u m' => ∃ u₁ m₁, exit u₁ m₁ ∧ u = u₁.named p.name ∧ m'.silent = m₁.silent := by
  obtain ⟨m₀, hm₀, hcall⟩ := Primitive.exists_ends_call hlen m
  refine ⟨m₀, hm₀, fun {post exit} hsort => ?_⟩
  have hrun : (p.run apply args).Ends m₀ (fun v m' => v = .list r ∧ ∃ sorted m₁, post sorted m₁ ∧
      m' = { m₁ with lists := m₁.lists.replace r sorted.toArray }) exit := by
    rw [h, Machine.lists_eq_of_silent hm₀]
    exact hsort.imp_post fun sorted m₁ hsorted => ⟨rfl, sorted, m₁, hsorted, rfl⟩
  refine (hcall hrun).imp_post ?_
  rintro v m' ⟨_, ⟨hv, sorted, m₁, hsorted, rfl⟩, hm'⟩
  exact ⟨hv, sorted, m₁, hsorted, hm'⟩

end Runs

/-! ### The function `<` -/

/-- The primitive of the name `<`. -/
private theorem eq_comparison_of_name {p : Primitive κ}
    (hp : p ∈ (Library.math.primitives : List (Primitive κ))) (hname : p.name = "<") :
    p = comparison "<" Ordering.isLT := by
  revert p
  simp [Library.primitives, mathTable, comparison, binary, onNumbers, onNumber, variadic, unary]

/-- The function `<` tells which value goes before. -/
private theorem call_comparison_returns {a b : Value} (h : a.Comparable b) (apply : Applier κ)
    (m : Machine κ) : ((comparison "<" Ordering.isLT).call apply [a, b]).Returns m
      fun v m' => v = .bool (a.before b) ∧ m'.silent = m.silent := by
  obtain ⟨order, horder, hbefore⟩ := exists_compareValues_eq h
  have hlen : (comparison "<" Ordering.isLT : Primitive κ).arity.contains [a, b].length = true :=
    rfl
  obtain ⟨m₀, hm₀, hcall⟩ := Primitive.exists_ends_call hlen m
  have hrun : ((comparison "<" Ordering.isLT).run apply [a, b]).Returns m₀
      fun v m' => v = .bool (a.before b) ∧ m' = m₀ := by
    simp [Returns, comparison, binary, horder, hbefore, expect]
  refine (hcall hrun).imp ?_ ?_
  · rintro v m' ⟨_, ⟨hv, rfl⟩, hm'⟩
    exact ⟨hv, hm'.trans hm₀⟩
  · rintro _ _ ⟨_, _, hfalse, -⟩
    exact hfalse

/-- Where the name `<` belongs to the math library, the function gives the natural order of values
    that have one, and changes nothing. -/
private theorem apply_less_returns {hosts : List (String × HostFunction κ)}
    {libraries : List Library}
    (howner : (Registry.ofLibraries hosts libraries).owner? "<" = some .math) (fuel : Nat)
    {a b : Value} (h : a.Comparable b) (m : Machine κ) :
    ((Evaluator.withFuel (.ofLibraries hosts libraries) (fuel + 1)).apply (.builtin "<")
      [a, b]).Returns m fun v m' => v = .bool (a.before b) ∧ m'.silent = m.silent := by
  obtain ⟨e, he, hmath⟩ := Option.map_eq_some_iff.1 howner
  have hentry := List.mem_of_find?_eq_some (Registry.mem_libraries_of_find? he).2
  rw [hmath] at hentry
  obtain ⟨p, hp, rfl⟩ := List.mem_map.1 hentry
  have hname : p.name = "<" := Registry.name_of_find? he
  have hp := eq_comparison_of_name hp hname
  simp only [Evaluator.withFuel, Evaluator.applyStep, he, Entry.call, hp]
  exact call_comparison_returns h _ m

end Primitive

/-- A list that has not been dropped since holds what is written to it, if that is a rearrangement
    of what it held.  There is nothing to write to a list that does not exist. -/
private theorem Lists.items_replace_of_perm {ls ls' : Lists} {r : ListRef} {xs : List Value}
    (hsize : ls.size ≤ ls'.size) (h : xs.Perm (ls.items r)) :
    (ls'.replace r xs.toArray).items r = xs := by
  by_cases hr : r.index < ls'.size
  · rw [items, replace, cell_modify_self hr]
  · have hnone : ∀ ls : Lists, ls.size ≤ r.index → ls.items r = [] := fun ls hle => by
      rw [items, cell, Array.getElem?_eq_none hle]
      rfl
    rw [hnone ls (by omega)] at h
    rw [h.eq_nil]
    exact hnone _ (by rw [replace, size_modify]; omega)

namespace Primitive

/-! ## Answers that agree with an order -/

open MergeSort in
/-- If the comparisons come to the stable order of the elements and leave the lists alone, this is
    the order that the list is left in. -/
private theorem SortsBy.call_returns {p : Primitive κ} {apply : Applier κ} {args : List Value}
    {r : ListRef} {less : Value → Value → Eval κ Bool} (h : SortsBy (p.run apply args) r less)
    (hlen : p.arity.contains args.length = true) {lt : Value → Value → Bool} {m : Machine κ}
    {I : Machine κ → Prop}
    (hsort : ∀ m₀ : Machine κ, m₀.silent = m.silent →
      (MergeSort.sort less (m.lists.items r)).Returns m₀ fun ys m₁ =>
        IsStableSort lt (m.lists.items r) ys ∧ m₁.lists = m.lists ∧ I m₁) :
    (p.call apply args).Returns m fun v m' =>
      v = .list r ∧ IsStableSort lt (m.lists.items r) (m'.lists.items r) ∧
        ∃ m₁, I m₁ ∧ m₁.lists = m.lists ∧ m'.silent =
          { m₁ with lists := m.lists.replace r (m'.lists.items r).toArray }.silent := by
  obtain ⟨m₀, hm₀, hcall⟩ := h.exists_ends_call hlen m
  refine (hcall (hsort m₀ hm₀)).imp ?_ ?_
  · -- the lists are as they were, so the list is there to be written
    rintro v m' ⟨rfl, ys, m₁, ⟨hys, hlists, hm₁⟩, hm'⟩
    have hitems : m'.lists.items r = ys := by
      rw [Machine.lists_eq_of_silent hm', hlists]
      exact Lists.items_replace_of_perm (Nat.le_refl _) hys.perm
    rw [hitems, ← hlists]
    exact ⟨rfl, hlists ▸ hys, m₁, hm₁, rfl, hm'⟩
  · rintro _ _ ⟨_, _, hfalse, -⟩
    exact hfalse

open MergeSort in
/-- Merge sort is a stable sort, and so is `sort!`.  Let `lt` be a strict weak order of the
    elements.  If all comparisons of elements come to the answer that `lt` gives, and keep what they
    rely on (`I`), so does the sort, and it ends with the stable order of the elements.  If the
    calls of a function do so and leave the lists alone, then `sort!` with this function leaves the
    list in its stable order, and everything else as the calls left it. -/
theorem sort_orders_stably {lt : Value → Value → Bool} {xs : List Value} (horder : Orders lt xs)
    {I : Machine κ → Prop} :
    (∀ less : Value → Value → Eval κ Bool,
      (∀ a ∈ xs, ∀ b ∈ xs, ∀ m, I m →
        (less a b).Returns m fun answer m' => answer = lt a b ∧ I m') →
      ∀ m, I m → (MergeSort.sort less xs).Returns m fun ys m' => IsStableSort lt xs ys ∧ I m') ∧
    ∀ p ∈ (Library.list.primitives : List (Primitive κ)), p.name = "sort!" →
      ∀ (apply : Applier κ) (f : Value), f.isCallable = true →
      (∀ m m' : Machine κ, m'.silent = m.silent → I m → I m') →
      (∀ a ∈ xs, ∀ b ∈ xs, ∀ m, I m → (apply f [a, b]).Returns m fun v m' =>
        v.truthy = lt a b ∧ m'.lists = m.lists ∧ I m') →
      ∀ r m, I m → m.lists.items r = xs → (p.call apply [.list r, f]).Returns m fun v m' =>
        v = .list r ∧ IsStableSort lt xs (m'.lists.items r) ∧ ∃ m₁, I m₁ ∧ m₁.lists = m.lists ∧
          m'.silent =
            { m₁ with lists := m.lists.replace r (m'.lists.items r).toArray }.silent := by
  constructor
  · intro less hless m hm
    refine (sort_ends hless hm).imp_post fun ys m' hys => ?_
    exact ⟨hys.1.isStableSort horder, hys.2⟩
  · intro p hp hname apply f hf hsilent hcalls r m hm hxs
    obtain ⟨hlen, hsorts⟩ := run_sortsBy hp hname apply r hf
    subst hxs
    refine hsorts.call_returns hlen fun m₀ hm₀ => ?_
    -- the calls leave the lists alone, so this may be added to what they keep
    have hless : ∀ a ∈ m.lists.items r, ∀ b ∈ m.lists.items r, ∀ m₁,
        m₁.lists = m.lists ∧ I m₁ → (lessBy apply f a b).Ends m₁
          (fun answer m₂ => answer = lt a b ∧ m₂.lists = m.lists ∧ I m₂) fun _ _ => False := by
      rintro a ha b hb m₁ ⟨hlists, hm₁⟩
      rw [ends_lessBy]
      refine (hcalls a ha b hb m₁ hm₁).imp_post fun v m₂ hv => ?_
      exact ⟨hv.1, hv.2.1.trans hlists, hv.2.2⟩
    have hstart : m₀.lists = m.lists ∧ I m₀ :=
      ⟨Machine.lists_eq_of_silent hm₀, hsilent m m₀ hm₀ hm⟩
    exact (sort_ends hless hstart).imp_post fun ys m₁ hys => ⟨hys.1.isStableSort horder, hys.2⟩

open MergeSort in
/-- The two zeros are tied, so they stay as they are, in front of the greater number. -/
theorem sort_orders_stably_zeros :
    ∃ p ∈ (Library.list.primitives : List (Primitive Unit)), p.name = "sort!" ∧
      Orders Value.before [.number 1, .number 0, .number Double.negativeZero] ∧
      (p.call (Evaluator.withFuel (.ofLibraries [] [.math]) 1).apply
          [.list ⟨0⟩, .builtin "<"]).Returns
        { lists := ⟨#[#[.number 1, .number 0, .number Double.negativeZero]]⟩, context := () }
        fun _ m' =>
          m'.lists.items ⟨0⟩ = [.number 0, .number Double.negativeZero, .number 1] := by
  let xs : List Value := [.number 1, .number 0, .number Double.negativeZero]
  have hcomparable : ∀ a ∈ xs, ∀ b ∈ xs, a.Comparable b := by
    refine Value.Comparable.forall_iff.2 (.inl ?_)
    simp only [xs, List.forall_mem_cons, Value.number.injEq, exists_eq_left']
    exact ⟨by decide +kernel, by decide +kernel, by decide +kernel, nofun⟩
  have horder := Value.orders_before hcomparable
  have hsorted : IsStableSort Value.before xs
      [.number 0, .number Double.negativeZero, .number 1] := by
    refine ⟨[(.number 0, 1), (.number Double.negativeZero, 2), (.number 1, 0)], ?_, ?_, rfl⟩
    · decide +kernel
    · unfold Precedes
      decide +kernel
  have hsort := (sort_orders_stably (I := fun _ : Machine Unit => True) horder).2
  refine ⟨Primitive.listTable.get ⟨19, by decide⟩, List.get_mem .., rfl, horder, ?_⟩
  refine (hsort _ (List.get_mem ..) rfl _ (.builtin "<") rfl (fun _ _ _ _ => trivial) ?_ ⟨0⟩ _
    trivial rfl).imp_post fun _ _ h => h.2.1.unique hsorted
  intro a ha b hb m _
  refine (apply_less_returns rfl 0 (hcomparable a ha b hb) m).imp_post ?_
  rintro _ m' ⟨rfl, hm'⟩
  exact ⟨rfl, Machine.lists_eq_of_silent hm', trivial⟩

end Primitive

/-! ## Any answers -/

namespace Applier

variable {apply : Applier κ} {f : Value}

/-- Calls a function with pairs of values, one pair after the other. -/
def askAll (apply : Applier κ) (f : Value) (pairs : List (Value × Value)) : Eval κ (List Value) :=
  pairs.mapM fun pair => apply f [pair.1, pair.2]

/-- One more call is made after the others. -/
private theorem askAll_snoc_ok {pairs : List (Value × Value)} {answers : List Value}
    {m m₁ m₂ : Machine κ} {a b v : Value} (hpairs : apply.askAll f pairs m = .ok answers m₁)
    (hcall : apply f [a, b] m₁ = .ok v m₂) :
    apply.askAll f (pairs ++ [(a, b)]) m = .ok (answers ++ [v]) m₂ := by
  unfold askAll at hpairs ⊢
  rw [List.mapM_append, bind_ok hpairs, List.mapM_cons, bind_assoc, bind_ok hcall]
  rfl

/-- The last call may unwind. -/
private theorem askAll_snoc_error {pairs : List (Value × Value)} {answers : List Value}
    {m m₁ m₂ : Machine κ} {a b : Value} {u : Unwind}
    (hpairs : apply.askAll f pairs m = .ok answers m₁)
    (hcall : apply f [a, b] m₁ = .error u m₂) :
    apply.askAll f (pairs ++ [(a, b)]) m = .error u m₂ := by
  unfold askAll at hpairs ⊢
  rw [List.mapM_append, bind_ok hpairs, List.mapM_cons, bind_assoc, bind_error hcall]

/-- Every call leaves at least as many lists as there were. -/
def KeepsLists (apply : Applier κ) : Prop :=
  ∀ f args m, (apply f args).Ends m (fun _ m' => m.lists.size ≤ m'.lists.size)
    fun _ m' => m.lists.size ≤ m'.lists.size

/-- The calls of a program do so if those of the host do. -/
private theorem keepsLists_withFuel {hosts : List (String × HostFunction κ)}
    (hhosts : ∀ f ∈ hosts, f.2.KeepsLists) (libraries : List Library) (fuel : Nat) :
    (Evaluator.withFuel (.ofLibraries hosts libraries) fuel).apply.KeepsLists := by
  intro f args m
  have hkeeps := Evaluator.withFuel_keeps (Registry.ofLibraries_keep hhosts libraries) fuel
  exact (hkeeps.apply 0 f args (fun _ _ => trivial) m (.free m) (Nat.zero_le _)).imp
    (fun _ _ h => h.2.1) fun _ _ h => h.2

end Applier

namespace Primitive

variable {apply : Applier κ} {f : Value} {xs : List Value} {m m₁ : Machine κ}

/-- The second machine is as calls of the function with pairs of elements leave it that all
    succeed. -/
def Asked (apply : Applier κ) (f : Value) (xs : List Value) (m m₁ : Machine κ) : Prop :=
  ∃ pairs answers, (∀ pair ∈ pairs, pair.1 ∈ xs ∧ pair.2 ∈ xs) ∧
    apply.askAll f pairs m = .ok answers m₁

/-- The second machine is as calls of the function with pairs of elements leave it, the last of
    which unwinds. -/
def AskedUntil (apply : Applier κ) (f : Value) (xs : List Value) (m : Machine κ) (u : Unwind)
    (m₁ : Machine κ) : Prop :=
  ∃ pairs, (∀ pair ∈ pairs, pair.1 ∈ xs ∧ pair.2 ∈ xs) ∧ apply.askAll f pairs m = .error u m₁

/-- One more comparison is one more call. -/
private theorem Asked.ends_lessBy (h : Asked apply f xs m m₁) {a b : Value} (ha : a ∈ xs)
    (hb : b ∈ xs) :
    (lessBy apply f a b).Ends m₁ (fun _ m₂ => Asked apply f xs m m₂) (AskedUntil apply f xs m) := by
  obtain ⟨pairs, answers, hpairs, hasked⟩ := h
  have hpairs' : ∀ pair ∈ pairs ++ [(a, b)], pair.1 ∈ xs ∧ pair.2 ∈ xs := by
    intro pair hpair
    obtain hpair | hpair := List.mem_append.1 hpair
    · exact hpairs pair hpair
    · rw [List.mem_singleton.1 hpair]
      exact ⟨ha, hb⟩
  rw [Primitive.ends_lessBy]
  unfold Ends
  cases hcall : apply f [a, b] m₁ with
  | ok v m₂ => exact ⟨_, _, hpairs', Applier.askAll_snoc_ok hasked hcall⟩
  | error u m₂ => exact ⟨_, hpairs', Applier.askAll_snoc_error hasked hcall⟩

/-- The cause is one that the last call can fail with. -/
theorem AskedUntil.settled {u : Unwind} (h : AskedUntil apply f xs m u m₁) (happly : apply.Sealed) :
    u.Settled fun _ => False := by
  obtain ⟨pairs, -, herror⟩ := h
  have hsealed : (apply.askAll f pairs).Sealed :=
    Confined.mapM fun pair _ => happly f [pair.1, pair.2]
  exact hsealed.exit herror

/-- All that a sort does to the machine is what the calls do that it makes, and if one of these
    unwinds it is the last. -/
theorem sort_asks (happly : apply.KeepsLists) (f : Value) (xs : List Value) (m : Machine κ) :
    (MergeSort.sort (lessBy apply f) xs).Ends m
      (fun sorted m₁ => sorted.Perm xs ∧ m.lists.size ≤ m₁.lists.size ∧ Asked apply f xs m m₁)
      (AskedUntil apply f xs m) := by
  have hless : ∀ a ∈ xs, ∀ b ∈ xs, ∀ m₁ : Machine κ,
      m.lists.size ≤ m₁.lists.size ∧ Asked apply f xs m m₁ → (lessBy apply f a b).Ends m₁
        (fun _ m₂ => True ∧ m.lists.size ≤ m₂.lists.size ∧ Asked apply f xs m m₂)
        (AskedUntil apply f xs m) := by
    rintro a ha b hb m₁ ⟨hsize, hasked⟩
    have hgrown : (lessBy apply f a b).Ends m₁ (fun _ m₂ => m.lists.size ≤ m₂.lists.size)
        fun _ _ => True :=
      ends_lessBy.2 ((happly f [a, b] m₁).imp (fun _ _ h => Nat.le_trans hsize h)
        fun _ _ _ => trivial)
    exact (hgrown.and (hasked.ends_lessBy ha hb)).imp (fun _ _ h => ⟨trivial, h⟩) fun _ _ h => h.2
  have hstart : m.lists.size ≤ m.lists.size ∧ Asked apply f xs m m :=
    ⟨Nat.le_refl _, [], [], by simp, rfl⟩
  exact (MergeSort.sort_ends hless hstart).imp_post fun _ _ h => ⟨h.1.perm, h.2⟩

/-- Nothing but the arguments themselves is looked at where they are refused. -/
private theorem sort_refuses {list f : Value} (h : ∀ r, list = .list r → f.isCallable = false) :
    ∃ cause, (list.asList = .error cause ∨ f.asCallable = .error cause) ∧
      ∀ (apply : Applier κ) (m : Machine κ), (sort apply list (some f)).Ends m (fun _ _ => False)
        fun u m' => u = .failure (.mismatch cause) ∧ m' = m := by
  cases list with
  | list r =>
    have hf : f.asCallable = .error .notFunction := by simp [Value.asCallable, h r rfl]
    refine ⟨.notFunction, .inr hf, fun _ m => ?_⟩
    simp [sort, Value.asList, hf, expect, items]
  | _ => exact ⟨.notList, .inl rfl, fun _ m => by simp [sort, Value.asList, expect]⟩

/-- Sorting by a function neither loses nor doubles elements, whatever the function does, be it to
    this list.  If the call succeeds, the list holds a rearrangement of the elements that it held at
    the start, and everything else is as calls of the function with pairs of elements left it.  If
    it fails, then because of its arguments, with nothing done; or one of those calls failed, for
    the same cause, and everything is as it was left then, this list included.  Host functions must
    not drop lists. -/
theorem sort_keeps_elements {hosts : List (String × HostFunction κ)}
    (hhosts : ∀ f ∈ hosts, f.2.KeepsLists) (libraries : List Library) (fuel : Nat)
    {p : Primitive κ} (hp : p ∈ (Library.list.primitives : List (Primitive κ)))
    (hname : p.name = "sort!") (list f : Value) (m : Machine κ) :
    let apply := (Evaluator.withFuel (.ofLibraries hosts libraries) fuel).apply
    (∀ v m', p.call apply [list, f] m = .ok v m' → ∃ r, list = .list r ∧ v = list ∧
      (m'.lists.items r).Perm (m.lists.items r) ∧ ∃ m₀ m₁ : Machine κ, m₀.silent = m.silent ∧
        Asked apply f (m.lists.items r) m₀ m₁ ∧
        (∀ s, s ≠ r → m'.lists.cell s = m₁.lists.cell s) ∧
        m'.silent =
          { m₁ with lists := m₁.lists.replace r (m'.lists.items r).toArray }.silent) ∧
    ∀ u m', p.call apply [list, f] m = .error u m' →
      (m'.silent = m.silent ∧ ∃ cause, u = .failure (.badArgument "sort!" cause) ∧
        (list.asList = .error cause ∨ f.asCallable = .error cause)) ∨
      ∃ (r : ListRef) (m₀ m₁ : Machine κ), list = .list r ∧ m₀.silent = m.silent ∧
        AskedUntil apply f (m.lists.items r) m₀ u m₁ ∧ m'.silent = m₁.silent := by
  intro apply
  have happly : apply.Sealed :=
    (Evaluator.withFuel_lawful (Registry.ofLibraries_lawful hosts libraries) fuel).apply
  obtain ⟨harity, hrun⟩ := eq_sort_of_name hp hname
  have hlen : p.arity.contains [list, f].length = true := by rw [harity]; rfl
  by_cases haccepted : (∃ r, list = .list r) ∧ f.isCallable = true
  · obtain ⟨⟨r, rfl⟩, hf⟩ := haccepted
    obtain ⟨-, hsorts⟩ := run_sortsBy hp hname apply r hf
    obtain ⟨m₀, hm₀, hcall⟩ := hsorts.exists_ends_call hlen m
    have hends := hcall (sort_asks (Applier.keepsLists_withFuel hhosts libraries fuel) f
      (m.lists.items r) m₀)
    refine ⟨fun v m' hok => ?_, fun u m' herror => .inr ?_⟩
    · -- no list was dropped, so the elements are written where they were read
      obtain ⟨rfl, sorted, m₁, ⟨hperm, hsize, hasked⟩, hm'⟩ := hends.of_ok hok
      have hlists := Machine.lists_eq_of_silent hm'
      have hitems : m'.lists.items r = sorted := by
        rw [hlists]
        rw [Machine.lists_eq_of_silent hm₀] at hsize
        exact Lists.items_replace_of_perm hsize hperm
      refine ⟨r, rfl, rfl, hitems ▸ hperm, m₀, m₁, hm₀, hasked, fun s hs => ?_, hitems ▸ hm'⟩
      rw [hlists]
      exact Lists.cell_modify_of_ne _ hs.symm _
    · obtain ⟨u₁, m₁, hasked, rfl, hm'⟩ := hends.of_error herror
      -- the call that failed has named its function, so the cause is passed on as it is
      rw [(hasked.settled happly).named_eq]
      exact ⟨r, m₀, m₁, rfl, hm₀, hasked, hm'⟩
  · -- one of the arguments is refused before anything is done
    have hrefused : ∀ r, list = .list r → f.isCallable = false := fun r hr =>
      Bool.eq_false_iff.2 fun hf => haccepted ⟨⟨r, hr⟩, hf⟩
    obtain ⟨cause, hcause, hrefuses⟩ := sort_refuses (κ := κ) hrefused
    obtain ⟨m₀, hm₀, hcall⟩ := Primitive.exists_ends_call hlen m
    have hrefuses := hrefuses apply m₀
    rw [← (hrun apply list).2] at hrefuses
    have hends := hcall hrefuses
    refine ⟨fun v m' hok => ?_, fun u m' herror => .inl ?_⟩
    · obtain ⟨_, hfalse, -⟩ := hends.of_ok hok
      exact hfalse.elim
    · obtain ⟨_, _, ⟨rfl, rfl⟩, rfl, hm'⟩ := hends.of_error herror
      exact ⟨hm'.trans hm₀, cause, by rw [hname]; rfl, hcause⟩

/-- Comparing takes the last element off the list that is sorted.  If the comparison answers with
    it, no element is lost in the end; if it throws it, the list is left without it. -/
theorem sort_keeps_elements_popped :
    ∃ p ∈ (Library.list.primitives : List (Primitive Unit)), p.name = "sort!" ∧
      ∃ (apply : Applier Unit) (m : Machine Unit),
        m.lists.items ⟨0⟩ = [.null, .bool true, .null] ∧
        (∃ v m', p.call apply [.list ⟨0⟩, .closure none ⟨0⟩] m = .ok v m' ∧
          (m'.lists.items ⟨0⟩).Perm [.null, .bool true, .null]) ∧
        ∃ u m', p.call apply [.list ⟨0⟩, .closure none ⟨1⟩] m = .error u m' ∧
          m'.lists.items ⟨0⟩ = [.null, .bool true] ∧ ∃ m₀ m₁, m'.silent = m₁.silent ∧
            AskedUntil apply (.closure none ⟨1⟩) [.null, .bool true, .null] m₀ u m₁ := by
  let p : Primitive Unit := Primitive.listTable.get ⟨19, by decide⟩
  have hp : p ∈ (Library.list.primitives : List (Primitive Unit)) := List.get_mem ..
  let pop : Expr := .call [.identifier "pop!", .identifier "l"]
  let m : Machine Unit :=
    { lists := ⟨#[#[.null, .bool true, .null]]⟩
      scopes := Scopes.start.define Scopes.root "l" (.list ⟨0⟩)
      closures := #[⟨.positional ["a", "b"], [pop], Scopes.root⟩,
        ⟨.positional ["a", "b"], [.call [.identifier "throw", pop]], Scopes.root⟩]
      context := () }
  let apply := (Evaluator.withFuel (.ofLibraries [] [.list]) 4 : Evaluator Unit).apply
  have hhosts : ∀ f ∈ ([] : List (String × HostFunction Unit)), f.2.KeepsLists := nofun
  have hkeeps := fun f => sort_keeps_elements hhosts [.list] 4 hp rfl (.list ⟨0⟩) f m
  have hpopped : (match p.call apply [.list ⟨0⟩, .closure none ⟨0⟩] m with
      | .ok .. => true
      | .error .. => false) = true := by decide +kernel
  have hthrown : (match p.call apply [.list ⟨0⟩, .closure none ⟨1⟩] m with
      | .ok .. => false
      | .error _ m' => m'.lists.items ⟨0⟩ == [.null, .bool true]) = true := by decide +kernel
  refine ⟨p, hp, rfl, apply, m, rfl, ?_, ?_⟩
  · cases hcall : p.call apply [.list ⟨0⟩, .closure none ⟨0⟩] m with
    | ok v m' =>
      obtain ⟨_, ⟨⟩, -, hperm, -⟩ := (hkeeps _).1 v m' hcall
      exact ⟨v, m', rfl, hperm⟩
    | error u m' =>
      rw [hcall] at hpopped
      cases hpopped
  · cases hcall : p.call apply [.list ⟨0⟩, .closure none ⟨1⟩] m with
    | ok v m' =>
      rw [hcall] at hthrown
      cases hthrown
    | error u m' =>
      rw [hcall] at hthrown
      refine ⟨u, m', rfl, eq_of_beq hthrown, ?_⟩
      obtain ⟨-, cause, -, hcause | hcause⟩ | ⟨_, m₀, m₁, ⟨⟩, -, hasked, hm'⟩ :=
        (hkeeps _).2 u m' hcall
      · cases hcause
      · cases hcause
      · exact ⟨m₀, m₁, hm', hasked⟩

/-! ## The natural order -/

/-- A list that can be sorted by the natural order: there is one between any two of its elements,
    or there are no two. -/
def Sortable (xs : List Value) : Prop :=
  xs.length ≤ 1 ∨ ∀ a ∈ xs, ∀ b ∈ xs, a.Comparable b

open MergeSort in
/-- Comparisons that agree with the natural order where there is one, and change nothing, bring such
    a list into this order. -/
private theorem SortsBy.call_returns_of_sortable {p : Primitive κ} {args : List Value} {r : ListRef}
    {less : Value → Value → Eval κ Bool} (h : SortsBy (p.run apply args) r less)
    (hlen : p.arity.contains args.length = true) (hxs : Sortable (m.lists.items r))
    (hless : ∀ a b, a.Comparable b → ∀ m₁ : Machine κ,
      (less a b).Returns m₁ fun answer m₂ => answer = a.before b ∧ m₂.silent = m₁.silent) :
    (p.call apply args).Returns m fun v m' =>
      v = .list r ∧ IsStableSort Value.before (m.lists.items r) (m'.lists.items r) ∧
        m'.silent = { m with lists := m.lists.replace r (m'.lists.items r).toArray }.silent := by
  have hsort : ∀ m₀ : Machine κ, m₀.silent = m.silent →
      (MergeSort.sort less (m.lists.items r)).Returns m₀ fun ys m₁ =>
        IsStableSort Value.before (m.lists.items r) ys ∧ m₁.silent = m.silent := by
    intro m₀ hm₀
    obtain hshort | hxs := hxs
    · rw [MergeSort.sort, dif_pos hshort]
      exact ⟨.of_length_le_one hshort, hm₀⟩
    · have hkept : ∀ a ∈ m.lists.items r, ∀ b ∈ m.lists.items r, ∀ m₁ : Machine κ,
          m₁.silent = m.silent → (less a b).Ends m₁
            (fun answer m₂ => answer = a.before b ∧ m₂.silent = m.silent) fun _ _ => False :=
        fun a ha b hb m₁ hm₁ => (hless a b (hxs a ha b hb) m₁).imp_post
          fun _ _ h => ⟨h.1, h.2.trans hm₁⟩
      exact (sort_ends hkept hm₀).imp_post
        fun ys m₁ hys => ⟨hys.1.isStableSort (Value.orders_before hxs), hys.2⟩
  refine (h.call_returns hlen fun m₀ hm₀ => (hsort m₀ hm₀).imp_post
    fun ys m₁ hys => ⟨hys.1, Machine.lists_eq_of_silent hys.2, hys.2⟩).imp_post ?_
  rintro v m' ⟨hv, hsorted, m₁, hm₁, -, hm'⟩
  exact ⟨hv, hsorted, hm'.trans (Machine.silent_with_lists hm₁ _)⟩

/-- What is sorted by the natural order ascends. -/
private theorem Sortable.ascends {ys : List Value} (hxs : Sortable xs)
    (h : MergeSort.IsStableSort Value.before xs ys) : ys.Pairwise Value.Ascends := by
  obtain hshort | hxs := hxs
  · rw [← h.perm.length_eq] at hshort
    match ys, hshort with
    | [], _ => exact .nil
    | [y], _ => exact List.pairwise_singleton _ y
  · refine h.pairwise.imp_of_mem fun {a b} ha hb hba => ?_
    have hcomparable := hxs b (h.perm.subset hb) a (h.perm.subset ha)
    exact Classical.not_not.1 (mt hcomparable.before_iff.2 (Bool.eq_false_iff.1 hba))

section Natural

variable {p : Primitive κ} (hp : p ∈ (Library.list.primitives : List (Primitive κ)))
  (hname : p.name = "sort!")
include hp hname

/-- Without a function, only such a list is sorted, and where another one is refused, nothing has
    changed. -/
private theorem sort_natural_ends (apply : Applier κ) (r : ListRef) (m : Machine κ) :
    (p.call apply [.list r]).Ends m (fun _ _ => Sortable (m.lists.items r))
      fun _ m' => m'.silent = m.silent := by
  obtain ⟨hlen, hsorts⟩ := run_sortsBy_natural hp hname apply r
  obtain ⟨m₀, hm₀, hcall⟩ := hsorts.exists_ends_call hlen m
  have hless : ∀ a ∈ m.lists.items r, ∀ b ∈ m.lists.items r, ∀ m₁, m₁ = m₀ →
      (naturalLess a b).Ends m₁
        (fun answer m₂ => (a.Comparable b ∧ answer = a.before b) ∧ m₂ = m₀)
        fun _ m₂ => m₂ = m₀ := by
    rintro a _ b _ m₁ rfl
    exact naturalLess_ends a b m₁
  refine (hcall (MergeSort.sort_ends hless rfl)).imp ?_ ?_
  · rintro v m' ⟨-, ys, -, ⟨hys, -⟩, -⟩
    exact hys.related (fun _ _ => .symm) (fun _ _ _ => .trans) fun _ _ _ h => h.1
  · rintro u m' ⟨_, m₁, rfl, -, hm'⟩
    exact hm'.trans hm₀

variable {r : ListRef} {m : Machine κ} (hxs : Sortable (m.lists.items r))
include hxs

open MergeSort in
/-- Such a list is sorted. -/
private theorem sort_natural_returns (apply : Applier κ) :
    (p.call apply [.list r]).Returns m fun v m' =>
      v = .list r ∧ IsStableSort Value.before (m.lists.items r) (m'.lists.items r) ∧
        m'.silent = { m with lists := m.lists.replace r (m'.lists.items r).toArray }.silent := by
  obtain ⟨hlen, hsorts⟩ := run_sortsBy_natural hp hname apply r
  refine hsorts.call_returns_of_sortable hlen hxs fun a b hab m₁ => ?_
  rw [naturalLess_eq hab]
  exact ⟨rfl, rfl⟩

open MergeSort in
/-- The function `<` does as well, where it is the one of the math library. -/
private theorem sort_less_returns {hosts : List (String × HostFunction κ)}
    {libraries : List Library}
    (howner : (Registry.ofLibraries hosts libraries).owner? "<" = some .math) (fuel : Nat) :
    (p.call (Evaluator.withFuel (.ofLibraries hosts libraries) (fuel + 1)).apply
        [.list r, .builtin "<"]).Returns m fun v m' =>
      v = .list r ∧ IsStableSort Value.before (m.lists.items r) (m'.lists.items r) ∧
        m'.silent = { m with lists := m.lists.replace r (m'.lists.items r).toArray }.silent := by
  have hcallable : (Value.builtin "<").isCallable = true := rfl
  obtain ⟨hlen, hsorts⟩ := run_sortsBy hp hname
    (Evaluator.withFuel (.ofLibraries hosts libraries) (fuel + 1)).apply r hcallable
  refine hsorts.call_returns_of_sortable hlen hxs fun a b hab m₁ => ?_
  refine ends_lessBy.2 ((apply_less_returns howner fuel hab m₁).imp_post ?_)
  rintro _ m₂ ⟨rfl, hm₂⟩
  exact ⟨rfl, hm₂⟩

end Natural

/-- Without a function, a list is sorted if its elements are of one kind: all of them numbers, none
    of them NaN, or all of them strings.  A list of at most one element needs no order.  Any other
    list is refused, and nothing has changed then.  What is sorted has the elements of the list in
    ascending order, and where the name `<` belongs to the math library, sorting by this function
    comes to the same. -/
theorem sort_natural_iff {p : Primitive κ}
    (hp : p ∈ (Library.list.primitives : List (Primitive κ))) (hname : p.name = "sort!")
    (apply : Applier κ) (r : ListRef) (m : Machine κ) :
    ((∃ v m', p.call apply [.list r] m = .ok v m') ↔
      (m.lists.items r).length ≤ 1 ∨
      (∀ v ∈ m.lists.items r, ∃ x, v = .number x ∧ x.isNaN = false) ∨
      ∀ v ∈ m.lists.items r, ∃ s, v = .string s) ∧
    (∀ u m', p.call apply [.list r] m = .error u m' → m'.silent = m.silent) ∧
    ∀ v m', p.call apply [.list r] m = .ok v m' →
      v = .list r ∧ (m'.lists.items r).Perm (m.lists.items r) ∧
      (m'.lists.items r).Pairwise Value.Ascends ∧
      m'.silent = { m with lists := m.lists.replace r (m'.lists.items r).toArray }.silent ∧
      ∀ hosts libraries fuel, (Registry.ofLibraries hosts libraries).owner? "<" = some .math →
        ∃ m₂, p.call (Evaluator.withFuel (.ofLibraries hosts libraries) (fuel + 1)).apply
          [.list r, .builtin "<"] m = .ok v m₂ ∧ m₂.silent = m'.silent := by
  have hends := sort_natural_ends hp hname apply r m
  rw [← Value.Comparable.forall_iff]
  refine ⟨⟨?_, fun hxs => ?_⟩, fun u m' herror => hends.of_error herror, fun v m' hok => ?_⟩
  · rintro ⟨v, m', hok⟩
    exact hends.of_ok hok
  · obtain ⟨v, m', hok, -⟩ := (sort_natural_returns hp hname hxs apply).exists_ok
    exact ⟨v, m', hok⟩
  · have hxs : Sortable (m.lists.items r) := hends.of_ok hok
    obtain ⟨hv, hsorted, hm'⟩ := (sort_natural_returns hp hname hxs apply).of_ok hok
    refine ⟨hv, hsorted.perm, hxs.ascends hsorted, hm', fun hosts libraries fuel howner => ?_⟩
    obtain ⟨v₂, m₂, hok₂, hv₂, hsorted₂, hm₂⟩ :=
      (sort_less_returns hp hname hxs howner fuel).exists_ok
    -- both end with the stable order of the elements, and there is only one
    rw [hsorted.unique hsorted₂, ← hm₂] at hm'
    exact ⟨m₂, hv.trans hv₂.symm ▸ hok₂, hm'.symm⟩

/-- Strings are sorted, also with `<`.  A number among them is refused, and so is NaN unless it is
    alone. -/
theorem sort_natural_iff_strings :
    ∃ p ∈ (Library.list.primitives : List (Primitive Unit)), p.name = "sort!" ∧
      ∃ (apply : Applier Unit) (m : Machine Unit), m.lists =
        ⟨#[#[.string "b", .string "ab", .string "a"], #[.string "a", .number 1],
          #[.number (0 / 0), .number (0 / 0)], #[.number (0 / 0)]]⟩ ∧
        (∃ v m', p.call apply [.list ⟨0⟩] m = .ok v m' ∧
          (m'.lists.items ⟨0⟩).Pairwise Value.Ascends ∧
          ∃ m₂, p.call (Evaluator.withFuel (.ofLibraries [] [.math]) 1).apply
            [.list ⟨0⟩, .builtin "<"] m = .ok v m₂ ∧ m₂.silent = m'.silent) ∧
        (¬ ∃ v m', p.call apply [.list ⟨1⟩] m = .ok v m') ∧
        (¬ ∃ v m', p.call apply [.list ⟨2⟩] m = .ok v m') ∧
        ∃ v m', p.call apply [.list ⟨3⟩] m = .ok v m' := by
  let p : Primitive Unit := Primitive.listTable.get ⟨19, by decide⟩
  have hp : p ∈ (Library.list.primitives : List (Primitive Unit)) := List.get_mem ..
  let m : Machine Unit :=
    { lists := ⟨#[#[.string "b", .string "ab", .string "a"], #[.string "a", .number 1],
        #[.number (0 / 0), .number (0 / 0)], #[.number (0 / 0)]]⟩
      context := () }
  let apply : Applier Unit := fun _ _ => pure .null
  have hsort := fun r => sort_natural_iff hp rfl apply r m
  refine ⟨p, hp, rfl, apply, m, rfl, ?_, ?_, ?_, ?_⟩
  · obtain ⟨hiff, -, hsorted⟩ := hsort ⟨0⟩
    obtain ⟨v, m', hok⟩ := hiff.2 (.inr (.inr (by simp [m, Lists.items, Lists.cell])))
    obtain ⟨-, -, hascends, -, hless⟩ := hsorted v m' hok
    exact ⟨v, m', hok, hascends, hless [] [.math] 0 rfl⟩
  · rw [(hsort ⟨1⟩).1]
    simp [m, Lists.items, Lists.cell]
  · rw [(hsort ⟨2⟩).1]
    have hitems : m.lists.items ⟨2⟩ = [.number (0 / 0), .number (0 / 0)] := rfl
    have hnan : (0 / 0 : Float).isNaN = true := by decide +kernel
    rw [hitems]
    rintro (hshort | hnumbers | hstrings)
    · exact absurd hshort (by decide)
    · obtain ⟨_, ⟨⟩, hne⟩ := hnumbers _ List.mem_cons_self
      exact Bool.noConfusion (hnan.symm.trans hne)
    · obtain ⟨_, hs⟩ := hstrings _ List.mem_cons_self
      cases hs
  · exact (hsort ⟨3⟩).1.2 (.inl (Nat.le_refl 1))

end Primitive
end Lisplet
