import Lisplet.Proofs.Outcomes
import Lisplet.Proofs.Sorting
import Mathlib.Data.List.Induction

/-! # Walks over a snapshot

The functions `map`, `filter` and `reduce` take the elements of their list once, before the first
call of the function they are given.  That function may do what it likes, to the list as well; the
calls are made for the elements that were taken, each once and in order, until one of them unwinds.

All three are a *walk*: a call for one element after the other, with arguments that may depend on
the results so far.  They differ in these arguments, and in what they make of the results.

* `Evaluator.walk`               the walk as a program
* `Registry.Walks`               a walk in terms of its calls
* `Registry.WalkUnwinds`         a walk that is cut short
* `Registry.snapshot_walks`      how `map`, `filter` and `reduce` end -/

namespace Lisplet

open Eval

variable {κ : Type}

/-! ## Walks as programs -/

namespace Evaluator

variable (ev : Evaluator κ) (f : Value) (args : List Value → Value → List Value)
  (xs : List Value) (x : Value)

/-- Calls a function for one element after the other and collects the results.  The arguments of a
    call are made from the results so far and the element. -/
def walk : Eval κ (List Value) :=
  xs.foldlM (fun vs x => return vs ++ [← ev.apply f (args vs x)]) []

/-- A walk ends with the call for the last element. -/
private theorem walk_concat : ev.walk f args (xs ++ [x]) = (do
    let vs ← ev.walk f args xs
    let v ← ev.apply f (args vs x)
    return vs ++ [v]) := by
  simp [walk, List.foldlM_append]

/-- Calls with the elements themselves. -/
private theorem mapM_eq_walk :
    (xs.mapM fun x => ev.apply f [x]) = ev.walk f (fun _ x => [x]) xs := by
  induction xs using List.reverseRecOn with
  | nil => rfl
  | append_singleton xs x ih => simp [walk_concat, List.mapM_append, ih]

/-- Calls with the last result and the element. -/
private theorem foldlM_eq_walk (initial : Value) :
    (xs.foldlM (fun acc x => ev.apply f [acc, x]) initial) =
      (ev.walk f (fun vs x => [vs.getLastD initial, x]) xs >>= fun vs =>
        return vs.getLastD initial) := by
  induction xs using List.reverseRecOn with
  | nil => rfl
  | append_singleton xs x ih => simp [walk_concat, List.foldlM_append, ih]

end Evaluator

/-! ## Walks in terms of their calls -/

namespace Registry

variable {reg : Registry κ} {f : Value} {args : List Value → Value → List Value}
  {xs vs : List Value} {x v : Value} {m m₁ m' : Machine κ} {u : Unwind}

/-- Calls of a function for the elements `xs`, in order and with the results `vs`, lead from the
    machine `m` to the one at the end. -/
inductive Walks (reg : Registry κ) (f : Value) (args : List Value → Value → List Value)
    (m : Machine κ) : List Value → List Value → Machine κ → Prop where
  | start : Walks reg f args m [] [] m.silent
  | call {xs vs : List Value} {x v : Value} {m₁ m₂ : Machine κ} :
      Walks reg f args m xs vs m₁ → reg.Concludes (·.apply f (args vs x)) m₁ (.ok v, m₂) →
        Walks reg f args m (xs ++ [x]) (vs ++ [v]) m₂

/-- The call for one of the elements unwinds, after those for the elements before it. -/
def WalkUnwinds (reg : Registry κ) (f : Value) (args : List Value → Value → List Value)
    (m : Machine κ) (xs : List Value) (u : Unwind) (m' : Machine κ) : Prop :=
  ∃ walked x rest vs m₁, xs = walked ++ x :: rest ∧ reg.Walks f args m walked vs m₁ ∧
    reg.Concludes (·.apply f (args vs x)) m₁ (.error u, m')

/-- A walk over no elements makes no call. -/
private theorem walks_nil_iff : reg.Walks f args m [] vs m' ↔ vs = [] ∧ m' = m.silent := by
  constructor
  · intro h
    generalize hxs : ([] : List Value) = xs at h
    cases h with
    | start => exact ⟨rfl, rfl⟩
    | call => simp at hxs
  · rintro ⟨rfl, rfl⟩
    exact .start

/-- The last call comes after a walk over the other elements. -/
private theorem walks_concat_iff :
    reg.Walks f args m (xs ++ [x]) vs m' ↔ ∃ ws v m₁, vs = ws ++ [v] ∧
      reg.Walks f args m xs ws m₁ ∧ reg.Concludes (·.apply f (args ws x)) m₁ (.ok v, m') := by
  constructor
  · intro h
    generalize hxs : xs ++ [x] = ys at h
    cases h with
    | start => simp at hxs
    | call hwalk hcall =>
      obtain ⟨rfl, hx⟩ := List.append_inj' hxs rfl
      cases hx
      exact ⟨_, _, _, rfl, hwalk, hcall⟩
  · rintro ⟨ws, v, m₁, rfl, hwalk, hcall⟩
    exact .call hwalk hcall

/-- As many results as elements. -/
theorem Walks.length_eq (h : reg.Walks f args m xs vs m') : vs.length = xs.length := by
  induction h with
  | start => rfl
  | call _ _ ih => simp [ih]

/-- A walk leaves no journal. -/
theorem Walks.silent_eq (h : reg.Walks f args m xs vs m') : m'.silent = m' := by
  cases h with
  | start => rfl
  | call _ hcall => exact hcall.silent_eq

section Programs

variable (hreg : reg.Paired (.untilExhausted κ) reg)
include hreg

private theorem steady_walk (f : Value) (args : List Value → Value → List Value) (xs : List Value) :
    reg.Steady (·.walk f args xs) := by
  intro fuel fuel' hle
  have hstep : ∀ vs, ∀ x ∈ xs, True →
      Approximates (do return vs ++ [← (Evaluator.withFuel reg fuel).apply f (args vs x)])
        (do return vs ++ [← (Evaluator.withFuel reg fuel').apply f (args vs x)]) :=
    fun vs x _ _ => (steady_apply hreg f (args vs x) fuel fuel' hle).bind fun _ _ =>
      paired_pure trivial
  exact Paired.foldlM hstep trivial

private theorem steady_walk_call (f : Value) (args : List Value → Value → List Value) (x : Value)
    (vs : List Value) :
    reg.Steady fun ev => ev.apply f (args vs x) >>= fun v => pure (vs ++ [v]) :=
  fun _ _ hle => (steady_apply hreg f (args vs x) _ _ hle).bind fun _ _ => paired_pure trivial

/-- A walk ends with the results of its calls if none of them unwinds. -/
private theorem concludes_walk_ok_iff :
    reg.Concludes (·.walk f args xs) m (.ok vs, m') ↔ reg.Walks f args m xs vs m' := by
  -- the arguments of a call depend on the calls before it, so walks are taken apart at their end
  induction xs using List.reverseRecOn generalizing vs m' with
  | nil =>
    have hnil : reg.Concludes (·.walk f args []) m (.ok vs, m') ↔ _ := concludes_pure_iff
    rw [hnil, walks_nil_iff]
    simp
  | append_singleton xs x ih =>
    simp only [Evaluator.walk_concat]
    rw [concludes_bind_ok_iff (steady_walk hreg f args xs) (steady_walk_call hreg f args x),
      walks_concat_iff]
    simp only [ih, concludes_bind_pure_ok_iff (steady_apply hreg f _)]
    grind

/-- A walk unwinds if one of its calls does. -/
private theorem concludes_walk_error_iff :
    reg.Concludes (·.walk f args xs) m (.error u, m') ↔ reg.WalkUnwinds f args m xs u m' := by
  induction xs using List.reverseRecOn with
  | nil =>
    have hnil : reg.Concludes (·.walk f args []) m (.error u, m') ↔ _ := concludes_pure_iff
    rw [hnil]
    simp [WalkUnwinds]
  | append_singleton xs x ih =>
    simp only [Evaluator.walk_concat]
    rw [concludes_bind_error_iff (steady_walk hreg f args xs) (steady_walk_call hreg f args x), ih]
    simp only [concludes_bind_pure_error_iff (steady_apply hreg f _), concludes_walk_ok_iff hreg]
    constructor
    · rintro (⟨vs, m₁, hwalk, hcall⟩ | ⟨walked, y, rest, vs, m₁, rfl, hwalk, hcall⟩)
      · exact ⟨xs, x, [], vs, m₁, rfl, hwalk, hcall⟩
      · exact ⟨walked, y, rest ++ [x], vs, m₁, by simp, hwalk, hcall⟩
    · rintro ⟨walked, y, rest, vs, m₁, hxs, hwalk, hcall⟩
      -- the call that unwinds is the one for the last element, or an earlier one
      obtain rfl | ⟨rest, z, rfl⟩ := rest.eq_nil_or_concat'
      · obtain ⟨rfl, hx⟩ := List.append_inj' hxs rfl
        cases hx
        exact .inl ⟨vs, m₁, hwalk, hcall⟩
      · rw [← List.cons_append, ← List.append_assoc] at hxs
        obtain ⟨rfl, -⟩ := List.append_inj' hxs rfl
        exact .inr ⟨walked, y, rest, vs, m₁, rfl, hwalk, hcall⟩

/-- If every call comes to an end, so does a walk, after a call for each element at most. -/
private theorem exists_concludes_walk (hf : ∀ vs m₁, ∃ o, reg.Concludes (·.apply f vs) m₁ o)
    (args : List Value → Value → List Value) (xs : List Value) (m : Machine κ) :
    ∃ o, reg.Concludes (·.walk f args xs) m o := by
  induction xs using List.reverseRecOn with
  | nil => exact ⟨_, concludes_pure_iff.2 rfl⟩
  | append_singleton xs x ih =>
    -- each call ends, with its result added or with its cause
    have hcall : ∀ vs m₁, ∃ o, reg.Concludes
        (fun ev => ev.apply f (args vs x) >>= fun v => pure (vs ++ [v])) m₁ o :=
      fun vs m₁ => exists_concludes_bind (steady_apply hreg f (args vs x))
        (fun _ _ _ _ => paired_pure trivial) (hf (args vs x) m₁)
        fun _ _ => ⟨_, concludes_pure_iff.2 rfl⟩
    simp only [Evaluator.walk_concat]
    exact exists_concludes_bind (steady_walk hreg f args xs) (steady_walk_call hreg f args x) ih
      hcall

end Programs

end Registry

/-! ## The functions that walk a list -/

/-- A new list, and the machine with it. -/
def Machine.withNewList (m : Machine κ) (elements : List Value) : Value × Machine κ :=
  (.list m.lists.next, { m with lists := m.lists.alloc elements.toArray })

/-- The functions that walk a list. -/
inductive Walker where
  | map
  | filter
  | reduce (initial : Value)

namespace Walker

def name : Walker → String
  | map => "map"
  | filter => "filter"
  | reduce _ => "reduce"

/-- What the function is called with. -/
def operands (w : Walker) (f list : Value) : List Value :=
  match w with
  | map | filter => [f, list]
  | reduce initial => [f, initial, list]

/-- What the given function is called with for an element, after some results. -/
def args : Walker → List Value → Value → List Value
  | map, _, x | filter, _, x => [x]
  | reduce initial, vs, x => [vs.getLastD initial, x]

/-- What comes of the results `vs` for the elements `xs`, on the machine that the calls leave. -/
def result (w : Walker) (xs vs : List Value) (m : Machine κ) : Value × Machine κ :=
  match w with
  | map => m.withNewList vs
  | filter => m.withNewList (((xs.zip vs).filter (·.2.truthy)).map Prod.fst)
  | reduce initial => (vs.getLastD initial, m)

/-- What comes of the results does not depend on the journal. -/
private theorem silent_result (w : Walker) (xs vs : List Value) (m : Machine κ) :
    (w.result xs vs m).2.silent = (w.result xs vs m.silent).2 := by
  cases w <;> rfl

/-- What the primitive of that name does. -/
def run (w : Walker) (apply : Applier κ) (f list : Value) : Eval κ Value :=
  match w with
  | map => Primitive.map apply f list
  | filter => Primitive.filter apply f list
  | reduce initial => Primitive.reduce apply f initial list

/-- The primitive of the list library. -/
private theorem run_of_name {w : Walker} {p : Primitive κ}
    (hp : p ∈ (Library.list.primitives : List (Primitive κ))) (hname : p.name = w.name)
    (f list : Value) : p.arity.contains (w.operands f list).length = true ∧
      ∀ apply, p.run apply (w.operands f list) = w.run apply f list := by
  revert p
  -- all others are out because of their names
  cases w <;> simp [Library.primitives, Primitive.listTable, Primitive.variadic, Primitive.binary,
    Primitive.unary, Primitive.onCell, Primitive.onItems, Primitive.binaryOptional, name, operands,
    run, Arity.contains, Arity.exactly]

/-- The elements for which a function gives a true value. -/
private theorem filterMap_truthy (xs vs : List Value) :
    ((xs.zip vs).filterMap fun (x, v) => if v.truthy then some x else none) =
      ((xs.zip vs).filter (·.2.truthy)).map Prod.fst := by
  rw [← List.filterMap_eq_filter, List.map_filterMap]
  congr 1
  funext pair
  cases htrue : pair.2.truthy <;> simp [Option.guard, htrue]

/-- The elements are taken before the first call. -/
private theorem run_eq_walk (w : Walker) {f : Value} (hf : f.isCallable = true) (r : ListRef)
    (ev : Evaluator κ) (m : Machine κ) :
    w.run ev.apply f (.list r) m =
      (ev.walk f w.args (m.lists.items r) >>= fun vs =>
        modifyGet (w.result (m.lists.items r) vs)) m := by
  have hcallable := Primitive.asCallable_of_isCallable hf
  cases w with
  | map =>
    simp only [run, Primitive.map, hcallable, Primitive.itemsOf, Value.asList, expect, pure_bind]
    refine (bind_ok rfl).trans ?_
    rw [Evaluator.mapM_eq_walk]
    rfl
  | filter =>
    simp only [run, Primitive.filter, hcallable, Primitive.itemsOf, Value.asList, expect,
      pure_bind, filterMap_truthy]
    refine (bind_ok rfl).trans ?_
    rw [Evaluator.mapM_eq_walk]
    rfl
  | reduce initial =>
    simp only [run, Primitive.reduce, hcallable, Primitive.itemsOf, Value.asList, expect, pure_bind]
    refine (bind_ok rfl).trans ?_
    rw [Evaluator.foldlM_eq_walk]
    rfl

/-- Nor does it tell journals apart. -/
private theorem approximates_result (w : Walker) (xs vs : List Value) :
    (modifyGet (w.result xs vs) : Eval κ Value).Approximates (modifyGet (w.result xs vs)) := by
  have hnew : ∀ elements, (newList elements : Eval κ Value).Approximates (newList elements) :=
    fun _ => (paired_newList fun v _ => Simulation.allows_untilExhausted v).imp fun _ _ => trivial
  cases w with
  | map => exact hnew _
  | filter => exact hnew _
  | reduce initial => exact paired_pure trivial

/-- What comes of the results, on a machine without a journal. -/
private theorem concludes_result_iff {reg : Registry κ} {w : Walker} {xs vs : List Value}
    {m : Machine κ} {o : Except Unwind Value × Machine κ} (hm : m.silent = m) :
    reg.Concludes (fun _ => modifyGet (w.result xs vs)) m o ↔
      o = (.ok (w.result xs vs m).1, (w.result xs vs m).2) := by
  have hsilent := w.silent_result xs vs m
  rw [hm] at hsilent
  refine Registry.concludes_iff_of_outcome fun _ => ?_
  rw [← hsilent]
  rfl

end Walker

namespace Registry

/-- A call of one of these functions is a walk over the elements that the list has then. -/
private theorem concludes_call_iff_walk {hosts : List (String × HostFunction κ)}
    {libraries : List Library} {w : Walker}
    (howner : (ofLibraries hosts libraries).owner? w.name = some .list) {f : Value}
    (hf : f.isCallable = true) (r : ListRef) {m : Machine κ} {o : Except Unwind Value × Machine κ} :
    (ofLibraries hosts libraries).Concludes
        (·.apply (.builtin w.name) (w.operands f (.list r))) m o ↔
      (ofLibraries hosts libraries).Concludes (fun ev =>
        ev.walk f w.args (m.lists.items r) >>= fun vs =>
          modifyGet (w.result (m.lists.items r) vs)) m o := by
  have hreg := Simulation.registry_paired_untilExhausted hosts libraries
  obtain ⟨entry, hfind, hlist⟩ := Option.map_eq_some_iff.1 howner
  obtain ⟨p, hp, hname, hfunction⟩ := exists_primitive_of_find? hfind (by simp [hlist])
  rw [hlist] at hp
  obtain ⟨hlen, hrun⟩ := Walker.run_of_name hp hname f (.list r)
  refine concludes_apply_iff_run hfind hfunction hlen ?_ ?_ ?_
  · -- walks are steady, and so is what is made of their results
    exact fun _ _ hle => (steady_walk hreg f w.args _ _ _ hle).bind fun vs _ =>
      w.approximates_result _ vs
  · intro ev m₀ hm₀
    rw [hrun, w.run_eq_walk hf, Machine.lists_eq_of_silent hm₀]
  · intro fuel m₀ u m₁ hunwinds
    -- causes come from calls, which name a function already
    have hlawful := Registry.ofLibraries_lawful hosts libraries
    have happly := (Evaluator.withFuel_lawful hlawful fuel).apply
    have hsealed : ((Evaluator.withFuel (ofLibraries hosts libraries) fuel).walk f w.args
        (m.lists.items r) >>= fun vs => modifyGet (w.result (m.lists.items r) vs)).Sealed := by
      refine (Confined.foldlM (fun vs x _ => ?_) _).bind fun vs => ?_
      · exact (happly f (w.args vs x)).bind fun _ => confined_pure _
      · cases w with
        | map => exact confined_newList _
        | filter => exact confined_newList _
        | reduce initial => exact confined_pure _
    exact (hsealed.exit hunwinds).named_eq p.name

/-- The functions `map`, `filter` and `reduce` make a call for each element that the list has when
    they are called, in order, whatever the calls do to the list.

    If all calls end with a value, the result is made of these values; if one unwinds, it is the
    last one and its cause is passed on.  There is no other way to end, and if each call ends, so
    does the function. -/
theorem snapshot_walks {reg : Registry κ} {hosts : List (String × HostFunction κ)}
    {libraries : List Library} (hreg : reg = .ofLibraries hosts libraries) {w : Walker}
    (howner : reg.owner? w.name = some .list) {f : Value} (hf : f.isCallable = true)
    (r : ListRef) (m : Machine κ) :
    (∀ v m', reg.Concludes (·.apply (.builtin w.name) (w.operands f (.list r))) m (.ok v, m') ↔
      ∃ vs m₁, reg.Walks f w.args m (m.lists.items r) vs m₁ ∧
        vs.length = (m.lists.items r).length ∧ (v, m') = w.result (m.lists.items r) vs m₁) ∧
    (∀ u m', reg.Concludes (·.apply (.builtin w.name) (w.operands f (.list r))) m (.error u, m') ↔
      reg.WalkUnwinds f w.args m (m.lists.items r) u m') ∧
    ((∀ vs m₁, ∃ o, reg.Concludes (·.apply f vs) m₁ o) →
      ∃ o, reg.Concludes (·.apply (.builtin w.name) (w.operands f (.list r))) m o) := by
  subst hreg
  have hreg := Simulation.registry_paired_untilExhausted hosts libraries
  have hsteady := steady_walk hreg f w.args (m.lists.items r)
  have hresult : ∀ vs, (ofLibraries hosts libraries).Steady fun _ =>
      modifyGet (w.result (m.lists.items r) vs) := fun vs _ _ _ => w.approximates_result _ vs
  have hcall := fun o => concludes_call_iff_walk howner hf r (m := m) (o := o)
  refine ⟨fun v m' => ?_, fun u m' => ?_, fun hends => ?_⟩
  · rw [hcall, concludes_bind_ok_iff hsteady hresult]
    refine exists_congr fun vs => exists_congr fun m₁ => ?_
    rw [concludes_walk_ok_iff hreg]
    refine and_congr_right fun hwalk => ?_
    rw [Walker.concludes_result_iff hwalk.silent_eq]
    simp [Prod.ext_iff, hwalk.length_eq]
  · rw [hcall, concludes_bind_error_iff hsteady hresult, concludes_walk_error_iff hreg]
    -- what is made of the results never fails
    refine or_iff_right ?_
    rintro ⟨vs, m₁, hwalk, hfails⟩
    have hwalk := (concludes_walk_ok_iff hreg).1 hwalk
    cases (Walker.concludes_result_iff hwalk.silent_eq).1 hfails
  · simp only [hcall]
    refine exists_concludes_bind hsteady hresult (exists_concludes_walk hreg hends _ _ _) ?_
    exact fun vs m₁ => ⟨_, (concludes_iff_of_outcome fun _ => rfl).2 rfl⟩

/-- Each call adds the element to the list that is walked, but there are two calls only. -/
theorem snapshot_walks_growing :
    ∃ (reg : Registry Unit) (r : ListRef) (w : Walker) (m m' : Machine Unit),
      reg = .ofLibraries [] Library.all ∧ w = .reduce (.list r) ∧
      reg.owner? w.name = some .list ∧ (Value.builtin "push!").isCallable = true ∧
      m.lists.items r = [.string "a", .string "b"] ∧
      m'.lists.items r = [.string "a", .string "b", .string "a", .string "b"] ∧
      reg.Concludes (·.apply (.builtin "reduce") [.builtin "push!", .list r, .list r]) m
        (.ok (.list r), m') ∧
      ∃ vs m₁, reg.Walks (.builtin "push!") w.args m [.string "a", .string "b"] vs m₁ ∧
        vs.length = 2 ∧ (.list r, m') = w.result [.string "a", .string "b"] vs m₁ := by
  let r : ListRef := ⟨0⟩
  let m : Machine Unit := { context := (), lists := ⟨#[#[.string "a", .string "b"]]⟩ }
  let last := ((Evaluator.withFuel (ofLibraries [] Library.all) 2).apply (.builtin "reduce")
    [.builtin "push!", .list r, .list r]).outcome m
  have hvalue : last.1 = .ok (.list r) := by decide +kernel
  have hgrown : last.2.lists.items r = [.string "a", .string "b", .string "a", .string "b"] := by
    decide +kernel
  have hconcludes : (ofLibraries [] Library.all).Concludes
      (·.apply (.builtin "reduce") [.builtin "push!", .list r, .list r]) m
        (.ok (.list r), last.2) :=
    ⟨nofun, 2, Prod.ext hvalue rfl⟩
  have howner : (ofLibraries [] Library.all : Registry Unit).owner?
      (Walker.reduce (.list r)).name = some .list := by rfl
  have hcallable : (Value.builtin "push!").isCallable = true := rfl
  exact ⟨_, r, .reduce (.list r), m, last.2, rfl, rfl, howner, hcallable, rfl, hgrown, hconcludes,
    ((snapshot_walks rfl howner hcallable r m).1 _ _).1 hconcludes⟩

end Registry

end Lisplet
