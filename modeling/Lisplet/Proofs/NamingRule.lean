import Lisplet.Proofs.LibraryOrder
import Lisplet.Proofs.RankedEvaluation

/-! # What names promise

A function whose name ends in `!` changes the list that is its first argument and no other; every
other function leaves all lists as they are.  A function that fails has changed nothing.  And a
function that makes a list returns one that was not there before, so that nobody else can see what
is done with it.

The rule is about calls that do not call functions in turn, since a function that is called may do
anything.  That the result is a new list holds of `map` and `filter` all the same.

* `Effect.Outcome.cell_eq`      lists that an effect leaves alone
* `Primitive.Does.call`         what a call does, its records apart
* `Library.effect_of_name`      names that end in `!`
* `Library.naming_rule`         the rule for all primitives -/

namespace Lisplet

open Eval

variable {κ : Type}

namespace Effect

variable {e : Effect} {args : List Value} {m m' : Machine κ} {v : Value}

/-- The functions of this effect write into a list that is there already. -/
def Writes (e : Effect) : Prop := e = .rearranges ∨ e = .inserts

/-- Journals are of no importance to effects. -/
theorem Outcome.silent (h : e.Outcome args m v m') : e.Outcome args m.silent v m'.silent := by
  cases h with
  | reads printed hv => exact .reads printed hv
  | makes hxs => exact .makes hxs
  | rearranges hr hf hv => exact .rearranges hr hf hv
  | inserts hr hv => exact .inserts hr hv

/-- A list stays as it is unless it is the first argument of a function that writes. -/
theorem Outcome.cell_eq (h : e.Outcome args m v m') {r : ListRef} (hr : r.index < m.lists.size)
    (hne : e.Writes → args.head? ≠ some (.list r)) : m'.lists.cell r = m.lists.cell r := by
  have hother : ∀ {s : ListRef}, args.head? = some (.list s) → e.Writes → s ≠ r := by
    rintro s hs hwrites rfl
    exact hne hwrites hs
  cases h with
  | reads => rfl
  | makes => exact Lists.cell_alloc_of_lt hr _
  | rearranges hs => exact Lists.cell_modify_of_ne _ (hother hs (.inl rfl)) _
  | inserts hs => exact Lists.cell_modify_of_ne _ (hother hs (.inr rfl)) _

/-- Only a function that makes a list adds one. -/
theorem Outcome.size_eq (h : e.Outcome args m v m') (he : e.Writes) :
    m'.lists.size = m.lists.size := by
  cases h with
  | reads => rfl
  | makes => exact absurd he (by simp [Writes])
  | rearranges => exact Lists.size_modify ..
  | inserts => exact Lists.size_modify ..

/-- A function that makes a list returns it. -/
private theorem Outcome.madeSince (h : e.Outcome args m v m') (he : e = .makes) :
    v.MadeSince m.lists.size m'.lists.size := by
  subst he
  cases h with
  | makes hxs =>
    rw [Lists.size_alloc]
    exact ⟨m.lists.next, rfl, Nat.le_refl _, Nat.lt_succ_self _⟩

end Effect

namespace Primitive

variable {p : Primitive κ} {e : Effect} {args : List Value}

/-- A call has the effect of the primitive if it succeeds and none if it fails, apart from what it
    records. -/
theorem Does.call (h : p.Does e) (hconsults : ¬ p.Consults args) (apply : Applier κ)
    (m : Machine κ) :
    (p.call apply args).Ends m (fun v m' => e.Outcome args m.silent v m'.silent)
      fun _ m' => m'.silent = m.silent := by
  by_cases hlen : p.arity.contains args.length = true
  · -- the primitive runs on the machine with the record of the call
    obtain ⟨m₀, hm₀, hcall⟩ := exists_ends_call hlen m
    refine (hcall (h apply args hlen hconsults m₀)).imp ?_ ?_
    · rintro v m' ⟨m₁, hout, hm'⟩
      rw [← hm₀, hm']
      exact hout.silent
    · rintro u m' ⟨_, m₁, rfl, -, hm'⟩
      rw [hm', hm₀]
  · -- with a wrong number of arguments the primitive is not run at all
    unfold Primitive.call checkArity
    rw [ends_bind, if_neg hlen, ends_fail]

end Primitive

namespace Library

/-- Names that end in `!` are the names of functions that write. -/
theorem effect_of_name {l : Library} {p : Primitive κ} (hp : p ∈ l.primitives) :
    p.name.toList.getLast? = some '!' ↔ (Effect.ofName p.name).Writes := by
  have hall : ∀ l ∈ all, ∀ name ∈ l.primitiveNames,
      (name.toList.getLast? = some '!' ↔
        (Effect.ofName name = .rearranges ∨ Effect.ofName name = .inserts)) := by
    decide +kernel
  exact hall l l.mem_all p.name (name_mem_primitiveNames hp)

section Calls

variable {l : Library} {p : Primitive κ} {args : List Value} (hp : p ∈ l.primitives)
  (hconsults : ¬ p.Consults args) (apply : Applier κ)
include hp hconsults

/-- What a call does that calls no functions in turn. -/
private theorem ends_call (m : Machine κ) :
    (p.call apply args).Ends m
      (fun v m' => (Effect.ofName p.name).Outcome args m.silent v m'.silent)
      fun _ m' => m'.silent = m.silent :=
  (l.primitives_do p hp).call hconsults apply m

/-- However a call ends, a list stays as it is unless it is the first argument of a function that
    writes. -/
private theorem cell_after_call {m : Machine κ} {r : ListRef} (hr : r.index < m.lists.size)
    (hne : (Effect.ofName p.name).Writes → args.head? ≠ some (.list r)) :
    ((p.call apply args).after m).lists.cell r = m.lists.cell r := by
  have hends : (p.call apply args).Ends m (fun _ m' => m'.lists.cell r = m.lists.cell r)
      fun _ m' => m'.lists.cell r = m.lists.cell r :=
    (ends_call hp hconsults apply m).imp (fun _ _ hout => hout.cell_eq hr hne)
      fun _ _ hm' => congrArg (·.lists.cell r) hm'
  exact hends.after

/-- However a call ends, a function that writes adds no list. -/
private theorem size_after_call (m : Machine κ) (hwrites : (Effect.ofName p.name).Writes) :
    ((p.call apply args).after m).lists.size = m.lists.size := by
  have hends : (p.call apply args).Ends m (fun _ m' => m'.lists.size = m.lists.size)
      fun _ m' => m'.lists.size = m.lists.size :=
    (ends_call hp hconsults apply m).imp (fun _ _ hout => hout.size_eq hwrites)
      fun _ _ hm' => congrArg (·.lists.size) hm'
  exact hends.after

end Calls

/-- The functions that make lists, those included that call functions. -/
private theorem makes_of_mem {name : String} (h : name ∈
    ["list", "rest", "range", "concat", "reverse", "slice", "map", "filter", "split"]) :
    Effect.ofName name = .makes := by
  revert name
  decide +kernel

/-- The naming rule.  Take any call of a primitive that does not call functions in turn, on any
    machine.  If the name does not end in `!`, all lists that exist stay as they are.  If it does,
    the first argument is the only list that can change, and no list is added.  If the call fails,
    nothing has changed.  Moreover, what the functions return that make lists, `map` and `filter`
    included, is a list that did not exist before the call; host functions that are called on the
    way must not drop lists. -/
theorem naming_rule (hosts : List (String × HostFunction κ)) (libraries : List Library)
    (fuel : Nat) {l : Library} {p : Primitive κ} (hp : p ∈ l.primitives) (args : List Value)
    (m : Machine κ) :
    let call := p.call (Evaluator.withFuel (.ofLibraries hosts libraries) fuel).apply args
    (¬ p.Consults args →
      (p.name.toList.getLast? ≠ some '!' → ∀ r : ListRef, r.index < m.lists.size →
        (call.after m).lists.cell r = m.lists.cell r) ∧
      (p.name.toList.getLast? = some '!' → (call.after m).lists.size = m.lists.size ∧
        ∀ r : ListRef, r.index < m.lists.size → args.head? ≠ some (.list r) →
          (call.after m).lists.cell r = m.lists.cell r) ∧
      ∀ u m', call m = .error u m' → m'.silent = m.silent) ∧
    (p.name ∈ ["list", "rest", "range", "concat", "reverse", "slice", "map", "filter", "split"] →
      (p.Consults args → ∀ f ∈ hosts, f.2.KeepsLists) → ∀ v m', call m = .ok v m' →
        ∃ r, v = .list r ∧ m.lists.size ≤ r.index ∧ r.index < m'.lists.size) := by
  intro call
  constructor
  · intro hconsults
    refine ⟨fun hname r hr => ?_, fun hname => ⟨?_, fun r hr hne => ?_⟩, fun u m' herror => ?_⟩
    · exact cell_after_call hp hconsults _ hr fun hw => absurd ((effect_of_name hp).2 hw) hname
    · exact size_after_call hp hconsults _ m ((effect_of_name hp).1 hname)
    · exact cell_after_call hp hconsults _ hr fun _ => hne
    · exact (ends_call hp hconsults _ m).of_error herror
  · intro hname hhosts v m' hok
    by_cases hconsults : p.Consults args
    · -- functions are called before the list is made, and none of them drops a list
      have hkeeps := Evaluator.withFuel_keeps
        (Registry.ofLibraries_keep (hhosts hconsults) libraries) fuel
      have hcall : call.Keeps .free m.lists.size
          ((Effect.ofName p.name).Yields .free m.lists.size) :=
        (l.primitives_keep hp fun _ _ _ => trivial).call hkeeps.apply fun _ _ => trivial
      obtain ⟨-, -, -, hmade⟩ := (hcall m (.free m) (Nat.le_refl _)).of_ok hok
      exact hmade (makes_of_mem hname)
    · exact ((ends_call hp hconsults _ m).of_ok hok).madeSince (makes_of_mem hname)

/-- The list that `pop!` is given changes, the list inside it does not, and `map` makes a third
    one. -/
theorem naming_rule_pop :
    ∃ (m : Machine Unit) (apply : Applier Unit) (pop map : Primitive Unit),
      m.lists = ⟨#[#[.null], #[.list ⟨0⟩, .null]]⟩ ∧
      (pop ∈ list.primitives ∧ pop.name = "pop!" ∧ ¬ pop.Consults [.list ⟨1⟩] ∧
        ((pop.call apply [.list ⟨1⟩]).after m).lists.cell ⟨1⟩ = #[.list ⟨0⟩] ∧
        ((pop.call apply [.list ⟨1⟩]).after m).lists.cell ⟨0⟩ = m.lists.cell ⟨0⟩) ∧
      map ∈ list.primitives ∧ map.name = "map" ∧
        ∃ v m', map.call apply [.builtin "list?", .list ⟨1⟩] m = .ok v m' ∧
          ∃ r, v = .list r ∧ 2 ≤ r.index ∧ r.index < m'.lists.size := by
  let hosts : List (String × HostFunction Unit) := [("shout", fun _ => pure .null)]
  have hhosts : ∀ f ∈ hosts, f.2.KeepsLists :=
    List.forall_mem_singleton.2 fun _ _ => Nat.le_refl _
  have hpop : Primitive.unary "pop!" Primitive.pop ∈ (list.primitives : List (Primitive Unit)) := by
    simp [primitives, Primitive.listTable]
  have hmap : (Primitive.listTable : List (Primitive Unit)).get ⟨13, by decide⟩ ∈
      (list.primitives : List (Primitive Unit)) := List.get_mem ..
  let m : Machine Unit := { lists := ⟨#[#[.null], #[.list ⟨0⟩, .null]]⟩, context := () }
  have hconsults : ¬ (Primitive.unary "pop!" Primitive.pop : Primitive Unit).Consults
      [.list ⟨1⟩] := by simp [Primitive.Consults, Primitive.unary]
  let apply := (Evaluator.withFuel (.ofLibraries hosts [list]) 2).apply
  have hrun : ((Primitive.listTable : List (Primitive Unit)).get ⟨13, by decide⟩).call apply
      [.builtin "list?", .list ⟨1⟩] m =
        .ok (.list ⟨2⟩) { m with lists := m.lists.alloc #[.bool true, .bool false] } := rfl
  obtain ⟨-, hcell, -⟩ := (naming_rule hosts [list] 2 hpop [.list ⟨1⟩] m).1 hconsults
  have hnew := (naming_rule hosts [list] 2 hmap [.builtin "list?", .list ⟨1⟩] m).2 (by decide)
    fun _ => hhosts
  refine ⟨m, apply, _, _, rfl, ⟨hpop, rfl, hconsults, rfl, ?_⟩, hmap, rfl, _, _, hrun,
    hnew _ _ hrun⟩
  exact (hcell rfl).2 ⟨0⟩ (by decide) (by decide)

end Library
end Lisplet
