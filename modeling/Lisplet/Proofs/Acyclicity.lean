import Lisplet.Proofs.Literals
import Lisplet.Proofs.Ownership
import Lisplet.Proofs.RankedEvaluation

/-! # Lists that are not inside themselves

A list can come to lie inside itself only if something is put into it after it was made.  Two
functions do that, `push!` and `set-nth!`.  A program that does not name them cannot get hold of
them, not even as values, so its lists never form cycles.

The argument has two halves.  A program that does not name some functions runs as it would run
without them (`Session.Shadows`).  And where the two functions are missing, every list holds only
lists that are older than itself (`Ranking.byAge`): this is what literals, new lists, sorting and
taking away keep.

* `Registry.without`           libraries without some of their functions
* `Vocabulary.lacking`         what programs meet that do not name the functions
* `Session.Shadows`            a session beside one that lacks the functions
* `Session.lists_acyclic`      no list lies inside itself -/

namespace Lisplet

open Eval

variable {κ : Type}

/-! ## Libraries without some functions -/

namespace Registry

/-- The libraries without the functions of some names. -/
def without (reg : Registry κ) (names : List String) : Registry κ :=
  { reg with entries := reg.entries.filter fun e => !names.contains e.name }

/-- Every other function is still found. -/
private theorem find?_without {reg : Registry κ} {names : List String} {name : String}
    (h : name ∉ names) : (reg.without names).find? name = reg.find? name := by
  have hsame : (fun e : Entry κ => decide ((!names.contains e.name) = true ∧
      (e.name == name) = true)) = fun e => e.name == name := by
    funext e
    by_cases hname : e.name = name
    · simp [hname, h]
    · simp [hname]
  rw [find?, find?, without, List.find?_filter, hsame]

end Registry

/-! ## Programs that do not name some functions -/

namespace Vocabulary

/-- Programs may meet everything but the names. -/
def lacking (names : List String) : Vocabulary where
  allowsName name := name ∉ names
  allowsString _ := True
  allowsList _ := True
  allowsBuiltin name := name ∉ names

/-- An expression without the names keeps to the vocabulary. -/
private theorem over_lacking {names : List String} {e : Expr}
    (h : ∀ name ∈ names, .identifier name ∉ e.atoms) : e.Over (.lacking names) := by
  intro atom hatom
  cases atom with
  | identifier name => exact fun hname => h name hname hatom
  | _ => trivial

end Vocabulary

namespace Simulation

/-- Both sides are the same, and hold nothing that has one of the names. -/
def lacking (κ : Type) (names : List String) : Simulation κ κ where
  toVocabulary := .lacking names
  allowsLists ls := ls.Holds (Vocabulary.lacking names).Allows
  scopes s s' := s' = s ∧ s.Holds fun b => (Vocabulary.lacking names).Allows b.2
  knows _ _ := True
  context k k' := k' = k
  loses := Unwind.Never
  isFinal_of_loses := @Unwind.Never.isFinal κ
  allows_next _ := trivial
  alloc h hxs := h.alloc hxs
  next_eq h := h.1 ▸ rfl
  get?_eq h _ _ := h.1 ▸ rfl
  allows_of_get? h hget := h.2.of_get? hget
  holder?_eq h _ _ := h.1 ▸ rfl
  knows_holder _ _ _ := trivial
  spawn h _ := ⟨h.1 ▸ rfl, h.2.spawn⟩
  knows_next _ _ := trivial
  knows_spawn _ := trivial
  define h _ _ hv := ⟨h.1 ▸ rfl, h.2.define hv⟩
  knows_define _ := trivial

variable {names : List String}

/-- The vocabulary is as open as the libraries need it. -/
private theorem isOpen_lacking : (lacking κ names).IsOpen where
  allows_string _ := trivial
  allows_of_mem h hv := h _ _ hv
  modify h hf := h.modify hf

/-- Libraries do the same without the functions, as long as these are not named. -/
private theorem registry_paired_lacking (libraries : List Library) :
    (Registry.ofLibraries [] libraries).Paired (lacking κ names)
      ((Registry.ofLibraries [] libraries).without names) := by
  have hfound : ∀ name, name ∉ names → Registry.Found (lacking κ names) name
      ((Registry.ofLibraries [] libraries).find? name)
      (((Registry.ofLibraries [] libraries).without names).find? name) := by
    intro name hname
    rw [Registry.find?_without hname]
    exact Registry.found_ofLibraries isOpen_lacking .nil libraries name
  exact ⟨fun _ hname => hfound _ hname, fun hname => hfound _ hname, fun _ hname _ => hname⟩

end Simulation

namespace Session

/-- A run does not change how much fuel the next one has. -/
private theorem fuel_run (s : Session κ) (source : String) : (s.run source).2.fuel = s.fuel := by
  simp only [run, perform]
  split <;> rfl

/-- The second session is the first one without some functions of its libraries, and so far nothing
    has come of that. -/
structure Shadows (names : List String) (s t : Session κ) : Prop where
  registry : t.registry = s.registry.without names
  fuel : t.fuel = s.fuel
  machine : (Simulation.lacking κ names).Related (fun _ => True) s.machine t.machine

/-- On a fresh machine nothing is left of any function, so some can be taken away. -/
private theorem Shadows.of_fresh {s : Session κ} (hlists : s.machine.lists = {})
    (hclosures : s.machine.closures = #[]) (hscopes : s.machine.scopes = .start)
    (names : List String) : Shadows names s { s with registry := s.registry.without names } where
  registry := rfl
  fuel := rfl
  machine := {
    lists_eq := rfl
    lists := hlists ▸ .empty
    closures_eq := rfl
    closures := by
      rw [hclosures]
      exact fun c hc => absurd hc (Array.not_mem_empty c)
    printed_eq := rfl
    scopes := ⟨rfl, hscopes ▸ .start⟩
    context := rfl
    known := fun _ _ => trivial }

/-- A text that does not name the functions is run alike by both sessions. -/
theorem Shadows.run {names : List String} {s t : Session κ} (h : Shadows names s t)
    {libraries : List Library} (hreg : s.registry = .ofLibraries [] libraries) {source : String}
    (hsource : ∀ es, Expr.parse source = .ok es →
      ∀ name ∈ names, .identifier name ∉ Expr.atomsAll es) :
    Shadows names (s.run source).2 (t.run source).2 where
  registry := by rw [registry_run, registry_run, h.registry]
  fuel := by rw [fuel_run, fuel_run, h.fuel]
  machine := by
    have hpaired : s.registry.Paired (.lacking κ names) t.registry := by
      rw [h.registry, hreg]
      exact Simulation.registry_paired_lacking libraries
    have hover : ∀ es, Expr.parse source = .ok es → ∀ e ∈ es,
        e.Over (Simulation.lacking κ names).toVocabulary := by
      intro es hes e he
      refine Vocabulary.over_lacking fun name hname hatom => ?_
      exact hsource es hes name hname (Expr.mem_atomsAll.2 ⟨e, he, hatom⟩)
    have heval : (s.evaluator.run source).Paired (.lacking κ names) (fun _ => True)
        (Simulation.lacking κ names).Allows (t.evaluator.run source) := by
      unfold evaluator
      rw [h.fuel]
      exact Evaluator.run_paired_of_parse (Evaluator.withFuel_paired hpaired s.fuel) trivial hover
    exact (perform_paired heval h.machine fun _ _ hlost => hlost).2.1

end Session

/-! ## Lists hold older lists -/

/-- Of the lists, only those may be met that have been made. -/
def Ranking.byAge : Ranking where
  admits n v := v.rank ≤ n
  mono hn hv := Nat.le_trans hv hn
  of_not_list {n v} hv := by
    cases v with
    | list r => exact absurd rfl (hv r)
    | _ => exact Nat.zero_le n
  of_lt hr := hr

/-- The two functions that put values into lists. -/
def Effect.inserters : List String := ["push!", "set-nth!"]

/-- Without the two functions, libraries keep machines ranked by age. -/
private theorem Registry.without_inserters_keep (libraries : List Library) :
    ((ofLibraries [] libraries : Registry κ).without Effect.inserters).Keeps .byAge := by
  intro entry hentry apply ha n args hargs
  obtain ⟨hmem, hname⟩ := List.mem_filter.1 hentry
  obtain ⟨l, -, hl⟩ := List.mem_flatMap.1 hmem
  refine entriesOf_keep (by simp) l hl (fun hinserts => ?_) ha hargs
  simp [Effect.inserters, hinserts] at hname

/-- On a machine that is ranked by age, no list lies inside itself. -/
theorem Machine.Ranked.acyclic {m : Machine κ} (h : m.Ranked .byAge) (r : ListRef) :
    ¬ Relation.TransGen (Value.Holds m.lists) (.list r) (.list r) := by
  have hrank : ∀ {s v}, v ∈ m.lists.items s → v.rank ≤ s.index := fun {s v} hv =>
    h.elements s v (Array.mem_toList_iff.1 hv)
  exact fun hcycle => Nat.lt_irrefl _ (Value.rank_lt_of_transGen hrank hcycle)

/-! ## Sessions -/

namespace Session

/-- What runs keep: beside the session there is one without the two functions, and there each list
    holds older lists only. -/
private theorem exists_shadow_runAll {s t : Session κ} (hshadow : Shadows Effect.inserters s t)
    {libraries : List Library} (hreg : s.registry = .ofLibraries [] libraries)
    (hm : t.machine.Ranked .byAge) {sources : List String}
    (hsources : ∀ source ∈ sources, ∀ es, Expr.parse source = .ok es →
      ∀ name ∈ Effect.inserters, .identifier name ∉ Expr.atomsAll es) :
    Shadows Effect.inserters (s.runAll sources) (t.runAll sources) ∧
      (t.runAll sources).machine.Ranked .byAge := by
  induction sources generalizing s t with
  | nil => exact ⟨hshadow, hm⟩
  | cons source sources ih =>
    obtain ⟨hsource, hsources⟩ := List.forall_mem_cons.1 hsources
    -- the run without the two functions keeps lists ranked, and the other one follows it
    have hkeeps : t.registry.Keeps .byAge := by
      rw [hshadow.registry, hreg]
      exact Registry.without_inserters_keep libraries
    have hreg' : (s.run source).2.registry = .ofLibraries [] libraries :=
      (registry_run s source).trans hreg
    exact ih (hshadow.run hreg hsource) hreg' (run_ranked hkeeps hm source) hsources

/-- Cycles need `push!` or `set-nth!`.  Whatever libraries are active, if there are no host
    functions and the texts that are run on a fresh machine do not name the two, then at no time
    between the runs does a list lie inside itself, whether the runs failed or not. -/
theorem lists_acyclic {o : Options κ} (hhosts : o.hostFunctions = []) {context : κ}
    {journal : Option (Array Record)} {fuel : Nat} {s : Session κ}
    (hs : start o { context, journal } fuel = .ok s) {sources : List String}
    (hsources : ∀ source ∈ sources, ∀ es, Expr.parse source = .ok es →
      .identifier "push!" ∉ Expr.atomsAll es ∧ .identifier "set-nth!" ∉ Expr.atomsAll es)
    (r : ListRef) :
    ¬ Relation.TransGen (Value.Holds (s.runAll sources).machine.lists) (.list r) (.list r) := by
  obtain ⟨hchosen, hmachine, -⟩ := of_start hs
  obtain ⟨libraries, hreg⟩ := Registry.exists_of_ofOptions hchosen
  rw [hhosts] at hreg
  have hscopes : s.machine.scopes = .start := congrArg Machine.scopes hmachine
  have hlists : s.machine.lists = {} := congrArg Machine.lists hmachine
  have hclosures : s.machine.closures = #[] := congrArg Machine.closures hmachine
  -- a session without the two functions, on the same fresh machine
  have hshadow := Shadows.of_fresh hlists hclosures hscopes Effect.inserters
  have hfresh : s.machine.Ranked .byAge := .fresh hlists hscopes
  have hnames : ∀ source ∈ sources, ∀ es, Expr.parse source = .ok es →
      ∀ name ∈ Effect.inserters, .identifier name ∉ Expr.atomsAll es := by
    intro source hsource es hes
    obtain ⟨hpush, hset⟩ := hsources source hsource es hes
    simpa [Effect.inserters] using ⟨hpush, hset⟩
  obtain ⟨hafter, hranked⟩ := exists_shadow_runAll hshadow hreg hfresh hnames
  rw [← hafter.machine.lists_eq]
  exact hranked.acyclic r

/-- A list is shared by another one that is sorted by a function, which empties the shared one on
    the way; and a run fails. -/
theorem lists_acyclic_sorted :
    ∃ (s : Session Unit) (sources : List String), start {} { context := () } = .ok s ∧
      sources = ["(let a [null]) (let b [a [] a]) (sort! b (lambda (x y) (pop! a)))",
        "(pop! b b)"] ∧
      (s.runAll sources).machine.lists.items ⟨0⟩ = [] ∧
      (s.runAll sources).machine.lists.items ⟨2⟩ = [.list ⟨0⟩, .list ⟨1⟩, .list ⟨0⟩] ∧
      ∀ r, ¬ Relation.TransGen (Value.Holds (s.runAll sources).machine.lists)
        (.list r) (.list r) := by
  have hs : start {} { context := () } =
      .ok ⟨.ofLibraries [] Library.all, { context := () }, ampleFuel⟩ := rfl
  have hsort : Expr.parse "(let a [null]) (let b [a [] a]) (sort! b (lambda (x y) (pop! a)))" =
      .ok [.call [.identifier "let", .identifier "a", .list [.null]],
        .call [.identifier "let", .identifier "b",
          .list [.identifier "a", .list [], .identifier "a"]],
        .call [.identifier "sort!", .identifier "b", .call [.identifier "lambda",
          .call [.identifier "x", .identifier "y"],
          .call [.identifier "pop!", .identifier "a"]]]] := by rfl
  have hpop : Expr.parse "(pop! b b)" =
      .ok [.call [.identifier "pop!", .identifier "b", .identifier "b"]] := by rfl
  have hnames : ∀ source ∈
      ["(let a [null]) (let b [a [] a]) (sort! b (lambda (x y) (pop! a)))", "(pop! b b)"],
      ∀ es, Expr.parse source = .ok es →
        .identifier "push!" ∉ Expr.atomsAll es ∧ .identifier "set-nth!" ∉ Expr.atomsAll es := by
    -- neither text names the two functions
    rw [List.forall_mem_cons, List.forall_mem_singleton]
    constructor
    · intro es hes
      cases hsort.symm.trans hes
      simp [Expr.atomsAll, Expr.atoms]
    · intro es hes
      cases hpop.symm.trans hes
      simp [Expr.atomsAll, Expr.atoms]
  exact ⟨_, _, hs, rfl, by decide +kernel, by decide +kernel, lists_acyclic rfl hs hnames⟩

/-- With `push!` a list can be put into itself. -/
example : ((⟨.ofLibraries [] [.list], { context := () }, ampleFuel⟩ : Session Unit).runAll
    ["(let a []) (push! a a)"]).machine.lists.items ⟨0⟩ = [.list ⟨0⟩] := by
  decide +kernel

end Session
end Lisplet
