import Lisplet.Proofs.Outcomes

/-! # Direct calls

A function of a library can be called in two ways: under its name, by an expression, or as a value
that stands for it.  The first way leads through the table of the library with the arguments still
unevaluated, the second one is a call with values.  They come to the same, except for the two
functions `and` and `or` of the core library.  A direct call of these evaluates its arguments only
up to the first one that settles the outcome, and the primitives behind them, which are given all
the values, have to agree with that.

* `ShortCircuit.Decided`            among the values is one that settles the outcome
* `ShortCircuit.EndsAt`             where a direct call stops
* `Registry.concludes_shortCircuit_ok_iff`,
  `Registry.concludes_shortCircuit_error_iff`    how a direct call of `and` or `or` ends
* `Registry.direct_call_agrees`     direct calls and calls of values -/

namespace Lisplet

open Eval

variable {κ : Type}

/-! ## Where a direct call stops -/

namespace ShortCircuit

variable {s : ShortCircuit} {v : Value} {vs ws : List Value} {rest : List Expr}

/-- The function of the core library. -/
def name : ShortCircuit → String
  | all => "and"
  | any => "or"

/-- Among the values is one that settles the outcome. -/
def Decided (s : ShortCircuit) (vs : List Value) : Prop := ∃ v ∈ vs, s.settles v = true

/-- A direct call stops after the values `vs`, with the arguments `rest` left over: not earlier,
    since the values before the last one settle nothing, and not later, since there are no more
    arguments or the outcome is settled. -/
structure EndsAt (s : ShortCircuit) (vs : List Value) (rest : List Expr) : Prop where
  undecided : ¬ s.Decided vs.dropLast
  decided : rest = [] ∨ s.Decided vs

/-- Nothing is settled without values. -/
private theorem not_decided_nil : ¬ s.Decided [] := fun ⟨_, hv, _⟩ => List.not_mem_nil hv

/-- The first value settles the outcome, or a later one. -/
private theorem decided_cons_iff : s.Decided (v :: vs) ↔ s.settles v = true ∨ s.Decided vs := by
  simp [Decided]

/-- A value that settles the outcome is the last one. -/
private theorem endsAt_cons_of_settles (hv : s.settles v = true) :
    s.EndsAt (v :: vs) rest ↔ vs = [] := by
  constructor
  · intro h
    cases vs with
    | nil => rfl
    | cons w vs => exact absurd (decided_cons_iff.2 (.inl hv)) h.undecided
  · intro h
    rw [h]
    exact ⟨not_decided_nil, .inr (decided_cons_iff.2 (.inl hv))⟩

/-- A value that does not settle the outcome makes no difference. -/
private theorem endsAt_cons_of_not_settles (hv : s.settles v = false) :
    s.EndsAt (v :: vs) rest ↔ s.EndsAt vs rest := by
  have hcons : ∀ ws, s.Decided (v :: ws) ↔ s.Decided ws := fun ws => by
    simp [decided_cons_iff, hv]
  have hinit : s.Decided (v :: vs).dropLast ↔ s.Decided vs.dropLast := by
    cases vs with
    | nil => exact ⟨fun h => absurd h not_decided_nil, fun h => absurd h not_decided_nil⟩
    | cons w vs => exact hcons _
  constructor
  · exact fun h => ⟨mt hinit.2 h.undecided, h.decided.imp_right (hcons vs).1⟩
  · exact fun h => ⟨mt hinit.1 h.undecided, h.decided.imp_right (hcons vs).2⟩

/-- The outcome for all the values is the value at which a direct call stops, and values after one
    that settles it make no difference. -/
private theorem EndsAt.outcome_append (h : s.EndsAt vs rest) (hws : ws = [] ∨ s.Decided vs) :
    s.outcome (vs ++ ws) = vs.getLast?.getD s.empty := by
  obtain rfl | ⟨init, v, rfl⟩ := vs.eq_nil_or_concat'
  · obtain rfl | hdecided := hws
    · rfl
    · exact absurd hdecided not_decided_nil
  · have hinit : ¬ s.Decided init := by simpa using h.undecided
    have hnone : init.find? s.settles = none := by simpa [Decided] using hinit
    -- the last value settles the outcome, or nothing does and there are no others
    cases hv : s.settles v with
    | true => simp [outcome, hnone, hv]
    | false =>
      have hlast : ¬ s.Decided (init ++ [v]) := by
        simpa [Decided, hv] using hinit
      have hnil : ws = [] := hws.resolve_right hlast
      simp [outcome, hnil, hnone, hv]

end ShortCircuit

/-! ## The functions of the libraries -/

namespace Library

/-- The function of the core library that has the name of a short circuit. -/
private theorem eq_circuit_of_name {p : Primitive κ} {s : ShortCircuit}
    (hp : p ∈ (core.primitives : List (Primitive κ))) (hname : p.name = s.name) :
    p = Primitive.circuit s.name s := by
  revert p
  cases s <;> simp [primitives, Primitive.coreTable, Primitive.variadic, Primitive.unary,
    Primitive.binary, Primitive.circuit, ShortCircuit.name]

/-- Only the two functions of the core library are short circuits. -/
private theorem of_shortCircuit {l : Library} {p : Primitive κ} {s : ShortCircuit}
    (hp : p ∈ l.primitives) (h : p.shortCircuit = some s) : l = .core ∧ p.name = s.name := by
  have hall : ((l.primitives : List (Primitive κ)).all fun p => p.shortCircuit.all fun s =>
      l == .core && p.name == s.name) = true := by
    cases l <;> rfl
  have hp := List.all_eq_true.1 hall p hp
  simpa [h] using hp

end Library

namespace Registry

variable {hosts : List (String × HostFunction κ)} {libraries : List Library} {name : String}
  {entry : Entry κ} {s : ShortCircuit}

/-- What the name of a short circuit means if it belongs to the core library. -/
private theorem function_eq_circuit (h : (ofLibraries hosts libraries).find? name = some entry)
    (hcore : entry.library = .core) (hname : name = s.name) :
    entry.function = .primitive (Primitive.circuit s.name s) := by
  obtain ⟨p, hp, hpname, hfunction⟩ := exists_primitive_of_find? h (by simp [hcore])
  rw [hcore] at hp
  rw [hfunction, Library.eq_circuit_of_name hp (hpname.trans hname)]

/-- No other name means a short circuit. -/
private theorem of_shortCircuit (h : (ofLibraries hosts libraries).find? name = some entry)
    (hcircuit : entry.shortCircuit = some s) : entry.library = .core ∧ name = s.name := by
  by_cases hlibrary : entry.library = .ext
  · -- functions of the host are never short circuits
    have hmem := List.mem_of_find?_eq_some (mem_libraries_of_find? h).2
    rw [hlibrary] at hmem
    obtain ⟨f, -, rfl⟩ := List.mem_map.1 hmem
    cases hcircuit
  · obtain ⟨p, hp, hpname, hfunction⟩ := exists_primitive_of_find? h hlibrary
    simp only [Entry.shortCircuit, hfunction] at hcircuit
    rw [← hpname]
    exact Library.of_shortCircuit hp hcircuit

end Registry

/-! ## One argument after the other -/

namespace Registry

section Arguments

variable {reg : Registry κ} (hreg : reg.Paired (.untilExhausted κ) reg) {s : ShortCircuit}
  {scope : FrameRef} {e : Expr} {es : List Expr} {m m' : Machine κ} {v last : Value}
  {vs : List Value} {u : Unwind} {o : Except Unwind Value × Machine κ}

/-- Without arguments nothing happens. -/
theorem concludes_sequence_nil_iff :
    reg.Concludes (·.sequence [] scope) m (.ok vs, m') ↔ vs = [] ∧ m' = m.silent := by
  have hnil : (fun ev : Evaluator κ => ev.sequence [] scope) = fun _ => pure [] := by
    funext ev
    exact List.mapM_nil
  rw [hnil, concludes_pure_iff]
  simp

include hreg

/-- The first argument comes first. -/
theorem concludes_sequence_cons_iff :
    reg.Concludes (·.sequence (e :: es) scope) m (.ok vs, m') ↔
      ∃ v m₁ rest, vs = v :: rest ∧ reg.Concludes (·.eval e scope) m (.ok v, m₁) ∧
        reg.Concludes (·.sequence es scope) m₁ (.ok rest, m') := by
  have hcons : (fun ev : Evaluator κ => ev.sequence (e :: es) scope) = fun ev =>
      ev.eval e scope >>= fun v => ev.sequence es scope >>= fun rest => pure (v :: rest) := by
    funext ev
    exact List.mapM_cons
  have hes := steady_sequence hreg es scope
  have hrest : ∀ v : Value, reg.Steady fun ev =>
      ev.sequence es scope >>= fun rest => pure (v :: rest) :=
    fun v => hes.bind fun rest => steady_pure reg (v :: rest)
  rw [hcons, concludes_bind_ok_iff (steady_eval hreg e scope) hrest]
  simp only [concludes_bind_pure_ok_iff hes]
  grind

/-- As many values as arguments. -/
private theorem length_of_concludes_sequence
    (h : reg.Concludes (·.sequence es scope) m (.ok vs, m')) : vs.length = es.length := by
  induction es generalizing m vs with
  | nil => simp [(concludes_sequence_nil_iff.1 h).1]
  | cons e es ih =>
    obtain ⟨v, m₁, rest, rfl, -, hes⟩ := (concludes_sequence_cons_iff hreg).1 h
    simp [ih hes]

private theorem steady_shortCircuit (s : ShortCircuit) (scope : FrameRef) (last : Value)
    (es : List Expr) : reg.Steady (·.shortCircuit s scope last es) :=
  steady_of_paired hreg fun hev => (Evaluator.shortCircuit_paired hev s
    (fun e _ => Simulation.over_untilExhausted e) trivial
    (Simulation.allows_untilExhausted last)).imp fun _ _ => trivial

/-- The first argument settles the outcome, or is followed by the others, or unwinds. -/
private theorem concludes_shortCircuit_cons_iff :
    reg.Concludes (·.shortCircuit s scope last (e :: es)) m o ↔
      (∃ v m₁, reg.Concludes (·.eval e scope) m (.ok v, m₁) ∧
        if s.settles v then o = (.ok v, m₁)
        else reg.Concludes (·.shortCircuit s scope v es) m₁ o) ∨
      ∃ u, o.1 = .error u ∧ reg.Concludes (·.eval e scope) m (.error u, o.2) := by
  have hrest : ∀ v : Value, reg.Steady fun ev =>
      if s.settles v then pure v else ev.shortCircuit s scope v es := by
    intro v
    split
    · exact steady_pure reg v
    · exact steady_shortCircuit hreg s scope v es
  refine (concludes_bind_iff (steady_eval hreg e scope) hrest).trans (or_congr_left ?_)
  refine exists_congr fun v => exists_congr fun m₁ => and_congr_right fun he => ?_
  split
  · rw [concludes_pure_iff, he.silent_eq]
  · exact Iff.rfl

/-- A direct call ends with a value where the values of some arguments from the first on are such
    that no more are asked for.  The outcome is the last of them. -/
theorem concludes_shortCircuit_ok_iff :
    reg.Concludes (·.shortCircuit s scope last es) m (.ok v, m') ↔
      ∃ done rest vs, es = done ++ rest ∧ reg.Concludes (·.sequence done scope) m (.ok vs, m') ∧
        s.EndsAt vs rest ∧ v = vs.getLast?.getD last := by
  -- each value that settles nothing becomes the last one so far
  induction es generalizing m last with
  | nil =>
    refine concludes_pure_iff.trans ⟨fun h => ?_, ?_⟩
    · cases h
      exact ⟨[], [], [], rfl, concludes_sequence_nil_iff.2 ⟨rfl, rfl⟩,
        ⟨ShortCircuit.not_decided_nil, .inl rfl⟩, rfl⟩
    · rintro ⟨done, rest, vs, hes, hdone, -, rfl⟩
      obtain ⟨rfl, -⟩ := List.append_eq_nil_iff.1 hes.symm
      obtain ⟨rfl, rfl⟩ := concludes_sequence_nil_iff.1 hdone
      rfl
  | cons e es ih =>
    rw [concludes_shortCircuit_cons_iff hreg]
    constructor
    · rintro (⟨w, m₁, he, hrest⟩ | ⟨_, hu, -⟩)
      · split at hrest
        · -- this value settles the outcome
          rename_i hw
          cases hrest
          have hnil : reg.Concludes (·.sequence [] scope) m' (.ok [], m') :=
            concludes_sequence_nil_iff.2 ⟨rfl, he.silent_eq.symm⟩
          exact ⟨[e], es, [v], rfl,
            (concludes_sequence_cons_iff hreg).2 ⟨v, m', [], rfl, he, hnil⟩,
            (ShortCircuit.endsAt_cons_of_settles hw).2 rfl, rfl⟩
        · rename_i hw
          obtain ⟨done, rest, vs, rfl, hdone, hends, rfl⟩ := ih.1 hrest
          refine ⟨e :: done, rest, w :: vs, rfl,
            (concludes_sequence_cons_iff hreg).2 ⟨w, m₁, vs, rfl, he, hdone⟩,
            (ShortCircuit.endsAt_cons_of_not_settles (by simpa using hw)).2 hends, ?_⟩
          rw [List.getLast?_cons, Option.getD_some]
      · cases hu
    · rintro ⟨done, rest, vs, hes, hdone, hends, rfl⟩
      cases done with
      | nil =>
        -- nothing is settled before the first argument
        obtain ⟨rfl, -⟩ := concludes_sequence_nil_iff.1 hdone
        cases hes
        exact absurd (hends.decided.resolve_left (by simp)) ShortCircuit.not_decided_nil
      | cons e' done =>
        cases hes
        obtain ⟨w, m₁, vs, rfl, he, hdone⟩ := (concludes_sequence_cons_iff hreg).1 hdone
        refine .inl ⟨w, m₁, he, ?_⟩
        cases hw : s.settles w with
        | true =>
          obtain rfl := (ShortCircuit.endsAt_cons_of_settles hw).1 hends
          obtain rfl : done = [] :=
            List.eq_nil_of_length_eq_zero (length_of_concludes_sequence hreg hdone).symm
          obtain ⟨-, rfl⟩ := concludes_sequence_nil_iff.1 hdone
          simp [he.silent_eq]
        | false =>
          refine ih.2 ⟨done, rest, vs, rfl, hdone,
            (ShortCircuit.endsAt_cons_of_not_settles hw).1 hends, ?_⟩
          rw [List.getLast?_cons, Option.getD_some]

/-- A direct call unwinds where an argument does that is asked for. -/
theorem concludes_shortCircuit_error_iff :
    reg.Concludes (·.shortCircuit s scope last es) m (.error u, m') ↔
      ∃ done e rest vs m₁, es = done ++ e :: rest ∧
        reg.Concludes (·.sequence done scope) m (.ok vs, m₁) ∧ ¬ s.Decided vs ∧
        reg.Concludes (·.eval e scope) m₁ (.error u, m') := by
  induction es generalizing m last with
  | nil =>
    refine concludes_pure_iff.trans ⟨fun h => ?_, ?_⟩
    · cases h
    · rintro ⟨done, e, rest, vs, m₁, hes, -⟩
      simp at hes
  | cons e es ih =>
    rw [concludes_shortCircuit_cons_iff hreg]
    constructor
    · rintro (⟨w, m₁, he, hrest⟩ | ⟨_, hu, he⟩)
      · split at hrest
        · -- a value that settles the outcome leaves nothing to unwind
          cases hrest
        · rename_i hw
          obtain ⟨done, e', rest, vs, m₂, rfl, hdone, hvs, he'⟩ := ih.1 hrest
          exact ⟨e :: done, e', rest, w :: vs, m₂, rfl,
            (concludes_sequence_cons_iff hreg).2 ⟨w, m₁, vs, rfl, he, hdone⟩,
            by simp [ShortCircuit.decided_cons_iff, hw, hvs], he'⟩
      · -- the first argument itself unwinds
        cases hu
        exact ⟨[], e, es, [], m.silent, rfl, concludes_sequence_nil_iff.2 ⟨rfl, rfl⟩,
          ShortCircuit.not_decided_nil,
          ((steady_eval hreg e scope).concludes_silent_iff m.silent_silent).2 he⟩
    · rintro ⟨done, e', rest, vs, m₁, hes, hdone, hvs, he'⟩
      cases done with
      | nil =>
        cases hes
        obtain ⟨rfl, rfl⟩ := concludes_sequence_nil_iff.1 hdone
        exact .inr ⟨u, rfl, ((steady_eval hreg e scope).concludes_silent_iff m.silent_silent).1 he'⟩
      | cons e₁ done =>
        cases hes
        obtain ⟨w, m₂, vs, rfl, he, hdone⟩ := (concludes_sequence_cons_iff hreg).1 hdone
        rw [ShortCircuit.decided_cons_iff, not_or] at hvs
        refine .inl ⟨w, m₂, he, ?_⟩
        rw [if_neg hvs.1]
        exact ih.2 ⟨done, e', rest, vs, m₁, rfl, hdone, hvs.2, he'⟩

end Arguments

/-! ## The two ways of calling -/

section Calls

variable {reg : Registry κ} {name : String} {entry : Entry κ}
  (hfind : reg.find? name = some entry) {args : List Expr} {scope : FrameRef} {m : Machine κ}
  {o : Except Unwind Value × Machine κ}
include hfind

/-- A direct call takes a step to what the library does. -/
private theorem concludes_eval_direct_iff {x : Evaluator κ → Eval κ Value} (hx : reg.Steady x)
    (hform : Keyword.ofName? name = none) (hunbound : m.scopes.get? scope name = none)
    (hcall : ∀ ev : Evaluator κ, ev.callDirectly entry args scope = (do
      Eval.record .trace fun _ =>
        "dispatch " ++ entry.name ++ " to library " ++ entry.library.name
      x ev)) :
    reg.Concludes (·.eval (.call (.identifier name :: args)) scope) m o ↔
      reg.Concludes x m o := by
  let m₁ := m.record .trace fun _ =>
    "apply (" ++ name ++ " …" ++ toString args.length ++ " args)"
  have hm₁ : m₁.silent = m.silent := m.silent_record _ _
  have hscopes : m₁.scopes = m.scopes := congrArg (·.scopes) hm₁
  have hget : (Eval.get? scope name : Eval κ (Option Value)) m₁ = .ok none m₁ := by
    rw [← hunbound, ← hscopes]
    rfl
  have hstep : ∀ fuel, (Evaluator.withFuel reg (fuel + 1)).eval
      (.call (.identifier name :: args)) scope m =
        (Evaluator.withFuel reg fuel).callDirectly entry args scope m₁ := by
    intro fuel
    simp only [Evaluator.withFuel, Evaluator.evalStep, Evaluator.callByName, hform]
    refine (bind_ok rfl).trans ((bind_ok hget).trans ?_)
    simp only [hfind]
  refine (concludes_step_iff (y := (·.callDirectly entry args scope)) rfl hstep).trans ?_
  simp only [hcall]
  exact (hx.concludes_record_iff _ _).trans (hx.concludes_silent_iff hm₁)

end Calls

section Agreement

variable {hosts : List (String × HostFunction κ)} {libraries : List Library} {name : String}
  {entry : Entry κ} (hfind : (ofLibraries hosts libraries).find? name = some entry)
include hfind

private theorem steady_call (vs : List Value) :
    (ofLibraries hosts libraries).Steady fun ev => entry.call ev.apply vs := by
  have hreg := Simulation.registry_paired_untilExhausted hosts libraries
  have hfound := hreg.found_of_allows (Simulation.allows_untilExhausted (.builtin name))
  rw [hfind] at hfound
  cases hfound with
  | both hentry =>
    exact steady_of_paired hreg fun hev =>
      (hentry.call hev.apply _ vs fun v _ => Simulation.allows_untilExhausted v).imp
        fun _ _ => trivial

/-- The arguments of other functions are all evaluated, and the function is called with them. -/
theorem concludes_eval_iff_apply {scope : FrameRef} {m : Machine κ}
    (hform : Keyword.ofName? name = none) (hunbound : m.scopes.get? scope name = none)
    (hcircuit : entry.shortCircuit = none) (args : List Expr)
    (o : Except Unwind Value × Machine κ) :
    (ofLibraries hosts libraries).Concludes (·.eval (.call (.identifier name :: args)) scope) m o ↔
      (ofLibraries hosts libraries).Concludes
        (fun ev => ev.sequence args scope >>= ev.apply (.builtin name)) m o := by
  have hreg := Simulation.registry_paired_untilExhausted hosts libraries
  have hargs := steady_sequence hreg args scope
  have hsteady : (ofLibraries hosts libraries).Steady fun ev =>
      ev.sequence args scope >>= entry.call ev.apply := hargs.bind (steady_call hfind)
  have hcall : ∀ ev : Evaluator κ, ev.callDirectly entry args scope = (do
      Eval.record .trace fun _ =>
        "dispatch " ++ entry.name ++ " to library " ++ entry.library.name
      ev.sequence args scope >>= entry.call ev.apply) := by
    intro ev
    simp only [Evaluator.callDirectly, hcircuit]
  rw [concludes_eval_direct_iff hfind hsteady hform hunbound hcall,
    concludes_bind_iff hargs (steady_call hfind),
    concludes_bind_iff hargs (steady_apply hreg (.builtin name))]
  simp only [concludes_apply_builtin_iff hfind]

/-- The arguments of a short circuit are evaluated as far as they are needed. -/
private theorem concludes_eval_iff_shortCircuit {scope : FrameRef} {m : Machine κ}
    {s : ShortCircuit} (hform : Keyword.ofName? name = none)
    (hunbound : m.scopes.get? scope name = none) (hcircuit : entry.shortCircuit = some s)
    (args : List Expr) (o : Except Unwind Value × Machine κ) :
    (ofLibraries hosts libraries).Concludes (·.eval (.call (.identifier name :: args)) scope) m o ↔
      (ofLibraries hosts libraries).Concludes (·.shortCircuit s scope s.empty args) m o := by
  have hreg := Simulation.registry_paired_untilExhausted hosts libraries
  refine concludes_eval_direct_iff hfind (steady_shortCircuit hreg s scope s.empty args) hform
    hunbound fun ev => ?_
  simp only [Evaluator.callDirectly, hcircuit]

/-- The primitive behind a short circuit is given all the values. -/
private theorem concludes_apply_circuit {s : ShortCircuit}
    (hcircuit : entry.function = .primitive (Primitive.circuit s.name s)) (vs : List Value)
    (m : Machine κ) : (ofLibraries hosts libraries).Concludes (·.apply (.builtin name) vs) m
      (.ok (s.outcome vs), m.silent) :=
  (concludes_apply_iff_of_returns hfind hcircuit rfl fun _ _ _ => rfl).2 rfl

end Agreement

/-- A direct call of a library function does what a call of the value does that stands for it, on
    the values of its arguments.

    A direct call of `and` or `or` evaluates its arguments up to the first value that settles the
    outcome, and unwinds if one of these arguments does.  It ends with the value that the function
    has for the values so far, whatever values may follow once the outcome is settled. -/
theorem direct_call_agrees {reg : Registry κ} {hosts : List (String × HostFunction κ)}
    {libraries : List Library} (hreg : reg = .ofLibraries hosts libraries) {name : String}
    {l : Library} (howner : reg.owner? name = some l) (hform : Keyword.ofName? name = none)
    {scope : FrameRef} {m : Machine κ} (hunbound : m.scopes.get? scope name = none)
    (args : List Expr) :
    ((∀ s : ShortCircuit, ¬ (l = .core ∧ name = s.name)) → ∀ o,
      reg.Concludes (·.eval (.call (.identifier name :: args)) scope) m o ↔
        reg.Concludes (fun ev => ev.sequence args scope >>= ev.apply (.builtin name)) m o) ∧
    ∀ s : ShortCircuit, l = .core → name = s.name →
      (∀ v m', reg.Concludes (·.eval (.call (.identifier name :: args)) scope) m (.ok v, m') ↔
        ∃ done rest vs, args = done ++ rest ∧
          reg.Concludes (·.sequence done scope) m (.ok vs, m') ∧ s.EndsAt vs rest ∧
          ∀ ws, ws = [] ∨ s.Decided vs →
            reg.Concludes (·.apply (.builtin name) (vs ++ ws)) m' (.ok v, m')) ∧
      ∀ u m', reg.Concludes (·.eval (.call (.identifier name :: args)) scope) m (.error u, m') ↔
        ∃ done e rest vs m₁, args = done ++ e :: rest ∧
          reg.Concludes (·.sequence done scope) m (.ok vs, m₁) ∧ ¬ s.Decided vs ∧
          reg.Concludes (·.eval e scope) m₁ (.error u, m') := by
  subst hreg
  have hreg := Simulation.registry_paired_untilExhausted hosts libraries
  obtain ⟨entry, hfind, rfl⟩ := Option.map_eq_some_iff.1 howner
  constructor
  · intro hother o
    refine concludes_eval_iff_apply hfind hform hunbound ?_ args o
    exact Option.eq_none_iff_forall_not_mem.2 fun s hs => hother s (of_shortCircuit hfind hs)
  · -- the primitive behind the name is known, and the two ways differ in what they evaluate
    intro s hcore hname
    have hcircuit := function_eq_circuit hfind hcore hname
    have heager := concludes_apply_circuit hfind hcircuit
    have hshort : entry.shortCircuit = some s := by
      simp only [Entry.shortCircuit, hcircuit, Primitive.circuit]
    have hdirect := concludes_eval_iff_shortCircuit hfind hform hunbound hshort args
    refine ⟨fun v m' => ?_, fun u m' => ?_⟩
    · rw [hdirect, concludes_shortCircuit_ok_iff hreg]
      refine exists_congr fun done => exists_congr fun rest => exists_congr fun vs =>
        and_congr_right fun _ => and_congr_right fun hdone => and_congr_right fun hends => ?_
      have hm' : m'.silent = m' := hdone.silent_eq
      constructor
      · rintro rfl ws hws
        have hws := hends.outcome_append hws
        have hall := heager (vs ++ ws) m'
        rwa [hws, hm'] at hall
      · intro hall
        -- the values so far lead to one outcome only
        have hlast := (hall [] (.inl rfl)).unique (steady_apply hreg _ _) (heager (vs ++ []) m')
        rw [hends.outcome_append (.inl rfl)] at hlast
        exact (Except.ok.inj (congrArg Prod.fst hlast)).symm
    · rw [hdirect]
      exact concludes_shortCircuit_error_iff hreg

/-- The second argument settles the outcome, so the last one is not evaluated; but the first one
    prints a line. -/
theorem direct_call_agrees_or :
    ∃ (reg : Registry Unit) (m m' : Machine Unit) (args : List Expr),
      reg = .ofLibraries [] Library.all ∧ reg.owner? "or" = some .core ∧
      m.scopes.get? Scopes.root "or" = none ∧ m.printed = #[] ∧ m'.printed = #["a"] ∧
      args = [.call [.identifier "print", .string "a"], .string "b",
        .call [.identifier "throw", .string "c"]] ∧
      reg.Concludes (·.eval (.call (.identifier "or" :: args)) Scopes.root) m
        (.ok (.string "b"), m') ∧
      (∃ done rest vs, args = done ++ rest ∧
        reg.Concludes (·.sequence done Scopes.root) m (.ok vs, m') ∧
        ShortCircuit.any.EndsAt vs rest ∧
        ∀ ws, ws = [] ∨ ShortCircuit.any.Decided vs →
          reg.Concludes (·.apply (.builtin "or") (vs ++ ws)) m' (.ok (.string "b"), m')) ∧
      ∀ o, reg.Concludes (·.eval (.call (.identifier "print" :: args)) Scopes.root) m o ↔
        reg.Concludes (fun ev => ev.sequence args Scopes.root >>= ev.apply (.builtin "print"))
          m o := by
  let args : List Expr := [.call [.identifier "print", .string "a"], .string "b",
    .call [.identifier "throw", .string "c"]]
  let m : Machine Unit := { context := () }
  let last := ((Evaluator.withFuel (ofLibraries [] Library.all) 3).eval
    (.call (.identifier "or" :: args)) Scopes.root).outcome m
  have hvalue : last.1 = .ok (.string "b") := by decide +kernel
  have hprinted : last.2.printed = #["a"] := by decide +kernel
  have hconcludes : (ofLibraries [] Library.all).Concludes
      (·.eval (.call (.identifier "or" :: args)) Scopes.root) m (.ok (.string "b"), last.2) :=
    ⟨nofun, 3, Prod.ext hvalue rfl⟩
  have hor : (ofLibraries [] Library.all : Registry Unit).owner? "or" = some .core := by rfl
  have hprint : (ofLibraries [] Library.all : Registry Unit).owner? "print" = some .core := by rfl
  have hunbound : m.scopes.get? Scopes.root "or" = none := by rfl
  have hunbound' : m.scopes.get? Scopes.root "print" = none := by rfl
  obtain ⟨-, hcircuit⟩ := direct_call_agrees rfl hor rfl hunbound args
  obtain ⟨hplain, -⟩ := direct_call_agrees rfl hprint rfl hunbound' args
  refine ⟨_, m, last.2, args, rfl, hor, hunbound, rfl, hprinted, rfl, hconcludes,
    ((hcircuit .any rfl rfl).1 _ _).1 hconcludes, hplain ?_⟩
  intro s
  cases s <;> decide

end Registry
end Lisplet
