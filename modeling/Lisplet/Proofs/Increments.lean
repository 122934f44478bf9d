import Lisplet.Proofs.LibraryCalls
import Lisplet.Proofs.Loops

/-! # Increments

The form `(inc a d)` and the assignment `(set! a (+ a d))` read the variable, evaluate the amount
and write the variable in places of their own.  The amount may be any expression: it may assign the
variable, or shadow it, so that the write goes to another frame than the read.  Still the two come
to the same: both read before the amount is evaluated, and write after it.

* `Eval.addTo`                       what is left to do once the amount has a value
* `Registry.concludes_inc_iff`       an increment, in these terms
* `Registry.concludes_set_sum_iff`   the assignment of a sum, in the same terms
* `Registry.inc_iff_set_sum`         an increment is the assignment of a sum -/

namespace Lisplet

open Eval

variable {κ : Type}

/-- To look a name up changes nothing. -/
theorem Eval.get?_eq (scope : FrameRef) (name : String) (m : Machine κ) :
    get? scope name m = .ok (m.scopes.get? scope name) m := rfl

/-- Adds an amount to the number `x` and assigns the sum.  An amount that is not a number is
    reported for `function`. -/
def Eval.addTo (function : String) (scope : FrameRef) (name : String) (x : Float)
    (amount : Value) : Eval κ Value := do
  let y ← pinned function (expect amount.asNumber)
  assign scope name (.number (x + y))

/-- The function `+` is one of the math library. -/
private theorem Library.plus_mem : (Primitive.onNumbers "+" 0 fun xs => pure (Primitive.sum xs)) ∈
    (math.primitives : List (Primitive κ)) := by
  simp [primitives, Primitive.mathTable]

namespace Registry

/-! ## The last step -/

section AddTo

variable (reg : Registry κ) (function : String) (scope : FrameRef) (name : String) (x : Float)

private theorem steady_assign (v : Value) : reg.Steady fun _ => assign scope name v :=
  fun _ _ _ => (paired_assign trivial trivial (Simulation.allows_untilExhausted v)).imp
    fun _ _ => trivial

private theorem steady_pinned_number (v : Value) :
    reg.Steady fun _ => pinned function (expect v.asNumber) :=
  fun _ _ _ => ((paired_expect _).imp fun _ _ => trivial).pinned function

private theorem steady_addTo (v : Value) : reg.Steady fun _ => addTo function scope name x v :=
  (steady_pinned_number reg function v).bind fun y =>
    steady_assign reg scope name (.number (x + y))

variable {reg function scope name x}

/-- An amount that is not a number is the only difference. -/
private theorem concludes_addTo_iff_of_ne {v : Value} (hv : ∀ y, v ≠ .number y) {m : Machine κ}
    {o : Except Unwind Value × Machine κ} :
    reg.Concludes (fun _ => addTo function scope name x v) m o ↔
      o = (.error (.failure (.badArgument function .notNumber)), m.silent) := by
  have hnumber : v.asNumber = .error .notNumber := by
    cases v with
    | number y => exact absurd rfl (hv y)
    | _ => rfl
  refine concludes_iff_of_forall_outcome (fun u hu => ?_) fun ev => ?_
  · cases hu
    exact fun h => nomatch h
  · rw [addTo, hnumber]
    rfl

end AddTo

/-! ## The two programs -/

/-- A special form concludes as the run does that it makes, whatever the journal. -/
private theorem concludes_form_iff {reg : Registry κ} {k : Keyword} {parts : List Expr}
    (hlen : k.arity.contains parts.length = true) {scope : FrameRef}
    {x : Evaluator κ → Eval κ Value} (hx : reg.Steady x) {m : Machine κ}
    (hrun : ∀ fuel journal, Form.run (.withFuel reg fuel) fuel scope k parts { m with journal } =
      x (.withFuel reg fuel) { m with journal })
    {o : Except Unwind Value × Machine κ} :
    reg.Concludes (·.eval (.call (.identifier k.name :: parts)) scope) m o ↔
      reg.Concludes x m o := by
  let m₁ := m.record .trace fun _ =>
    "apply (" ++ k.name ++ " …" ++ toString parts.length ++ " args)"
  have hm₁ : m₁.silent = m.silent := m.silent_record _ _
  obtain ⟨journal, hjournal⟩ := Machine.exists_eq_of_silent hm₁
  refine (concludes_step_iff rfl fun fuel => ?_).trans (hx.concludes_silent_iff hm₁)
  rw [Evaluator.eval_form reg hlen]
  refine (bind_ok rfl).trans (show Form.run _ fuel scope k parts m₁ = _ from ?_)
  rw [hjournal]
  exact hrun fuel journal

section Programs

variable {hosts : List (String × HostFunction κ)} {libraries : List Library} {scope : FrameRef}
  {name : String} {m : Machine κ} {o : Except Unwind Value × Machine κ}

/-- An assignment evaluates its expression and then assigns the value. -/
private theorem concludes_set_iff (e : Expr) :
    (ofLibraries hosts libraries).Concludes
        (·.eval (.call [.identifier "set!", .identifier name, e]) scope) m o ↔
      (ofLibraries hosts libraries).Concludes
        (fun ev => ev.eval e scope >>= assign scope name) m o := by
  have hreg := Simulation.registry_paired_untilExhausted hosts libraries
  have he := steady_eval hreg e scope
  have hassign := steady_assign (ofLibraries hosts libraries) scope name
  have hrecord (v : Value) : (ofLibraries hosts libraries).Steady (fun _ =>
      record .trace (fun m => "assign " ++ name ++ " in " ++ m.scopes.text scope) >>= fun _ =>
        assign scope name v) := fun _ _ hle =>
    ((hassign v _ _ hle).record_left _ _).record_right _ _
  refine (concludes_form_iff (k := .setName) rfl (he.bind hrecord) fun _ _ => bind_ok rfl).trans ?_
  exact concludes_bind_congr he he hrecord hassign (fun _ => .rfl) fun v m₁ _ =>
    (hassign v).concludes_record_iff _ _

variable {x : Float} (hbound : m.scopes.get? scope name = some (.number x)) (d : Expr)
include hbound

/-- The variable is read before the amount is evaluated. -/
theorem concludes_inc_iff :
    (ofLibraries hosts libraries).Concludes
        (·.eval (.call [.identifier "inc", .identifier name, d]) scope) m o ↔
      (ofLibraries hosts libraries).Concludes
        (fun ev => ev.eval d scope >>= addTo "inc" scope name x) m o := by
  have hreg := Simulation.registry_paired_untilExhausted hosts libraries
  have hsteady := (steady_eval hreg d scope).bind
    (steady_addTo (ofLibraries hosts libraries) "inc" scope name x)
  refine concludes_form_iff (k := .inc) rfl hsteady fun fuel journal => ?_
  have hlookup : lookup scope name { m with journal } = .ok (.number x) { m with journal } := by
    unfold lookup
    rw [bind_ok (get?_eq scope name _)]
    simp only [hbound]
    rfl
  exact (bind_ok rfl).trans ((bind_ok hlookup).trans (bind_ok rfl))

/-- A variable means its number. -/
private theorem concludes_identifier : (ofLibraries hosts libraries).Concludes
    (·.eval (.identifier name) scope) m (.ok (.number x), m.silent) := by
  refine ⟨nofun, 1, outcome_of_ok ?_⟩
  show Evaluator.meaning _ scope name m = _
  unfold Evaluator.meaning
  rw [bind_ok (get?_eq scope name m), hbound]
  rfl

omit hbound in
/-- The function `+` adds the amount to the number, if it is one itself. -/
private theorem concludes_plus_iff (howner : (ofLibraries hosts libraries).owner? "+" = some .math)
    (v : Value) : (ofLibraries hosts libraries).Concludes
        (·.apply (.builtin "+") [.number x, v]) m o ↔
      (ofLibraries hosts libraries).Concludes (fun _ => do
        let y ← pinned "+" (expect v.asNumber)
        pure (.number (x + y))) m o := by
  let sum : Eval κ Value := do
    let y ← pinned "+" (expect v.asNumber)
    pure (.number (x + y))
  have hkept : ∀ u, (sum.outcome m).1 = .error u → ¬ u.IsExhausted := by
    cases v <;> rintro _ ⟨⟩ <;> exact fun h => nomatch h
  refine (concludes_primitive_iff Library.plus_mem howner rfl hkept fun apply journal => ?_).trans
    (concludes_iff_of_forall_outcome hkept fun _ => rfl).symm
  cases v <;> rfl

/-- The variable comes first among the arguments of a sum. -/
private theorem concludes_sum_iff (howner : (ofLibraries hosts libraries).owner? "+" = some .math)
    (hplus : m.scopes.get? scope "+" = none) :
    (ofLibraries hosts libraries).Concludes
        (·.eval (.call [.identifier "+", .identifier name, d]) scope) m o ↔
      (ofLibraries hosts libraries).Concludes (fun ev => ev.eval d scope >>= fun v =>
        ev.apply (.builtin "+") [.number x, v]) m o := by
  have hreg := Simulation.registry_paired_untilExhausted hosts libraries
  refine (concludes_eval_primitive_iff Library.plus_mem howner rfl rfl hplus [.identifier name, d]
    o).trans ?_
  have hsequence (ev : Evaluator κ) : ev.sequence [.identifier name, d] scope =
      ev.eval (.identifier name) scope >>= fun w => ev.eval d scope >>= fun v => pure [w, v] := by
    simp [Evaluator.sequence]
  have hd := steady_eval hreg d scope
  have hrest (w : Value) := hd.bind fun v => steady_apply hreg (.builtin "+") [w, v]
  simp only [hsequence, bind_assoc, pure_bind]
  refine ((concludes_identifier hbound).bind_iff (steady_eval hreg _ scope) hrest).trans ?_
  exact (hrest (.number x)).concludes_silent_iff m.silent_silent

/-- The sum is computed and assigned once the amount has a value. -/
theorem concludes_set_sum_iff (howner : (ofLibraries hosts libraries).owner? "+" = some .math)
    (hplus : m.scopes.get? scope "+" = none) :
    (ofLibraries hosts libraries).Concludes (·.eval (.call [.identifier "set!", .identifier name,
        .call [.identifier "+", .identifier name, d]]) scope) m o ↔
      (ofLibraries hosts libraries).Concludes
        (fun ev => ev.eval d scope >>= addTo "+" scope name x) m o := by
  have hreg := Simulation.registry_paired_untilExhausted hosts libraries
  have hd := steady_eval hreg d scope
  have hcall (v : Value) := steady_apply hreg (.builtin "+") [.number x, v]
  have hassign := steady_assign (ofLibraries hosts libraries) scope name
  have hsum (v : Value) := (steady_pinned_number (ofLibraries hosts libraries) "+" v).bind
    fun y => steady_pure (ofLibraries hosts libraries) (Value.number (x + y))
  have haddTo := steady_addTo (ofLibraries hosts libraries) "+" scope name x
  rw [concludes_set_iff, concludes_bind_congr (steady_eval hreg _ scope) (hd.bind hcall) hassign
    hassign (fun _ => concludes_sum_iff hbound d howner hplus) fun _ _ _ => .rfl]
  -- both sides evaluate the amount first, and then differ in how the sum is made
  simp only [bind_assoc]
  refine concludes_bind_congr hd hd (fun v => (hcall v).bind hassign) haddTo (fun _ => .rfl)
    fun v m₁ _ => ?_
  rw [concludes_bind_congr (hcall v) (hsum v) hassign hassign
    (fun _ => concludes_plus_iff howner v) fun _ _ _ => .rfl]
  simp only [addTo, bind_assoc, pure_bind]

end Programs

/-- An increment is the assignment of a sum.  If the variable is bound to a number and `+` means the
    function of the math library, then `(inc a d)` and `(set! a (+ a d))` conclude with the same
    outcomes, whatever the amount does, unless it has a value that is not a number.  Then both fail
    on the machine that the amount leaves, each with the name of its own function. -/
theorem inc_iff_set_sum {reg : Registry κ} {hosts : List (String × HostFunction κ)}
    {libraries : List Library} (hreg : reg = .ofLibraries hosts libraries)
    (howner : reg.owner? "+" = some .math) {scope : FrameRef} {name : String} {m : Machine κ}
    {x : Float} (hbound : m.scopes.get? scope name = some (.number x))
    (hplus : m.scopes.get? scope "+" = none) (d : Expr) :
    let inc := Expr.call [.identifier "inc", .identifier name, d]
    let set := Expr.call [.identifier "set!", .identifier name,
      .call [.identifier "+", .identifier name, d]]
    ((∀ v m', reg.Concludes (·.eval d scope) m (.ok v, m') → ∃ y, v = .number y) →
      ∀ o, reg.Concludes (·.eval inc scope) m o ↔ reg.Concludes (·.eval set scope) m o) ∧
    ∀ v m', reg.Concludes (·.eval d scope) m (.ok v, m') → (∀ y, v ≠ .number y) → ∀ o,
      (reg.Concludes (·.eval inc scope) m o ↔
        o = (.error (.failure (.badArgument "inc" .notNumber)), m')) ∧
      (reg.Concludes (·.eval set scope) m o ↔
        o = (.error (.failure (.badArgument "+" .notNumber)), m')) := by
  subst hreg
  have hreg := Simulation.registry_paired_untilExhausted hosts libraries
  have hd := steady_eval hreg d scope
  have haddTo (function : String) :=
    steady_addTo (ofLibraries hosts libraries) function scope name x
  refine ⟨fun hnumber o => ?_, fun v m' hv hne o => ?_⟩
  · rw [concludes_inc_iff hbound, concludes_set_sum_iff hbound d howner hplus]
    refine concludes_bind_congr hd hd (haddTo _) (haddTo _) (fun _ => .rfl) fun v m₁ hv => ?_
    -- with a number for the amount, no function is named in a cause
    obtain ⟨y, rfl⟩ := hnumber v m₁ hv
    exact .rfl
  · have hm' : m'.silent = m' := hv.silent_eq
    rw [concludes_inc_iff hbound, concludes_set_sum_iff hbound d howner hplus,
      hv.bind_iff hd (haddTo _), hv.bind_iff hd (haddTo _), concludes_addTo_iff_of_ne hne,
      concludes_addTo_iff_of_ne hne, hm']
    exact ⟨.rfl, .rfl⟩

/-- The amount `(let a 2)` shadows the variable, and the amount `null` is not a number. -/
theorem inc_iff_set_sum_shadowed :
    ∃ (reg : Registry Unit) (m m' : Machine Unit) (one two : Float) (shadow inc set : Expr),
      reg = .ofLibraries [] Library.all ∧ reg.owner? "+" = some .math ∧
      m.scopes.get? ⟨1⟩ "a" = some (.number one) ∧ m.scopes.get? ⟨1⟩ "+" = none ∧
      inc = .call [.identifier "inc", .identifier "a", shadow] ∧
      set = .call [.identifier "set!", .identifier "a",
        .call [.identifier "+", .identifier "a", shadow]] ∧
      reg.Concludes (·.eval inc ⟨1⟩) m (.ok (.number (one + two)), m') ∧
      reg.Concludes (·.eval set ⟨1⟩) m (.ok (.number (one + two)), m') ∧
      m'.scopes.get? Scopes.root "a" = some (.number one) ∧
      m'.scopes.get? ⟨1⟩ "a" = some (.number (one + two)) ∧
      (∀ o, reg.Concludes (·.eval (.call [.identifier "inc", .identifier "a", .null]) ⟨1⟩) m o ↔
        o = (.error (.failure (.badArgument "inc" .notNumber)), m)) := by
  let reg : Registry Unit := .ofLibraries [] Library.all
  let one := Float.ofNat 1
  let two := Float.ofNat 2
  let machine (bindings : Bindings) : Machine Unit :=
    { context := (), scopes := ⟨#[{ bindings := [("a", .number one)] },
      { outer := [Scopes.root], bindings }]⟩ }
  let shadow : Expr := .call [.identifier "let", .identifier "a", .number two]
  have howner : reg.owner? "+" = some .math := by rfl
  have hbound : (machine []).scopes.get? ⟨1⟩ "a" = some (.number one) := rfl
  have hplus : (machine []).scopes.get? ⟨1⟩ "+" = none := rfl
  have hshadow : reg.Concludes (·.eval shadow ⟨1⟩) (machine []) (.ok (.number two),
      machine [("a", .number two)]) := ⟨nofun, 3, rfl⟩
  have hinc : reg.Concludes (·.eval (.call [.identifier "inc", .identifier "a", shadow]) ⟨1⟩)
      (machine []) (.ok (.number (one + two)), machine [("a", .number (one + two))]) :=
    ⟨nofun, 4, rfl⟩
  have hnull : reg.Concludes (·.eval .null ⟨1⟩) (machine []) (.ok .null, machine []) :=
    ⟨nofun, 1, rfl⟩
  -- the amount has only one outcome
  have hnumber (v : Value) (m' : Machine Unit)
      (hv : reg.Concludes (·.eval shadow ⟨1⟩) (machine []) (.ok v, m')) : ∃ y, v = .number y := by
    have hreg := Simulation.registry_paired_untilExhausted (κ := Unit) [] Library.all
    cases hshadow.unique (steady_eval hreg shadow ⟨1⟩) hv
    exact ⟨two, rfl⟩
  obtain ⟨hsame, -⟩ := inc_iff_set_sum rfl howner hbound hplus shadow
  obtain ⟨-, hfails⟩ := inc_iff_set_sum rfl howner hbound hplus .null
  exact ⟨reg, machine [], machine [("a", .number (one + two))], one, two, shadow, _, _, rfl, howner,
    hbound, hplus, rfl, rfl, hinc, (hsame hnumber _).1 hinc, rfl, rfl,
    fun o => (hfails .null _ hnull nofun o).1⟩

end Registry
end Lisplet
