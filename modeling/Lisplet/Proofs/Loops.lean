import Lisplet.Proofs.Outcomes

/-! # Loops

The two loops that test a condition are written apart from each other: one tests before each pass
and carries the value of the last pass along, the other tests after each pass and has the value at
hand.  But once the first test has come out true, a `while` loop is a `do` loop: a pass, a test, a
pass, and so on.

The two use up fuel in different places, so with the same fuel neither gets as far as the other.
With a little more fuel each does, whatever its passes and its tests do.

* `Evaluator.fromPass`           a `while` loop after a test that came out true
* `Evaluator.while_iff_if_do`    a `while` loop is a `do` loop behind a test -/

namespace Lisplet

open Eval

variable {κ : Type}

namespace Evaluator

/-- A `while` loop from a pass on. -/
def fromPass (ev : Evaluator κ) (condition : Expr) (body : List Expr) (scope : FrameRef)
    (fuel : Nat) : Eval κ Value := do
  match ← ev.pass body scope with
  | some v => ev.whileLoop condition body scope v fuel
  | none => return .null

/-! ## Loops side by side -/

section Loops

variable {ev ev' : Evaluator κ} (h : ev.Paired (.untilExhausted κ) ev') (condition : Expr)
  (body : List Expr) (scope : FrameRef)
include h

/-- The tests go together. -/
private theorem test_approximates :
    (ev.test condition scope).Approximates (ev'.test condition scope) :=
  test_paired h (Simulation.over_untilExhausted condition) trivial

/-- So do the passes. -/
private theorem pass_approximates : (ev.pass body scope).Approximates (ev'.pass body scope) :=
  (pass_paired h (fun e _ => Simulation.over_untilExhausted e) trivial).imp fun _ _ => trivial

/-- From a pass on, a `do` loop gets as far as a `while` loop that has less fuel. -/
private theorem fromPass_approximates_doLoop : ∀ {fuel fuel' : Nat}, fuel < fuel' →
    (ev.fromPass condition body scope fuel).Approximates
      (ev'.doLoop condition body scope fuel')
  | fuel, fuel' + 1, hlt => by
    refine (pass_approximates h body scope).bind fun result _ => ?_
    cases result with
    | none => exact paired_pure trivial
    | some v =>
      cases fuel with
      -- no fuel is left for the next test
      | zero => exact approximates_of_exhausted _
      | succ fuel =>
        refine (test_approximates h condition scope).bind fun again _ => ?_
        split
        · exact fromPass_approximates_doLoop (by omega)
        · exact paired_pure trivial

/-- From a pass on, a `while` loop gets as far as a `do` loop that has no more fuel. -/
private theorem doLoop_approximates_fromPass : ∀ {fuel fuel' : Nat}, fuel ≤ fuel' →
    (ev.doLoop condition body scope fuel).Approximates
      (ev'.fromPass condition body scope fuel')
  | 0, _, _ => approximates_of_exhausted _
  | fuel + 1, fuel' + 1, hle => by
    refine (pass_approximates h body scope).bind fun result _ => ?_
    cases result with
    | none => exact paired_pure trivial
    | some v =>
      refine (test_approximates h condition scope).bind fun again _ => ?_
      split
      · exact doLoop_approximates_fromPass (by omega)
      · exact paired_pure trivial

end Loops

/-! ## Loops in programs -/

/-- A special form with as many parts as it should have is evaluated with one step less. -/
theorem eval_form (reg : Registry κ) {k : Keyword} {parts : List Expr}
    (hlen : k.arity.contains parts.length = true) (scope : FrameRef) (fuel : Nat) :
    (withFuel reg (fuel + 1)).eval (.call (.identifier k.name :: parts)) scope = (do
      Eval.record .trace fun _ =>
        "apply (" ++ k.name ++ " …" ++ toString parts.length ++ " args)"
      Form.run (withFuel reg fuel) fuel scope k parts) := by
  have hkeyword : Keyword.ofName? k.name = some k := by
    cases k with
    | signal s => cases s <;> rfl
    | _ => rfl
  simp only [withFuel, evalStep, callByName, hkeyword, Form.call, Eval.checkArity, hlen, if_true,
    pure_bind]

section Forms

variable {reg : Registry κ} {k : Keyword} {parts : List Expr}
  (hlen : k.arity.contains parts.length = true) {scope : FrameRef} {fuel : Nat} {x : Eval κ Value}
include hlen

/-- A form goes with what its run goes with, and takes a step for it. -/
private theorem eval_form_approximates
    (h : (Form.run (withFuel reg fuel) fuel scope k parts).Approximates x) :
    ((withFuel reg (fuel + 1)).eval (.call (.identifier k.name :: parts)) scope).Approximates
      x := by
  rw [eval_form reg hlen]
  exact .record_left h _ _

/-- The same for the other side. -/
private theorem approximates_eval_form
    (h : x.Approximates (Form.run (withFuel reg fuel) fuel scope k parts)) :
    x.Approximates
      ((withFuel reg (fuel + 1)).eval (.call (.identifier k.name :: parts)) scope) := by
  rw [eval_form reg hlen]
  exact .record_right h _ _

end Forms

section Programs

variable {reg : Registry κ} (hreg : reg.Paired (.untilExhausted κ) reg) (condition : Expr)
  (body : List Expr) (scope : FrameRef) (fuel : Nat)
include hreg

/-- With one more step the `do` loop behind a test gets as far as the `while` loop. -/
private theorem while_approximates_if_do :
    ((withFuel reg fuel).eval (.call (.identifier "while" :: condition :: body))
        scope).Approximates
      ((withFuel reg (fuel + 1)).eval (.call [.identifier "if", condition,
        .call (.identifier "do" :: condition :: body)]) scope) := by
  have hlen : (Arity.atLeast 1).contains (condition :: body).length = true := by
    simp [Arity.contains]
  cases fuel with
  | zero => exact approximates_of_exhausted _
  | succ fuel =>
    refine eval_form_approximates (k := .whileLoop) hlen ?_
    -- the first test takes up a step of the loop
    cases fuel with
    | zero => exact approximates_of_exhausted _
    | succ fuel =>
      refine approximates_eval_form (k := .ifElse) rfl ?_
      have hmore := Registry.withFuel_paired_of_le hreg (Nat.le_succ (fuel + 1))
      refine (test_approximates hmore condition scope).bind fun holds _ => ?_
      split
      · have hsame := Registry.withFuel_paired_of_le hreg (Nat.le_refl (fuel + 1))
        exact approximates_eval_form (k := .doLoop) hlen
          (fromPass_approximates_doLoop hsame condition body scope (Nat.lt_succ_self fuel))
      · exact paired_pure trivial

/-- With one more step the `while` loop gets as far as the `do` loop behind a test. -/
private theorem if_do_approximates_while :
    ((withFuel reg fuel).eval (.call [.identifier "if", condition,
        .call (.identifier "do" :: condition :: body)]) scope).Approximates
      ((withFuel reg (fuel + 1)).eval (.call (.identifier "while" :: condition :: body))
        scope) := by
  have hlen : (Arity.atLeast 1).contains (condition :: body).length = true := by
    simp [Arity.contains]
  cases fuel with
  | zero => exact approximates_of_exhausted _
  | succ fuel =>
    refine eval_form_approximates (k := .ifElse) rfl
      (approximates_eval_form (k := .whileLoop) hlen ?_)
    have hmore := Registry.withFuel_paired_of_le hreg (Nat.le_succ fuel)
    refine (test_approximates hmore condition scope).bind fun holds _ => ?_
    split
    · -- the `do` form takes up a step of its own
      cases fuel with
      | zero => exact approximates_of_exhausted _
      | succ fuel =>
        have hmore : fuel ≤ fuel + 2 := by omega
        exact eval_form_approximates (k := .doLoop) hlen (doLoop_approximates_fromPass
          (Registry.withFuel_paired_of_le hreg hmore) condition body scope (Nat.le_succ fuel))
    · exact paired_pure trivial

end Programs

/-- A `while` loop is a `do` loop behind a test.  Whatever the condition and the body do, the two
    programs conclude with the same outcomes: if one comes to an end, so does the other, with the
    same value, loop signal or failure, and on the same machine. -/
theorem while_iff_if_do (hosts : List (String × HostFunction κ)) (libraries : List Library)
    (condition : Expr) (body : List Expr) (scope : FrameRef) (m : Machine κ)
    (o : Except Unwind Value × Machine κ) :
    (Registry.ofLibraries hosts libraries).Concludes
        (·.eval (.call (.identifier "while" :: condition :: body)) scope) m o ↔
      (Registry.ofLibraries hosts libraries).Concludes
        (·.eval (.call [.identifier "if", condition,
          .call (.identifier "do" :: condition :: body)]) scope) m o := by
  have hreg := Simulation.registry_paired_untilExhausted hosts libraries
  constructor
  · intro h
    refine h.of_approximates (fun fuel => ⟨fuel + 1, ?_⟩) rfl
    exact while_approximates_if_do hreg condition body scope fuel
  · intro h
    refine h.of_approximates (fun fuel => ⟨fuel + 1, ?_⟩) rfl
    exact if_do_approximates_while hreg condition body scope fuel

end Evaluator
end Lisplet
